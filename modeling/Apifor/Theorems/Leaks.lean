import Apifor.Sidecar.Sessions
import Apifor.Lib.Runs

/-!
# Processes out of reach

Between the `cancel_flow` of a start and its registration other requests come and go. A process is lost just when
a registration replaces its entry, for every other one is in the table or in the hands of a request.
-/

namespace Sidecar

namespace Sessions

variable {s : State} {i j : Nat} {p q : Pid} {r : Req}

/-- No request is in progress. -/
def Idle (s : State) : Prop := ∀ r ∈ s.reqs, r = .done

/-- When no request is in progress, what lives is what is registered. -/
def Sole (s : State) : Prop := Idle s → ∀ p ∈ s.live, s.entry = some p

/-- When no request is in progress, no process whose entry was replaced is alive. -/
def Reclaimed (s : State) : Prop := Idle s → ∀ p ∈ s.replaced, p ∉ s.live

/-- Whoever registers finds no process alive in the entry. -/
def Vacant (s : State) : Event → Prop
  | .turn i _ => ∀ p, s.reqs[i]? = some (.registering p) → ∀ q, s.entry = some q → q ∉ s.live
  | _ => True

/-! ## The invariant -/

/-- The process that a request has spawned and not registered yet. -/
def Req.own : Req → Option Pid
  | .waiting pid => some pid
  | .registering pid => some pid
  | _ => none

/-- The process that a request is about to kill. -/
def Req.prey : Req → Option Pid
  | .killing old _ => old
  | _ => none

/-- Where a process is that lives. -/
def Placed (s : State) (p : Pid) : Prop :=
  s.entry = some p ∨ p ∈ s.replaced ∨ ∃ (i : Nat) (r : Req), s.reqs[i]? = some r ∧ (r.own = some p ∨ r.prey = some p)

structure Inv (s : State) : Prop where
  placed : ∀ p ∈ s.live, Placed s p
  born : ∀ p ∈ s.live, p < s.next
  entry : ∀ p, s.entry = some p → p < s.next ∧ p ∉ s.replaced
  replaced : ∀ p ∈ s.replaced, p < s.next
  own : ∀ (i : Nat) (r : Req) p, s.reqs[i]? = some r → r.own = some p →
    p < s.next ∧ s.entry ≠ some p ∧ p ∉ s.replaced
  single : ∀ (i j : Nat) (r r' : Req) p, s.reqs[i]? = some r → s.reqs[j]? = some r' → r.own = some p →
    r'.own = some p → i = j

theorem inv_empty : Inv ({} : State) := ⟨nofun, nofun, nofun, nofun, nofun, nofun⟩

theorem getElem?_set {l : List Req} {r' : Req} (h : (l.set i r')[j]? = some r) :
    (j = i ∧ r = r') ∨ (j ≠ i ∧ l[j]? = some r) := by
  by_cases hij : j = i
  · subst hij
    obtain ⟨hlt, -⟩ := List.getElem?_eq_some_iff.1 h
    rw [List.length_set] at hlt
    rw [List.getElem?_set_self hlt] at h
    exact .inl ⟨rfl, (Option.some.inj h).symm⟩
  · rw [List.getElem?_set_ne (Ne.symm hij)] at h
    exact .inr ⟨hij, h⟩

/-- A step of request `i`, which was at `r` and goes to `r'`. -/
structure Moves (s s' : State) (i : Nat) (r r' : Req) : Prop where
  found : s.reqs[i]? = some r
  reqs : s'.reqs = s.reqs.set i r'

section Moves

variable {s' : State} {r' : Req}

theorem Moves.self (h : Moves s s' i r r') : s'.reqs[i]? = some r' := by
  obtain ⟨hlt, -⟩ := List.getElem?_eq_some_iff.1 h.found
  rw [h.reqs, List.getElem?_set_self hlt]

theorem Moves.other (h : Moves s s' i r r') (hj : j ≠ i) : s'.reqs[j]? = s.reqs[j]? := by
  rw [h.reqs, List.getElem?_set_ne (Ne.symm hj)]

/-- A process keeps its place unless the step takes it away. -/
theorem Moves.placed (h : Moves s s' i r r') (hp : Placed s p) (hentry : s.entry = some p → Placed s' p)
    (hreplaced : p ∈ s.replaced → p ∈ s'.replaced) (hheld : r.own = some p ∨ r.prey = some p → Placed s' p) :
    Placed s' p := by
  obtain hp | hp | ⟨j, r₀, hj, hr₀⟩ := hp
  · exact hentry hp
  · exact .inr (.inl (hreplaced hp))
  · by_cases hji : j = i
    · subst hji
      cases h.found.symm.trans hj
      exact hheld hr₀
    · exact .inr (.inr ⟨j, r₀, (h.other hji).trans hj, hr₀⟩)

/-- A request that owns a process owned it before. -/
theorem Moves.owned (h : Moves s s' i r r') (hown : ∀ p, r'.own = some p → r.own = some p) {r₀ : Req}
    (hj : s'.reqs[j]? = some r₀) (hr₀ : r₀.own = some p) : ∃ r₁, s.reqs[j]? = some r₁ ∧ r₁.own = some p := by
  rw [h.reqs] at hj
  obtain ⟨rfl, rfl⟩ | ⟨-, hj⟩ := getElem?_set hj
  · exact ⟨r, h.found, hown p hr₀⟩
  · exact ⟨r₀, hj, hr₀⟩

/-- A step that leaves the entry and the replaced processes, and spawns nothing. -/
theorem Inv.moves (hs : Inv s) (h : Moves s s' i r r') (hown : ∀ p, r'.own = some p → r.own = some p)
    (hentry : s'.entry = s.entry) (hreplaced : s'.replaced = s.replaced) (hnext : s'.next = s.next)
    (hlive : ∀ p ∈ s'.live, p ∈ s.live ∧ (r.own = some p ∨ r.prey = some p → r'.own = some p ∨ r'.prey = some p)) :
    Inv s' where
  placed := fun p hp => by
    obtain ⟨hp, hheld⟩ := hlive p hp
    refine h.placed (hs.placed p hp) (fun he => .inl (hentry.trans he)) (fun hr => hreplaced ▸ hr) fun hr => ?_
    exact .inr (.inr ⟨i, r', h.self, hheld hr⟩)
  born := fun p hp => hnext ▸ hs.born p (hlive p hp).1
  entry := by
    rw [hentry, hnext, hreplaced]
    exact hs.entry
  replaced := by
    rw [hnext, hreplaced]
    exact hs.replaced
  own := fun j r₀ p hj hr₀ => by
    obtain ⟨r₁, hj, hr₁⟩ := h.owned hown hj hr₀
    rw [hentry, hnext, hreplaced]
    exact hs.own j r₁ p hj hr₁
  single := fun j k r₀ r₁ p hj hk hr₀ hr₁ => by
    obtain ⟨r₀, hj, hr₀⟩ := h.owned hown hj hr₀
    obtain ⟨r₁, hk, hr₁⟩ := h.owned hown hk hr₁
    exact hs.single j k r₀ r₁ p hj hk hr₀ hr₁

/-- The entry is taken out of the table. -/
theorem Inv.popping {rest : Rest} (hs : Inv s) (hi : s.reqs[i]? = some (.popping rest)) :
    Inv ({ s with entry := none }.put i (.killing s.entry rest)) := by
  have h : Moves s ({ s with entry := none }.put i (.killing s.entry rest)) i (.popping rest) _ := ⟨hi, rfl⟩
  refine ⟨fun p hp => ?_, hs.born, nofun, hs.replaced, fun j r p hj hr => ?_, fun j k r r' p hj hk hr hr' => ?_⟩
  · refine h.placed (hs.placed p hp) (fun he => ?_) (fun hr => hr) ?_
    · exact .inr (.inr ⟨i, _, h.self, .inr he⟩)
    · rintro (hr | hr) <;> cases hr
  · obtain ⟨r, hj, hr⟩ := h.owned nofun hj hr
    exact ⟨(hs.own j r p hj hr).1, nofun, (hs.own j r p hj hr).2.2⟩
  · obtain ⟨r, hj, hr⟩ := h.owned nofun hj hr
    obtain ⟨r', hk, hr'⟩ := h.owned nofun hk hr'
    exact hs.single j k r r' p hj hk hr hr'

theorem Inv.spawning (hs : Inv s) (hi : s.reqs[i]? = some .spawning) :
    Inv ({ s with live := s.next :: s.live, next := s.next + 1 }.put i (.waiting s.next)) := by
  have h : Moves s ({ s with live := s.next :: s.live, next := s.next + 1 }.put i (.waiting s.next)) i .spawning _ :=
    ⟨hi, rfl⟩
  have hown : ∀ j r p, (s.reqs.set i (.waiting s.next))[j]? = some r → r.own = some p →
      (j = i ∧ p = s.next) ∨ ∃ r₀, s.reqs[j]? = some r₀ ∧ r₀.own = some p := fun j r p hj hr => by
    obtain ⟨rfl, rfl⟩ | ⟨-, hj⟩ := getElem?_set hj
    · cases hr
      exact .inl ⟨rfl, rfl⟩
    · exact .inr ⟨r, hj, hr⟩
  refine ⟨fun p hp => ?_, fun p hp => ?_, fun p hp => ?_, fun p hp => Nat.lt_succ_of_lt (hs.replaced p hp),
    fun j r p hj hr => ?_, fun j k r r' p hj hk hr hr' => ?_⟩
  · cases hp with
    | head => exact .inr (.inr ⟨i, _, h.self, .inl rfl⟩)
    | tail _ hp =>
        refine h.placed (hs.placed p hp) .inl (fun hr => hr) ?_
        rintro (hr | hr) <;> cases hr
  · cases hp with
    | head => exact Nat.lt_succ_self _
    | tail _ hp => exact Nat.lt_succ_of_lt (hs.born p hp)
  · exact ⟨Nat.lt_succ_of_lt (hs.entry p hp).1, (hs.entry p hp).2⟩
  · obtain ⟨-, rfl⟩ | ⟨r₀, hj, hr₀⟩ := hown j r p hj hr
    · refine ⟨Nat.lt_succ_self _, fun he => ?_, fun hm => ?_⟩
      · exact Nat.lt_irrefl _ (hs.entry _ he).1
      · exact Nat.lt_irrefl _ (hs.replaced _ hm)
    · obtain ⟨hlt, hrest⟩ := hs.own j r₀ p hj hr₀
      exact ⟨Nat.lt_succ_of_lt hlt, hrest⟩
  · obtain ⟨rfl, rfl⟩ | ⟨r₀, hj₀, hr₀⟩ := hown j r p hj hr
    · obtain ⟨rfl, -⟩ | ⟨r₁, hk₁, hr₁⟩ := hown k r' _ hk hr'
      · rfl
      · exact (Nat.lt_irrefl _ (hs.own k r₁ _ hk₁ hr₁).1).elim
    · obtain ⟨rfl, rfl⟩ | ⟨r₁, hk₁, hr₁⟩ := hown k r' p hk hr'
      · exact (Nat.lt_irrefl _ (hs.own j r₀ _ hj₀ hr₀).1).elim
      · exact hs.single j k r₀ r₁ p hj₀ hk₁ hr₀ hr₁

/-- The entry of another process is replaced. -/
theorem Inv.registering {pid : Pid} (hs : Inv s) (hi : s.reqs[i]? = some (.registering pid)) :
    Inv ({ s with entry := some pid, replaced := s.entry.toList ++ s.replaced }.put i .done) := by
  have h : Moves s ({ s with entry := some pid, replaced := s.entry.toList ++ s.replaced }.put i .done) i
      (.registering pid) .done := ⟨hi, rfl⟩
  obtain ⟨hborn, hne, hfresh⟩ := hs.own i _ pid hi rfl
  refine ⟨fun p hp => ?_, hs.born, fun p hp => ?_, fun p hp => ?_, fun j r p hj hr => ?_,
    fun j k r r' p hj hk hr hr' => ?_⟩
  · refine h.placed (hs.placed p hp) (fun he => ?_) (fun hr => List.mem_append_right _ hr) ?_
    · exact .inr (.inl (List.mem_append_left _ (Option.mem_toList.2 he)))
    · rintro (hr | hr)
      · exact .inl hr
      · cases hr
  · cases hp
    refine ⟨hborn, fun hmem => ?_⟩
    cases List.mem_append.1 hmem with
    | inl hmem => exact hne (Option.mem_toList.1 hmem)
    | inr hmem => exact hfresh hmem
  · cases List.mem_append.1 hp with
    | inl hp => exact (hs.entry p (Option.mem_toList.1 hp)).1
    | inr hp => exact hs.replaced p hp
  · have hji : j ≠ i := by
      rintro rfl
      cases h.self.symm.trans hj
      cases hr
    obtain ⟨r, hj, hr⟩ := h.owned nofun hj hr
    obtain ⟨hlt, hentry, hrep⟩ := hs.own j r p hj hr
    refine ⟨hlt, fun heq => ?_, fun hmem => ?_⟩
    · cases heq
      exact hji (hs.single j i r _ pid hj hi hr rfl)
    · cases List.mem_append.1 hmem with
      | inl hmem => exact hentry (Option.mem_toList.1 hmem)
      | inr hmem => exact hrep hmem
  · obtain ⟨r, hj, hr⟩ := h.owned nofun hj hr
    obtain ⟨r', hk, hr'⟩ := h.owned nofun hk hr'
    exact hs.single j k r r' p hj hk hr hr'

theorem mem_kill {old : Option Pid} : p ∈ (s.kill old).live ↔ p ∈ s.live ∧ some p ≠ old := by
  simp [State.kill]

theorem Inv.turn (hs : Inv s) (hi : s.reqs[i]? = some r) (ok : Bool) : Inv (s.turn i ok r) := by
  have hkill : ∀ {old : Option Pid} {r' : Req}, r'.own = none → r'.prey = none →
      (∀ p, r.own = some p ∨ r.prey = some p → old = some p) → Inv ((s.kill old).put i r') :=
    fun {old r'} hown hprey hheld => by
      have h : Moves s ((s.kill old).put i r') i r r' := ⟨hi, rfl⟩
      refine hs.moves h ?_ rfl rfl rfl fun p hp => ?_
      · rw [hown]
        exact nofun
      · obtain ⟨hp, hne⟩ := mem_kill.1 hp
        exact ⟨hp, fun hr => (hne (hheld p hr).symm).elim⟩
  have hquiet : ∀ {r' : Req}, r.own = r'.own → r.prey = none → Inv (s.put i r') := fun {r'} hown hprey => by
    have h : Moves s (s.put i r') i r r' := ⟨hi, rfl⟩
    refine hs.moves h (fun p hp => hown.trans hp) rfl rfl rfl fun p hp => ⟨hp, fun hr => ?_⟩
    rw [hown, hprey] at hr
    exact .inl (hr.resolve_right nofun)
  cases r with
  | popping rest => exact hs.popping hi
  | killing old rest =>
      cases rest with
      | spawn => exact hkill rfl rfl fun p hr => hr.resolve_left nofun
      | stop => exact hkill rfl rfl fun p hr => hr.resolve_left nofun
  | spawning => exact hs.spawning hi
  | waiting pid =>
      cases ok with
      | true => exact hquiet rfl rfl
      | false => exact hkill rfl rfl fun p hr => hr.resolve_right nofun
  | registering pid => exact hs.registering hi
  | getting =>
      unfold State.turn
      dsimp only
      split
      · exact hquiet rfl rfl
      · exact hquiet rfl rfl
  | typing pid =>
      cases ok with
      | true => exact hquiet rfl rfl
      | false => exact hquiet rfl rfl
  | done => exact hs

end Moves

/-- A request arrives. -/
theorem Inv.arrives (hs : Inv s) (hown : r.own = none) : Inv { s with reqs := s.reqs ++ [r] } := by
  have hold : ∀ {j : Nat} {r₀ : Req}, s.reqs[j]? = some r₀ → (s.reqs ++ [r])[j]? = some r₀ := fun {j r₀} hj => by
    rw [List.getElem?_append_left (List.getElem?_eq_some_iff.1 hj).1, hj]
  have hback : ∀ {j : Nat} {r₀ : Req} {p : Pid}, (s.reqs ++ [r])[j]? = some r₀ → r₀.own = some p →
      s.reqs[j]? = some r₀ := fun {j r₀ p} hj hr₀ => by
    by_cases hlt : j < s.reqs.length
    · rwa [List.getElem?_append_left hlt] at hj
    · rw [List.getElem?_append_right (Nat.le_of_not_lt hlt)] at hj
      have hmem := List.mem_of_getElem? hj
      rw [List.mem_singleton.1 hmem, hown] at hr₀
      cases hr₀
  refine ⟨fun p hp => ?_, hs.born, hs.entry, hs.replaced, fun j r₀ p hj hr₀ => hs.own j r₀ p (hback hj hr₀) hr₀,
    fun j k r₀ r₁ p hj hk hr₀ hr₁ => hs.single j k r₀ r₁ p (hback hj hr₀) (hback hk hr₁) hr₀ hr₁⟩
  obtain hp | hp | ⟨j, r₀, hj, hr₀⟩ := hs.placed p hp
  · exact .inl hp
  · exact .inr (.inl hp)
  · exact .inr (.inr ⟨j, r₀, hold hj, hr₀⟩)

theorem Inv.exits (hs : Inv s) (old : Option Pid) : Inv (s.kill old) where
  placed := fun p hp => hs.placed p (mem_kill.1 hp).1
  born := fun p hp => hs.born p (mem_kill.1 hp).1
  entry := hs.entry
  replaced := hs.replaced
  own := hs.own
  single := hs.single

theorem Inv.step (hs : Inv s) (e : Event) : Inv (step s e) := by
  cases e with
  | start => exact hs.arrives rfl
  | code => exact hs.arrives rfl
  | cancel => exact hs.arrives rfl
  | exits pid => exact hs.exits _
  | turn i ok =>
      unfold Sessions.step
      dsimp only
      split
      · next r hi => exact hs.turn hi ok
      · exact hs

/-! ## What is lost -/

/-- Once no request is in progress, what lives is what is registered just when nothing that was replaced lives. -/
theorem Inv.sole_iff_reclaimed (hs : Inv s) : Sole s ↔ Reclaimed s := by
  refine ⟨fun h hidle p hp hlive => ?_, fun h hidle p hlive => ?_⟩
  · exact (hs.entry p (h hidle p hlive)).2 hp
  · obtain he | hp | ⟨j, r, hj, hr⟩ := hs.placed p hlive
    · exact he
    · exact (h hidle p hp hlive).elim
    · rw [hidle r (List.mem_of_getElem? hj)] at hr
      rcases hr with hr | hr <;> cases hr

/-- What was replaced is dead. -/
def Dead (s : State) : Prop := ∀ p ∈ s.replaced, p ∉ s.live

theorem Dead.kill (h : Dead s) (old : Option Pid) : Dead (s.kill old) := fun p hp hlive => h p hp (mem_kill.1 hlive).1

/-- Whoever finds nobody alive in the entry leaves nobody behind. -/
theorem Dead.step (hs : Inv s) (h : Dead s) (e : Event) (hv : Vacant s e) : Dead (step s e) := by
  cases e with
  | start => exact h
  | code => exact h
  | cancel => exact h
  | exits pid => exact h.kill _
  | turn i ok =>
      unfold Sessions.step
      dsimp only
      split
      · next r hi =>
          cases r with
          | popping rest => exact h
          | killing old rest =>
              cases rest with
              | spawn => exact h.kill old
              | stop => exact h.kill old
          | spawning =>
              intro p hp hlive
              cases hlive with
              | head => exact Nat.lt_irrefl _ (hs.replaced _ hp)
              | tail _ hlive => exact h p hp hlive
          | waiting pid =>
              cases ok with
              | true => exact h
              | false => exact h.kill _
          | registering pid =>
              intro p hp hlive
              cases List.mem_append.1 hp with
              | inl hp => exact hv pid hi p (Option.mem_toList.1 hp) hlive
              | inr hp => exact h p hp hlive
          | getting =>
              unfold State.turn
              dsimp only
              split
              · exact h
              · exact h
          | typing pid =>
              cases ok with
              | true => exact h
              | false => exact h
          | done => exact h
      · exact h

/-- Outside requests the only process is the registered one just when none whose entry was replaced is alive; and
so it is if every start registers over nobody. -/
theorem sole_iff (es : List Event) :
    (Runs.Always step Sole {} es ↔ Runs.Always step Reclaimed {} es) ∧
      (Runs.Meets step Vacant {} es → Runs.Always step Sole {} es) := by
  have hinv : Runs.Always step Inv {} es :=
    Runs.always_of_meets (fun s e hs _ => hs.step e) inv_empty (.of_forall (C := fun _ _ => True) (fun _ _ => trivial) _ es)
  refine ⟨⟨fun h => (hinv.and h).mono fun s hs => hs.1.sole_iff_reclaimed.1 hs.2,
    fun h => (hinv.and h).mono fun s hs => hs.1.sole_iff_reclaimed.2 hs.2⟩, fun h => ?_⟩
  have hdead : Runs.Always step (fun s => Inv s ∧ Dead s) {} es :=
    Runs.always_of_meets (fun s e hs hv => ⟨hs.1.step e, hs.2.step hs.1 e hv⟩) ⟨inv_empty, nofun⟩ h
  exact hdead.mono fun s hs => hs.1.sole_iff_reclaimed.2 fun _ => hs.2

namespace Sample

/-- Two starts, both of which cancel before either registers. -/
def doubled : List Event :=
  [.start, .start, .turn 0 true, .turn 0 true, .turn 1 true, .turn 1 true, .turn 0 true, .turn 1 true, .turn 0 true,
    .turn 1 true, .turn 0 true, .turn 1 true]

end Sample

/-- The process of the first one is alive and registered nowhere. -/
theorem leaked_process : ¬ Runs.Always step Sole {} Sample.doubled := by
  intro h
  have hidle : Idle (Runs.exec step {} Sample.doubled) := by unfold Idle; decide
  have hentry := h.last hidle 0 (by decide)
  exact absurd hentry (by decide)

end Sessions

end Sidecar
