import Apifor.Http.Routes
import Apifor.Lib.Follows
import Apifor.Lib.Runs

/-!
# The rate limit under concurrency

Any number of calls of `allow` that take turns, each an atomic step of its own: a reading of the clock, a
statement, a section under the lock. A call counts itself in the window of the minute it has read; the
limit holds as long as no window is begun a second time.
-/

namespace Apifor

namespace Limiter

open API (rpmForPlan)

variable {o o' : Id} {L : Int}

/-! ## Calls -/

/-- `allow`, with the minute in which the call was counted. -/
def noted (org : Id) : Cmd (Option Int × Bool) := do
  let limit ← API.rpm org
  if limit ≤ 0 then pure (none, true)
  else do
    let unix ← API.unixNow
    let ok ← API.enter org limit (unix / 60)
    pure (some (unix / 60), ok)

theorem allow_eq (org : Id) : API.allow org = (noted org).bind fun x => .done x.2 := by
  unfold API.allow noted
  rw [Prog.bind_def, Prog.bind_def, Prog.bind_assoc]
  refine congrArg (Prog.bind (API.rpm org)) (funext fun limit => ?_)
  split
  · rfl
  · rfl

/-- The plan that a call finds for an org. -/
def planFor (s : Store) (o : Id) : OrgPlan := (DB.planOf s o).getD .free

/-- How far a call has come. -/
inductive Stage
  | asks
  | planned (p : OrgPlan)
  | limited (n : Int)
  | counted (n minute : Int)
  | answered (x : Option Int × Bool)

def stored (w : World) (o : Id) (c : PlanCache) : World :=
  { w with http := { w.http with plan := Function.update w.http.plan o (some c) } }

def entered (w : World) (o : Id) (minute : Int) : World :=
  { w with http := { w.http with win := Function.update w.http.win o (some (API.hit o minute w.http)) } }

/-- What a step of a call does. -/
inductive Move (o : Id) (w : World) : World → Stage → Stage → Prop
  | pass : Move o w w .asks .asks
  | cached (c : PlanCache) (h : w.http.plan o = some c) : Move o w w .asks (.limited c.rpm)
  | planned : Move o w w .asks (.planned (planFor w.db o))
  | stored (p : OrgPlan) (c : PlanCache) (h : c.rpm = rpmForPlan p) :
      Move o w (stored w o c) (.planned p) (.limited c.rpm)
  | counted (n : Int) : Move o w w (.limited n) (.counted n (w.now / second / 60))
  | entered (n m : Int) :
      Move o w (entered w o m) (.counted n m) (.answered (some m, decide ((API.hit o m w.http).count ≤ n)))

/-- Where a call ends, and with which answer. -/
inductive Ends : Stage → Option Int × Bool → Prop
  | unlimited (n : Int) (h : n ≤ 0) : Ends (.limited n) (none, true)
  | answered (x : Option Int × Bool) : Ends (.answered x) x

/-- The program is a call for the org that has come to the stage. -/
abbrev Call (o : Id) : Stage → Cmd (Option Int × Bool) → Prop :=
  Prog.Follows (fun _ => false) (fun w w' c _ c' => Move o w w' c c') Ends

theorem Move.of_cached {w : World} {unix : Int} {n : Int} (h : API.cachedRpm o unix w.http = some n) :
    Move o w w .asks (.limited n) := by
  obtain ⟨c, hc, hn⟩ := Option.bind_eq_some_iff.1 h
  split_ifs at hn
  cases hn
  exact .cached c hc

theorem settle_query {α : Type} (f : Time → Store → Except DbErr α) (w : World) :
    Prog.settle (fun w : World => (f w.now w.db).map fun a => (w, a)) w = (w, f w.now w.db) := by
  simp only [Prog.settle]
  cases f w.now w.db <;> rfl

theorem call_getOrgPlan (o : Id) :
    Prog.Follows (fun _ => false) (fun w w' c _ c' => Move o w w' c c') (fun c p => c = .planned p) .asks
      (API.getOrgPlan o) := by
  have hquery := settle_query fun _ s => row (DB.planOf s o)
  refine .stmt (fun w => .planned (planFor w.db o)) (fun w _ => ?_) fun w _ => ?_
  · rw [hquery]
    exact .planned
  · rw [hquery]
    unfold planFor
    cases DB.planOf w.db o with
    | none => exact .done rfl
    | some p => exact .done rfl

/-- Up to the limit. -/
theorem call_rpm (o : Id) :
    Prog.Follows (fun _ => false) (fun w w' c _ c' => Move o w w' c c') (fun c n => c = .limited n) .asks (API.rpm o) := by
  refine .act (fun _ => .asks) (fun w => .pass) fun w => ?_
  refine .act (fun v => (API.cachedRpm o (w.now / second) v.http).elim .asks .limited) (fun v => ?_) fun v => ?_
  · cases hc : API.cachedRpm o (w.now / second) v.http with
    | none => exact .pass
    | some n => exact .of_cached hc
  · dsimp only [Prog.bind]
    cases hc : API.cachedRpm o (w.now / second) v.http with
    | none =>
        refine (call_getOrgPlan o).bind fun c p hp => ?_
        subst hp
        exact .act (fun _ => .limited (rpmForPlan p)) (fun u => .stored p _ rfl) fun u => .done rfl
    | some n => exact .done rfl

theorem call_noted (o : Id) : Call o .asks (noted o) := by
  refine (call_rpm o).bind fun c n hc => ?_
  subst hc
  split
  · next hn => exact .done (.unlimited n hn)
  · refine .act (fun w => .counted n (w.now / second / 60)) (fun w => .counted n) fun w => ?_
    refine .act (fun v => .answered (some (w.now / second / 60), decide ((API.hit o (w.now / second / 60) v.http).count ≤ n)))
      (fun v => .entered n _) fun v => .done (.answered _)

/-! ## Runs -/

/-- The calls in progress and the answers of those that have ended, both by org. -/
structure Traffic where
  world : World
  calls : Id → List (Cmd (Option Int × Bool))
  answers : Id → List (Option Int × Bool)

def Traffic.start (w : World) : Traffic := ⟨w, fun _ => [], fun _ => []⟩

inductive Event
  | tick (d : Nat)
  | call (org : Id)
  | turn (org : Id) (i : Nat)

/-- A step of a call; a call that ends leaves its answer. -/
def advance (t : Traffic) (o : Id) (i : Nat) (p : Cmd (Option Int × Bool)) : Traffic :=
  match (p.tick t.world).2.result? with
  | none =>
      { t with world := (p.tick t.world).1, calls := Function.update t.calls o ((t.calls o).set i (p.tick t.world).2) }
  | some x =>
      { world := (p.tick t.world).1
        calls := Function.update t.calls o ((t.calls o).eraseIdx i)
        answers := Function.update t.answers o (t.answers o ++ [x]) }

def step (t : Traffic) : Event → Traffic
  | .tick d => { t with world := { t.world with now := t.world.now + d } }
  | .call o => { t with calls := Function.update t.calls o (t.calls o ++ [noted o]) }
  | .turn o i =>
      match (t.calls o)[i]? with
      | some p => advance t o i p
      | none => t

/-- The event is one of the org, or of the clock. -/
def Event.concerns (o : Id) : Event → Bool
  | .tick _ => true
  | .call o' => decide (o' = o)
  | .turn o' _ => decide (o' = o)

/-! ## Calls in progress -/

/-- What the calls of an org see of a world. -/
structure SameFor (o : Id) (w w' : World) : Prop where
  now : w'.now = w.now
  org : DB.planOf w'.db o = DB.planOf w.db o
  win : w'.http.win o = w.http.win o
  plan : w'.http.plan o = w.http.plan o

theorem SameFor.refl (o : Id) (w : World) : SameFor o w w := ⟨rfl, rfl, rfl, rfl⟩

theorem SameFor.trans {w w' w'' : World} (h : SameFor o w w') (h' : SameFor o w' w'') : SameFor o w w'' :=
  ⟨h'.now.trans h.now, h'.org.trans h.org, h'.win.trans h.win, h'.plan.trans h.plan⟩

theorem SameFor.symm {w w' : World} (h : SameFor o w w') : SameFor o w' w :=
  ⟨h.now.symm, h.org.symm, h.win.symm, h.plan.symm⟩

/-- The calls of another org change nothing of it. -/
theorem Move.other {w w' : World} {c c' : Stage} (h : Move o' w w' c c') (hne : o ≠ o') : SameFor o w w' := by
  cases h with
  | stored p c _ => exact ⟨rfl, rfl, rfl, Function.update_of_ne hne _ _⟩
  | entered n m => exact ⟨rfl, rfl, Function.update_of_ne hne _ _, rfl⟩
  | _ => exact SameFor.refl o w

theorem sees_unixNow (o : Id) : Prog.Sees (SameFor o) API.unixNow :=
  .lift fun w w' h => ⟨by rw [h.now], h⟩

theorem SameFor.hit {w w' : World} (h : SameFor o w w') (m : Int) : API.hit o m w'.http = API.hit o m w.http := by
  unfold API.hit
  rw [h.win]

theorem stored_plan (w : World) (o : Id) (c : PlanCache) : (stored w o c).http.plan o = some c := by
  dsimp only [stored]
  rw [Function.update_self]

theorem entered_win (w : World) (o : Id) (m : Int) : (entered w o m).http.win o = some (API.hit o m w.http) := by
  dsimp only [entered]
  rw [Function.update_self]

theorem SameFor.stored {w w' : World} (h : SameFor o w w') (c : PlanCache) :
    SameFor o (stored w o c) (stored w' o c) :=
  ⟨h.now, h.org, h.win, by rw [stored_plan, stored_plan]⟩

theorem SameFor.entered {w w' : World} (h : SameFor o w w') (m : Int) : SameFor o (entered w o m) (entered w' o m) :=
  ⟨h.now, h.org, by rw [entered_win, entered_win, h.hit], h.plan⟩

theorem sees_noted (o : Id) : Prog.Sees (SameFor o) (noted o) := by
  refine Prog.Sees.bind ?_ fun limit => ?_
  · refine (sees_unixNow o).bind fun unix => Prog.Sees.bind (.lift fun w w' h => ⟨?_, h⟩) fun c => ?_
    · change API.cachedRpm o unix w.http = API.cachedRpm o unix w'.http
      unfold API.cachedRpm
      rw [h.plan]
    · cases c with
      | some n => exact .done n
      | none =>
          refine Prog.Sees.bind ?_ fun p => .lift fun w w' h => ⟨rfl, h.stored _⟩
          refine .stmt (fun w w' h => ?_) fun x => ?_
          · have hquery := settle_query fun _ s => row (DB.planOf s o)
            rw [hquery, hquery, h.org]
            exact ⟨rfl, h⟩
          · cases x <;> exact .done _
  · split
    · exact .done _
    · refine (sees_unixNow o).bind fun unix => Prog.Sees.bind (.lift fun w w' h => ⟨?_, h.entered _⟩)
        fun ok => .done _
      change decide ((API.hit o (unix / 60) w.http).count ≤ limit) =
        decide ((API.hit o (unix / 60) w'.http).count ≤ limit)
      rw [h.hit]

/-- A call that has not ended. -/
structure Running (o : Id) (p : Cmd (Option Int × Bool)) : Prop where
  call : ∃ c, Call o c p
  sees : Prog.Sees (SameFor o) p
  going : p.result? = none

/-- All calls in progress are calls of their orgs. -/
def Proper (t : Traffic) : Prop := ∀ o p, p ∈ t.calls o → Running o p

variable {t t' : Traffic} {e : Event} {c : Stage} {p : Cmd (Option Int × Bool)}

theorem Running.tick (h : Running o p) (hc : Call o c p) (w : World) :
    ∃ c', Move o w (p.tick w).1 c c' ∧ Call o c' (p.tick w).2 := by
  cases hc with
  | done hq => cases h.going
  | crash => cases h.sees
  | act next hm hk => exact ⟨next w, hm w, hk w⟩
  | stmt next hm hk => exact ⟨next w, hm w (Prog.executes_of_none_lost _ w), hk w (Prog.executes_of_none_lost _ w)⟩

theorem Move.not_answered {w w' : World} {x : Option Int × Bool} (h : Move o w w' (.answered x) c) : False := by
  cases h

/-- A call that has entered the window is over. -/
theorem Call.answered {x : Option Int × Bool} (h : Call o (.answered x) p) (hs : Prog.Sees (SameFor o) p) (w : World) :
    p.result? = some x := by
  cases h with
  | done hq => cases hq; rfl
  | crash => cases hs
  | act next hm _ => exact (hm w).not_answered.elim
  | stmt next hm _ => exact (hm w (Prog.executes_of_none_lost _ w)).not_answered.elim

/-- A turn of a call: on to the next stage, or to its answer. -/
theorem Running.turn (h : Running o p) (hc : Call o c p) (w : World) :
    (∃ c', Move o w (p.tick w).1 c c' ∧ Call o c' (p.tick w).2 ∧ Running o (p.tick w).2) ∨
      ∃ c' x, Move o w (p.tick w).1 c c' ∧ Ends c' x ∧ (p.tick w).2.result? = some x := by
  obtain ⟨c', hmove, hnext⟩ := h.tick hc w
  obtain ⟨-, -, hsees⟩ := h.sees.tick (SameFor.refl o w)
  cases hres : (p.tick w).2.result? with
  | none => exact .inl ⟨c', hmove, hnext, ⟨c', hnext⟩, hsees, hres⟩
  | some x =>
      refine .inr ⟨c', x, hmove, ?_, rfl⟩
      cases hp : (p.tick w).2 with
      | done a =>
          rw [hp] at hres hnext
          cases hres
          cases hnext with
          | done hq => exact hq
      | crash => rw [hp] at hres; cases hres
      | act f k => rw [hp] at hres; cases hres
      | stmt n f k => rw [hp] at hres; cases hres

/-- What a turn of a call makes of the traffic. -/
theorem turn_cases (hproper : Proper t) {i : Nat} (hi : (t.calls o)[i]? = some p) (hc : Call o c p) :
    ∃ w' c', Move o t.world w' c c' ∧
      ((∃ p', Call o c' p' ∧ Running o p' ∧ step t (.turn o i) =
          { t with world := w', calls := Function.update t.calls o ((t.calls o).set i p') }) ∨
        ∃ x, Ends c' x ∧ (p.tick t.world).2.result? = some x ∧ step t (.turn o i) =
          { world := w', calls := Function.update t.calls o ((t.calls o).eraseIdx i),
            answers := Function.update t.answers o (t.answers o ++ [x]) }) := by
  have hrun := hproper o p (List.mem_of_getElem? hi)
  have hstep : step t (.turn o i) = advance t o i p := by simp only [step, hi]
  obtain ⟨c', hmove, hnext, hrun'⟩ | ⟨c', x, hmove, hends, hx⟩ := hrun.turn hc t.world
  · refine ⟨_, c', hmove, .inl ⟨_, hnext, hrun', ?_⟩⟩
    rw [hstep, advance, hrun'.going]
  · refine ⟨_, c', hmove, .inr ⟨x, hends, hx, ?_⟩⟩
    rw [hstep, advance, hx]

theorem running_noted (o : Id) : Running o (noted o) := ⟨⟨.asks, call_noted o⟩, sees_noted o, rfl⟩

theorem mem_update {α : Type*} {f : Id → List α} {l : List α} {a : α} (h : a ∈ Function.update f o' l o) :
    (o = o' ∧ a ∈ l) ∨ a ∈ f o := by
  by_cases ho : o = o'
  · subst ho
    rw [Function.update_self] at h
    exact .inl ⟨rfl, h⟩
  · rw [Function.update_of_ne ho] at h
    exact .inr h

theorem proper_step (h : Proper t) (e : Event) : Proper (step t e) := by
  cases e with
  | tick d => exact h
  | call o' =>
      intro o p hp
      obtain ⟨rfl, hp⟩ | hp := mem_update hp
      · cases List.mem_append.1 hp with
        | inl hp => exact h o p hp
        | inr hp => rw [List.mem_singleton.1 hp]; exact running_noted o
      · exact h o p hp
  | turn o' i =>
      cases hi : (t.calls o')[i]? with
      | none => simpa only [step, hi] using h
      | some q =>
          obtain ⟨c, hc⟩ := (h o' q (List.mem_of_getElem? hi)).call
          obtain ⟨w', c', -, ⟨p', -, hrun, heq⟩ | ⟨x, -, -, heq⟩⟩ := turn_cases h hi hc
          · rw [heq]
            intro o p hp
            obtain ⟨rfl, hp⟩ | hp := mem_update hp
            · exact (List.mem_or_eq_of_mem_set hp).elim (h o p) fun hp => hp ▸ hrun
            · exact h o p hp
          · rw [heq]
            intro o p hp
            obtain ⟨rfl, hp⟩ | hp := mem_update hp
            · exact h o p (List.mem_of_mem_eraseIdx hp)
            · exact h o p hp

/-- A turn of another org's call changes nothing of the org. -/
theorem turn_other (h : Proper t) (hne : o ≠ o') (i : Nat) :
    SameFor o t.world (step t (.turn o' i)).world ∧ (step t (.turn o' i)).calls o = t.calls o ∧
      (step t (.turn o' i)).answers o = t.answers o := by
  cases hi : (t.calls o')[i]? with
  | none =>
      rw [show step t (.turn o' i) = t by simp only [step, hi]]
      exact ⟨SameFor.refl o _, rfl, rfl⟩
  | some q =>
      obtain ⟨c, hc⟩ := (h o' q (List.mem_of_getElem? hi)).call
      obtain ⟨w', c', hmove, ⟨p', -, -, heq⟩ | ⟨x, -, -, heq⟩⟩ := turn_cases h hi hc
      · rw [heq]
        exact ⟨hmove.other hne, Function.update_of_ne hne _ _, rfl⟩
      · rw [heq]
        exact ⟨hmove.other hne, Function.update_of_ne hne _ _, Function.update_of_ne hne _ _⟩

/-! ## The bound -/

/-- The limit of an org is `L`, in its plan and in the cache. -/
structure Ready (o : Id) (L : Int) (w : World) : Prop where
  plan : rpmForPlan (planFor w.db o) = L
  cached : ∀ c, w.http.plan o = some c → c.rpm = L
  window : ∀ c, w.http.win o = some c → 0 ≤ c.count

/-- The call has found the limit `L`, if any. -/
def Stage.Sound (L : Int) : Stage → Prop
  | .asks => True
  | .planned p => rpmForPlan p = L
  | .limited n => n = L
  | .counted n _ => n = L
  | .answered _ => True

theorem Ready.of_same {w w' : World} (h : Ready o L w) (hs : SameFor o w w') : Ready o L w' where
  plan := by rw [planFor, hs.org]; exact h.plan
  cached := by rw [hs.plan]; exact h.cached
  window := by rw [hs.win]; exact h.window

theorem hit_minute (o : Id) (m : Int) (k : HttpMemory) : (API.hit o m k).minute = m := by
  unfold API.hit
  split
  · split
    · assumption
    · rfl
  · rfl

theorem hit_count (o : Id) (m : Int) (k : HttpMemory) :
    (∃ c, k.win o = some c ∧ c.minute = m ∧ (API.hit o m k).count = c.count + 1) ∨
      (∀ c, k.win o = some c → c.minute ≠ m) ∧ (API.hit o m k).count = 1 := by
  unfold API.hit
  split
  · next c hc =>
      split
      · next hm => exact .inl ⟨c, hc, hm, rfl⟩
      · next hm => exact .inr ⟨fun c' hc' => Option.some.inj (hc.symm.trans hc') ▸ hm, rfl⟩
  · next hc => exact .inr ⟨fun c' hc' => (Option.some_ne_none c' (hc'.symm.trans hc)).elim, rfl⟩

theorem Ready.move {w w' : World} {c' : Stage} (h : Ready o L w) (hm : Move o w w' c c') (hc : c.Sound L) :
    Ready o L w' ∧ c'.Sound L := by
  cases hm with
  | pass => exact ⟨h, trivial⟩
  | cached e he => exact ⟨h, h.cached e he⟩
  | planned => exact ⟨h, h.plan⟩
  | stored p e he =>
      refine ⟨⟨h.plan, fun e' he' => ?_, h.window⟩, he.trans hc⟩
      rw [stored_plan] at he'
      cases he'
      exact he.trans hc
  | counted n => exact ⟨h, hc⟩
  | entered n m =>
      refine ⟨⟨h.plan, h.cached, fun e he => ?_⟩, trivial⟩
      rw [entered_win] at he
      cases he
      obtain ⟨e, hwin, -, hcount⟩ | ⟨-, hcount⟩ := hit_count o m w.http
      · have := h.window e hwin
        omega
      · omega

/-- The calls of a minute that were let pass. -/
def granted (m : Int) (answers : List (Option Int × Bool)) : Nat := answers.count (some m, true)

/-- At most `L` calls of a minute were let pass, and every call was counted in a minute. -/
structure AtMost (o : Id) (L : Int) (t : Traffic) : Prop where
  counted : ∀ x ∈ t.answers o, x.1.isSome
  bound : ∀ m, granted m (t.answers o) ≤ L

/-- The minute under which a turn counts its call. -/
def counting (t : Traffic) (o : Id) (i : Nat) : Option Int :=
  ((t.calls o)[i]?.bind fun p => (p.tick t.world).2.result?).bind fun x => x.1

/-- The minute's window is there, or no call has been counted in the minute. -/
def Fresh (o : Id) (t : Traffic) (m : Int) : Prop :=
  (∃ c ∈ t.world.http.win o, c.minute = m) ∨ ∀ x ∈ t.answers o, x.1 ≠ some m

/-- No turn begins the window of a minute a second time. -/
def Unbroken (o : Id) (t : Traffic) : Event → Prop
  | .turn o' i => o' = o → ∀ m ∈ counting t o i, Fresh o t m
  | _ => True

instance (o : Id) (t : Traffic) (m : Int) : Decidable (Fresh o t m) := inferInstanceAs (Decidable (_ ∨ _))

instance (o : Id) (t : Traffic) : ∀ e, Decidable (Unbroken o t e)
  | .turn o' i => inferInstanceAs (Decidable (o' = o → ∀ m ∈ counting t o i, Fresh o t m))
  | .tick _ => .isTrue trivial
  | .call _ => .isTrue trivial

/-- The invariant. -/
structure Kept (o : Id) (L : Int) (t : Traffic) : Prop where
  proper : Proper t
  ready : Ready o L t.world
  calls : ∀ p ∈ t.calls o, ∃ c, Call o c p ∧ c.Sound L
  answers : AtMost o L t
  window : ∀ c, t.world.http.win o = some c → granted c.minute (t.answers o) ≤ c.count

theorem granted_append (m : Int) (answers : List (Option Int × Bool)) (x : Option Int × Bool) :
    granted m (answers ++ [x]) = granted m answers + if x = (some m, true) then 1 else 0 := by
  unfold granted
  rw [List.count_append, List.count_singleton]
  congr 1
  by_cases hx : x = (some m, true) <;> simp [hx]

theorem granted_eq_zero {m : Int} {answers : List (Option Int × Bool)} (h : ∀ x ∈ answers, x.1 ≠ some m) :
    granted m answers = 0 := List.count_eq_zero.2 fun hx => h _ hx rfl

/-- The window counts the call beside all that were let pass in its minute. -/
theorem Kept.room (h : Kept o L t) {m : Int} (hu : Fresh o t m) :
    (granted m (t.answers o) : Int) + 1 ≤ (API.hit o m t.world.http).count := by
  obtain ⟨c, hwin, hmin, hcount⟩ | ⟨hmin, hcount⟩ := hit_count o m t.world.http
  · have := h.window c hwin
    rw [hmin] at this
    omega
  · have hfresh : ∀ x ∈ t.answers o, x.1 ≠ some m := hu.resolve_left fun ⟨c, hc, hm⟩ => hmin c hc hm
    rw [granted_eq_zero hfresh]
    omega

theorem Move.win {w w' : World} {c' : Stage} (h : Move o w w' c c') :
    (w'.http.win o = w.http.win o ∧ ∀ x, c' ≠ .answered x) ∨ ∃ n m, c = .counted n m ∧ w' = Limiter.entered w o m ∧
      c' = .answered (some m, decide ((API.hit o m w.http).count ≤ n)) := by
  cases h with
  | entered n m => exact .inr ⟨n, m, rfl, rfl, rfl⟩
  | _ => exact .inl ⟨rfl, fun x hx => Stage.noConfusion hx⟩

/-- A call of the org is counted. -/
theorem Kept.count (h : Kept o L t) {m : Int} (calls : Id → List (Cmd (Option Int × Bool)))
    (hproper : Proper ⟨entered t.world o m, calls, t.answers⟩)
    (hcalls : ∀ p ∈ calls o, ∃ c, Call o c p ∧ c.Sound L) (hready : Ready o L (entered t.world o m))
    (hu : Fresh o t m) :
    Kept o L ⟨entered t.world o m, calls, Function.update t.answers o
      (t.answers o ++ [(some m, decide ((API.hit o m t.world.http).count ≤ L))])⟩ := by
  have hroom := h.room hu
  refine ⟨hproper, hready, hcalls, ⟨fun x hx => ?_, fun m' => ?_⟩, fun c hc => ?_⟩
  · obtain ⟨-, hx⟩ | hx := mem_update hx
    · cases List.mem_append.1 hx with
      | inl hx => exact h.answers.counted x hx
      | inr hx => rw [List.mem_singleton.1 hx]; rfl
    · exact h.answers.counted x hx
  · have hbound := h.answers.bound m'
    dsimp only
    rw [Function.update_self, granted_append]
    split
    · next hx =>
        obtain ⟨hm, hok⟩ := Prod.mk.inj hx
        cases hm
        have := of_decide_eq_true hok
        push_cast
        omega
    · push_cast
      omega
  · dsimp only at hc ⊢
    rw [entered_win] at hc
    cases hc
    rw [Function.update_self, granted_append, hit_minute]
    split
    · push_cast
      omega
    · push_cast
      omega

theorem Kept.turn (hL : 0 < L) (h : Kept o L t) (i : Nat) (hu : Unbroken o t (.turn o i)) :
    Kept o L (step t (.turn o i)) := by
  cases hi : (t.calls o)[i]? with
  | none => simpa only [step, hi] using h
  | some p =>
      have hproper := proper_step h.proper (.turn o i)
      obtain ⟨c, hc, hsound⟩ := h.calls p (List.mem_of_getElem? hi)
      obtain ⟨w', c', hmove, hnext⟩ := turn_cases h.proper hi hc
      obtain ⟨hready, hsound'⟩ := h.ready.move hmove hsound
      obtain ⟨p', hp', hrun, heq⟩ | ⟨x, hends, hx, heq⟩ := hnext
      · rw [heq] at hproper ⊢
        obtain ⟨hwin, -⟩ | ⟨n, m, -, -, rfl⟩ := hmove.win
        · refine ⟨hproper, hready, fun q hq => ?_, ⟨h.answers.counted, h.answers.bound⟩, by rw [hwin]; exact h.window⟩
          obtain ⟨-, hq⟩ | hq := mem_update hq
          · cases List.mem_or_eq_of_mem_set hq with
            | inl hq => exact h.calls q hq
            | inr hq => rw [hq]; exact ⟨c', hp', hsound'⟩
          · exact h.calls q hq
        · have := hp'.answered hrun.sees t.world
          rw [hrun.going] at this
          cases this
      · rw [heq] at hproper ⊢
        have hcalls : ∀ q ∈ Function.update t.calls o ((t.calls o).eraseIdx i) o, ∃ c, Call o c q ∧ c.Sound L := by
          intro q hq
          obtain ⟨-, hq⟩ | hq := mem_update hq
          · exact h.calls q (List.mem_of_mem_eraseIdx hq)
          · exact h.calls q hq
        cases hends with
        | unlimited n hn =>
            have : n = L := hsound'
            omega
        | answered x =>
            obtain ⟨-, hno⟩ | ⟨n, m, rfl, rfl, hans⟩ := hmove.win
            · exact (hno x rfl).elim
            · cases hans
              cases (hsound : n = L)
              refine h.count _ hproper hcalls hready (hu rfl m ?_)
              rw [counting, hi, Option.bind_some, hx]
              rfl

theorem Kept.step (hL : 0 < L) (h : Kept o L t) (e : Event) (hu : Unbroken o t e) : Kept o L (step t e) := by
  cases e with
  | tick d =>
      exact ⟨h.proper, ⟨h.ready.plan, h.ready.cached, h.ready.window⟩, h.calls,
        ⟨h.answers.counted, h.answers.bound⟩, h.window⟩
  | call o' =>
      refine ⟨proper_step h.proper _, h.ready, fun p hp => ?_, ⟨h.answers.counted, h.answers.bound⟩, h.window⟩
      obtain ⟨rfl, hp⟩ | hp := mem_update hp
      · cases List.mem_append.1 hp with
        | inl hp => exact h.calls p hp
        | inr hp => rw [List.mem_singleton.1 hp]; exact ⟨.asks, call_noted o, trivial⟩
      · exact h.calls p hp
  | turn o' i =>
      by_cases ho : o = o'
      · subst ho
        exact h.turn hL i hu
      · obtain ⟨hs, hcalls, hanswers⟩ := turn_other h.proper ho i
        refine ⟨proper_step h.proper _, h.ready.of_same hs, ?_, ⟨?_, ?_⟩, ?_⟩
        · rw [hcalls]; exact h.calls
        · rw [hanswers]; exact h.answers.counted
        · rw [hanswers]; exact h.answers.bound
        · rw [hanswers, hs.win]; exact h.window

/-! ## Other orgs -/

/-- The org has the same in both. -/
structure Alike (o : Id) (t t' : Traffic) : Prop where
  proper : Proper t
  proper' : Proper t'
  world : SameFor o t.world t'.world
  calls : t'.calls o = t.calls o
  answers : t'.answers o = t.answers o

/-- Events of others are passed over. -/
theorem Alike.skip (h : Alike o t t') (e : Event) (he : e.concerns o = false) : Alike o (step t e) t' := by
  cases e with
  | tick d => cases he
  | call o' =>
      have hne : o ≠ o' := fun ho => of_decide_eq_false he ho.symm
      exact ⟨proper_step h.proper _, h.proper', h.world, h.calls.trans (Function.update_of_ne hne _ _).symm, h.answers⟩
  | turn o' i =>
      have hne : o ≠ o' := fun ho => of_decide_eq_false he ho.symm
      obtain ⟨hworld, hcalls, hanswers⟩ := turn_other h.proper hne i
      exact ⟨proper_step h.proper _, h.proper', hworld.symm.trans h.world, h.calls.trans hcalls.symm,
        h.answers.trans hanswers.symm⟩

theorem Alike.both (h : Alike o t t') (e : Event) (he : e.concerns o = true) : Alike o (step t e) (step t' e) := by
  have hproper := proper_step h.proper e
  have hproper' := proper_step h.proper' e
  cases e with
  | tick d =>
      exact ⟨hproper, hproper', ⟨congrArg (· + (d : Int)) h.world.now, h.world.org, h.world.win, h.world.plan⟩, h.calls,
        h.answers⟩
  | call o' =>
      cases of_decide_eq_true he
      refine ⟨hproper, hproper', h.world, ?_, h.answers⟩
      dsimp only [step]
      rw [Function.update_self, Function.update_self, h.calls]
  | turn o' i =>
      cases of_decide_eq_true he
      cases hi : (t.calls o)[i]? with
      | none => simpa only [step, hi, h.calls] using h
      | some p =>
          obtain ⟨hrest, hworld, -⟩ := (h.proper o p (List.mem_of_getElem? hi)).sees.tick h.world
          have hstep : step t (.turn o i) = advance t o i p := by simp only [step, hi]
          have hstep' : step t' (.turn o i) = advance t' o i p := by simp only [step, h.calls, hi]
          refine ⟨hproper, hproper', ?_, ?_, ?_⟩
          all_goals
            rw [hstep, hstep']
            unfold advance
            rw [← hrest]
            cases (p.tick t.world).2.result? with
            | none => first | exact hworld | simp [h.calls, h.answers]
            | some x => first | exact hworld | simp [h.calls, h.answers]

theorem proper_start (w : World) : Proper (Traffic.start w) := fun _ _ hp => by cases hp

/-- As long as no window is begun a second time, at most `L` calls of a minute are let pass; and the answers of an
org do not depend on the calls of others. -/
theorem bounded_of_unbroken {w : World} (hL : 0 < L) (h : Ready o L w) :
    (∀ es, Runs.Meets step (Unbroken o) (Traffic.start w) es → Runs.Always step (AtMost o L) (Traffic.start w) es) ∧
      ∀ es es', es.filter (Event.concerns o) = es'.filter (Event.concerns o) →
        (Runs.exec step (Traffic.start w) es).answers o = (Runs.exec step (Traffic.start w) es').answers o := by
  have hproper := proper_start w
  constructor
  · intro es hes
    have hstart : Kept o L (Traffic.start w) :=
      ⟨hproper, h, nofun, ⟨nofun, fun m => Int.le_of_lt hL⟩, h.window⟩
    exact (Runs.always_of_meets (P := Kept o L) (fun t e ht hu => ht.step hL e hu) hstart hes).mono fun t ht => ht.answers
  · intro es es' heq
    have hsame : Alike o (Traffic.start w) (Traffic.start w) := ⟨hproper, hproper, SameFor.refl o w, rfl, rfl⟩
    have hrel := fun es => Runs.exec_filter (R := Alike o) (c := Event.concerns o)
      (fun t t' e he h => Alike.skip h e he) (fun t t' e he h => Alike.both h e he) es hsame
    rw [← (hrel es).answers, ← (hrel es').answers, heq]

namespace Sample

/-- A free org, a second before the next minute. -/
def lastSecond : World :=
  { now := 59 * second, db := Store.ofRows [⟨.org, { id := "org_a", name := "A", ownerUserId := "usr_a" }⟩] }

/-- A call made without interruption, beside one that waits. -/
def quick : List Event := [.call "org_a", .turn "org_a" 1, .turn "org_a" 1, .turn "org_a" 1, .turn "org_a" 1]

/-- A call that has read the first minute waits while the minute is used up and the next one begins. -/
def waiting (n : Nat) : List Event :=
  [.call "org_a", .turn "org_a" 0, .turn "org_a" 0, .turn "org_a" 0, .turn "org_a" 0, .turn "org_a" 0] ++
    (List.replicate n quick).flatten ++ [.tick 1000000000] ++ quick ++ [.turn "org_a" 0]

/-- A call, and another in the next minute. -/
def inTurn : List Event :=
  [.call "org_a", .turn "org_a" 0, .turn "org_a" 0, .turn "org_a" 0, .turn "org_a" 0, .turn "org_a" 0, .turn "org_a" 0,
    .tick 1000000000, .call "org_a", .turn "org_a" 0, .turn "org_a" 0, .turn "org_a" 0, .turn "org_a" 0]

end Sample

theorem ready_lastSecond : Ready "org_a" 240 Sample.lastSecond where
  plan := by decide +kernel
  cached := nofun
  window := nofun

set_option maxRecDepth 20000 in
/-- A call that comes to the lock a minute late gives its minute a second window. -/
theorem delayed_call : Ready "org_a" 240 Sample.lastSecond ∧
    ¬ Runs.Always step (AtMost "org_a" 240) (Traffic.start Sample.lastSecond) (Sample.waiting 240) := by
  refine ⟨ready_lastSecond, fun h => ?_⟩
  have hbound := h.last.bound 0
  have hgranted : granted 0 ((Runs.exec step (Traffic.start Sample.lastSecond) (Sample.waiting 240)).answers "org_a") =
      241 := by decide +kernel
  omega

theorem bounded_of_unbroken_sample :
    Runs.Always step (AtMost "org_a" 240) (Traffic.start Sample.lastSecond) Sample.inTurn :=
  (bounded_of_unbroken (by decide) ready_lastSecond).1 Sample.inTurn (by decide +kernel)

end Limiter

end Apifor
