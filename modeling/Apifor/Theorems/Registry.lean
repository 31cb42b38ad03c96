import Apifor.Lemmas.Reaping
import Apifor.Lib.Runs

/-!
# The registry of the streams

A channel of the hub is closed by the stream that takes its place or by its own stream at its end. The entry of an
org is the channel of a stream that has not unregistered, and no channel is closed twice.
-/

namespace Apifor

namespace Registry

variable {ι : Type*} {org : ι → Id} {h : Hub} {o o' : Id} {n m : Nat}

/-! ## Calls -/

inductive Phase
  | fresh
  | registered (out : Nat)
  | gone

/-- The hub, where each stream is, and the channels closed so far. -/
structure State (ι : Type*) where
  hub : Hub := {}
  phase : ι → Phase := fun _ => .fresh
  closings : List (Id × Nat) := []

inductive Call (ι : Type*)
  | register (i : ι)
  | unregister (i : ι)

/-- The channel that `register` closes. -/
def replaced (h : Hub) (o : Id) : List (Id × Nat) := (h.byOrg o).toList.map (o, ·)

/-- The channel that `unregister` closes. -/
def ended (h : Hub) (o : Id) (out : Nat) : List (Id × Nat) := if h.byOrg o = some out then [(o, out)] else []

/-! ## Channels -/

def Made (h : Hub) (o : Id) (n : Nat) : Prop := n < (h.chans o).length

def Closed (h : Hub) (o : Id) (n : Nat) : Prop := (h.chan o n).closed = true

theorem made_close : Made (h.close o n) o' m ↔ Made h o' m := by rw [Made, Made, Hub.close, Hub.length_setChan]

theorem closed_close (hn : Made h o n) : Closed (h.close o n) o' m ↔ (o' = o ∧ m = n) ∨ Closed h o' m := by
  unfold Closed Hub.close
  rw [Hub.chan_setChan hn]
  split_ifs with heq
  · simp [heq]
  · simp [heq]

/-- A channel is made. -/
def push (h : Hub) (o : Id) : Hub :=
  { byOrg := Function.update h.byOrg o (some (h.chans o).length),
    chans := Function.update h.chans o (h.chans o ++ [{}]) }

theorem made_push : Made (push h o) o' m ↔ (o' = o ∧ m = (h.chans o).length) ∨ Made h o' m := by
  unfold Made push
  dsimp only
  by_cases ho : o' = o
  · subst ho
    rw [Function.update_self, List.length_append, List.length_singleton]
    simp only [true_and]
    omega
  · rw [Function.update_of_ne ho]
    simp [ho]

theorem closed_push (hm : Made (push h o) o' m) : Closed (push h o) o' m ↔ Made h o' m ∧ Closed h o' m := by
  unfold Closed Hub.chan push
  by_cases ho : o' = o
  · subst ho
    dsimp only
    rw [Function.update_self]
    obtain ⟨-, rfl⟩ | hm := made_push.1 hm
    · simp [Made]
    · simp [hm, List.getElem?_append_left (show m < (h.chans o').length from hm)]
  · dsimp only
    rw [Function.update_of_ne ho]
    obtain ⟨heq, -⟩ | hm := made_push.1 hm
    · exact (ho heq).elim
    · exact ⟨fun hc => ⟨hm, hc⟩, fun hc => hc.2⟩

/-- The hub without the current channel of an org, if it has one. -/
def shut (h : Hub) (o : Id) : Hub :=
  match h.byOrg o with
  | some old => h.close o old
  | none => h

theorem register_eq (h : Hub) (o : Id) : h.register o = (push (shut h o) o, ((shut h o).chans o).length) := by
  unfold Hub.register shut push
  cases h.byOrg o with
  | none => rfl
  | some old => rfl

/-- What closing a channel keeps. -/
theorem shut_keeps {P : Hub → Prop} (hsame : P h) (hclose : ∀ old, P (h.close o old)) : P (shut h o) := by
  unfold shut
  cases h.byOrg o with
  | none => exact hsame
  | some old => exact hclose old

theorem byOrg_shut (h : Hub) (o : Id) : (shut h o).byOrg = h.byOrg :=
  shut_keeps (P := fun g => g.byOrg = h.byOrg) rfl fun _ => rfl

theorem length_shut (h : Hub) (o : Id) : ((shut h o).chans o').length = (h.chans o').length :=
  shut_keeps (P := fun g => (g.chans o').length = (h.chans o').length) rfl fun _ => Hub.length_setChan

theorem made_shut : Made (shut h o) o' m ↔ Made h o' m := by rw [Made, Made, length_shut]

theorem mem_replaced : (o', m) ∈ replaced h o ↔ o' = o ∧ h.byOrg o = some m := by
  unfold replaced
  cases h.byOrg o with
  | none => simp
  | some old => simp [eq_comm]

theorem mem_ended : (o', m) ∈ ended h o n ↔ h.byOrg o = some n ∧ o' = o ∧ m = n := by
  unfold ended
  split_ifs with hn
  · simp [hn]
  · simp [hn]

theorem closed_shut (hmade : ∀ n, h.byOrg o = some n → Made h o n) :
    Closed (shut h o) o' m ↔ (o', m) ∈ replaced h o ∨ Closed h o' m := by
  rw [mem_replaced]
  unfold shut
  cases hb : h.byOrg o with
  | none => simp
  | some old =>
      rw [closed_close (hmade old hb)]
      simp [eq_comm]

/-- What `register` makes of the entries, the channels and their flags. -/
theorem register_spec (h : Hub) (o : Id) (hmade : ∀ n, h.byOrg o = some n → Made h o n) :
    let r := h.register o
    r.2 = (h.chans o).length ∧ r.1.byOrg = Function.update h.byOrg o (some r.2) ∧
      (∀ o' m, Made r.1 o' m ↔ (o' = o ∧ m = r.2) ∨ Made h o' m) ∧
      ∀ o' m, Made r.1 o' m →
        (Closed r.1 o' m ↔ Made h o' m ∧ ((o', m) ∈ replaced h o ∨ Closed h o' m)) := by
  rw [register_eq]
  refine ⟨length_shut h o, ?_, fun o' m => ?_, fun o' m hm => ?_⟩
  · dsimp only [push]
    rw [byOrg_shut]
  · rw [made_push, made_shut]
  · rw [closed_push hm, made_shut, closed_shut hmade]

/-- What `unregister` makes of them. -/
theorem unregister_spec (h : Hub) (o : Id) {out : Nat} (hmade : Made h o out) :
    let r := h.unregister o out
    (∀ o' n, r.byOrg o' = some n ↔ h.byOrg o' = some n ∧ (o', n) ∉ ended h o out) ∧
      (∀ o' m, Made r o' m ↔ Made h o' m) ∧
      ∀ o' m, Closed r o' m ↔ (o', m) ∈ ended h o out ∨ Closed h o' m := by
  unfold Hub.unregister ended
  dsimp only
  split_ifs with hcur
  · refine ⟨fun o' n => ?_, fun o' m => made_close, fun o' m => ?_⟩
    · by_cases ho : o' = o
      · subst ho
        simp [hcur, eq_comm]
      · simp [ho]
    · rw [List.mem_singleton, Prod.mk.injEq]
      exact closed_close hmade
  · simp

/-! ## The invariant -/

/-- Entries, phases, closings and flags agree. -/
structure Inv (org : ι → Id) (s : State ι) : Prop where
  held : ∀ o n, s.hub.byOrg o = some n → ∃ i, org i = o ∧ s.phase i = .registered n
  unclosed : ∀ o n, s.hub.byOrg o = some n → (o, n) ∉ s.closings
  made : ∀ i n, s.phase i = .registered n → Made s.hub (org i) n
  own : ∀ i j n, s.phase i = .registered n → s.phase j = .registered n → org i = org j → i = j
  once : s.closings.Nodup
  closedMade : ∀ o n, (o, n) ∈ s.closings → Made s.hub o n
  flag : ∀ o n, Made s.hub o n → (Closed s.hub o n ↔ (o, n) ∈ s.closings)

theorem inv_empty : Inv org ({} : State ι) where
  held := nofun
  unclosed := nofun
  made := nofun
  own := nofun
  once := List.nodup_nil
  closedMade := nofun
  flag := fun _ n hn => absurd hn (Nat.not_lt_zero n)

theorem Inv.entry_made {s : State ι} (h : Inv org s) (hn : s.hub.byOrg o = some n) : Made s.hub o n := by
  obtain ⟨i, rfl, hi⟩ := h.held o n hn
  exact h.made i n hi

/-- Every entry is open, no channel was closed twice, and an org without streams has no entry. -/
structure Sound (org : ι → Id) (s : State ι) : Prop where
  entries : ∀ o n, s.hub.byOrg o = some n → Made s.hub o n ∧ ¬ Closed s.hub o n
  closed : ∀ o n, Made s.hub o n → (Closed s.hub o n ↔ (o, n) ∈ s.closings)
  once : s.closings.Nodup
  empty : ∀ o, (∀ i out, org i = o → s.phase i ≠ .registered out) → s.hub.byOrg o = none

theorem Inv.sound {s : State ι} (h : Inv org s) : Sound org s where
  entries := fun o n hn => ⟨h.entry_made hn, fun hc => h.unclosed o n hn ((h.flag o n (h.entry_made hn)).1 hc)⟩
  closed := h.flag
  once := h.once
  empty := fun o hnone => by
    cases hn : s.hub.byOrg o with
    | none => rfl
    | some n =>
        obtain ⟨i, ho, hi⟩ := h.held o n hn
        exact (hnone i n ho hi).elim

/-! ## Steps -/

variable [DecidableEq ι]

/-- A stream registers once, and unregisters once after that. -/
def step (org : ι → Id) (s : State ι) : Call ι → State ι
  | .register i =>
      match s.phase i with
      | .fresh =>
          let r := s.hub.register (org i)
          { hub := r.1, phase := Function.update s.phase i (.registered r.2),
            closings := s.closings ++ replaced s.hub (org i) }
      | _ => s
  | .unregister i =>
      match s.phase i with
      | .registered out =>
          { hub := s.hub.unregister (org i) out, phase := Function.update s.phase i .gone,
            closings := s.closings ++ ended s.hub (org i) out }
      | _ => s

theorem Inv.register {s : State ι} (h : Inv org s) (i : ι) : Inv org (step org s (.register i)) := by
  unfold step
  dsimp only
  split
  · next hfresh =>
      obtain ⟨hout, hby, hmade, hclosed⟩ := register_spec s.hub (org i) fun n hn => h.entry_made hn
      generalize s.hub.register (org i) = r at hout hby hmade hclosed
      have hnew : ¬ Made s.hub (org i) r.2 := by
        rw [hout]
        exact Nat.lt_irrefl _
      have hphase : ∀ j n, Function.update s.phase i (.registered r.2) j = .registered n →
          (j = i ∧ n = r.2) ∨ (j ≠ i ∧ s.phase j = .registered n) := fun j n hj => by
        by_cases hji : j = i
        · subst hji
          rw [Function.update_self] at hj
          cases hj
          exact .inl ⟨rfl, rfl⟩
        · rw [Function.update_of_ne hji] at hj
          exact .inr ⟨hji, hj⟩
      have hentry : ∀ o n, r.1.byOrg o = some n →
          (o = org i ∧ n = r.2) ∨ (o ≠ org i ∧ s.hub.byOrg o = some n) := fun o n hn => by
        rw [hby] at hn
        by_cases ho : o = org i
        · subst ho
          rw [Function.update_self] at hn
          cases hn
          exact .inl ⟨rfl, rfl⟩
        · rw [Function.update_of_ne ho] at hn
          exact .inr ⟨ho, hn⟩
      have hclosing : ∀ o n, (o, n) ∈ s.closings ++ replaced s.hub (org i) → Made s.hub o n := fun o n hmem => by
        cases List.mem_append.1 hmem with
        | inl hmem => exact h.closedMade o n hmem
        | inr hmem =>
            obtain ⟨rfl, hn⟩ := mem_replaced.1 hmem
            exact h.entry_made hn
      refine ⟨fun o n hn => ?_, fun o n hn hmem => ?_, fun j n hj => ?_, fun j k n hj hk horg => ?_, ?_,
        fun o n hmem => (hmade o n).2 (.inr (hclosing o n hmem)), fun o n hn => ?_⟩
      · obtain ⟨rfl, rfl⟩ | ⟨ho, hn⟩ := hentry o n hn
        · exact ⟨i, rfl, Function.update_self ..⟩
        · obtain ⟨j, rfl, hj⟩ := h.held o n hn
          refine ⟨j, rfl, (Function.update_of_ne ?_ _ _).trans hj⟩
          rintro rfl
          exact ho rfl
      · obtain ⟨rfl, rfl⟩ | ⟨ho, hn⟩ := hentry o n hn
        · exact hnew (hclosing _ _ hmem)
        · cases List.mem_append.1 hmem with
          | inl hmem => exact h.unclosed o n hn hmem
          | inr hmem => exact ho (mem_replaced.1 hmem).1
      · obtain ⟨rfl, rfl⟩ | ⟨-, hj⟩ := hphase j n hj
        · exact (hmade _ _).2 (.inl ⟨rfl, rfl⟩)
        · exact (hmade _ _).2 (.inr (h.made j n hj))
      · obtain ⟨rfl, rfl⟩ | ⟨-, hold⟩ := hphase j n hj
        · obtain ⟨rfl, -⟩ | ⟨-, hk⟩ := hphase k _ hk
          · rfl
          · exact (hnew (horg ▸ h.made k _ hk)).elim
        · obtain ⟨rfl, rfl⟩ | ⟨-, hk⟩ := hphase k n hk
          · exact (hnew (horg ▸ h.made j _ hold)).elim
          · exact h.own j k n hold hk horg
      · refine List.nodup_append'.2 ⟨h.once, ?_, fun ⟨o, n⟩ hc hc' => ?_⟩
        · unfold replaced
          cases s.hub.byOrg (org i) with
          | none => exact List.nodup_nil
          | some old => exact List.nodup_singleton _
        · obtain ⟨rfl, hn⟩ := mem_replaced.1 hc'
          exact h.unclosed _ _ hn hc
      · rw [hclosed o n hn, List.mem_append]
        constructor
        · rintro ⟨hm, hc | hc⟩
          · exact .inr hc
          · exact .inl ((h.flag o n hm).1 hc)
        · rintro (hc | hc)
          · exact ⟨h.closedMade o n hc, .inr ((h.flag o n (h.closedMade o n hc)).2 hc)⟩
          · exact ⟨hclosing o n (List.mem_append_right _ hc), .inl hc⟩
  · exact h

theorem Inv.unregister {s : State ι} (h : Inv org s) (i : ι) : Inv org (step org s (.unregister i)) := by
  unfold step
  dsimp only
  split
  · next out hi =>
      have hout := h.made i out hi
      obtain ⟨hby, hmade, hclosed⟩ := unregister_spec s.hub (org i) hout
      generalize s.hub.unregister (org i) out = r at hby hmade hclosed
      have hphase : ∀ j n, Function.update s.phase i .gone j = .registered n → s.phase j = .registered n :=
        fun j n hj => by
          by_cases hji : j = i
          · subst hji
            rw [Function.update_self] at hj
            cases hj
          · rwa [Function.update_of_ne hji] at hj
      have hclosing : ∀ o n, (o, n) ∈ s.closings ++ ended s.hub (org i) out → Made s.hub o n := fun o n hmem => by
        cases List.mem_append.1 hmem with
        | inl hmem => exact h.closedMade o n hmem
        | inr hmem =>
            obtain ⟨-, rfl, rfl⟩ := mem_ended.1 hmem
            exact hout
      refine ⟨fun o n hn => ?_, fun o n hn hmem => ?_, fun j n hj => ?_, fun j k n hj hk horg => ?_, ?_,
        fun o n hmem => (hmade o n).2 (hclosing o n hmem), fun o n hn => ?_⟩
      · obtain ⟨hcur, hnot⟩ := (hby o n).1 hn
        obtain ⟨j, rfl, hj⟩ := h.held o n hcur
        refine ⟨j, rfl, (Function.update_of_ne ?_ _ _).trans hj⟩
        rintro rfl
        cases hi.symm.trans hj
        exact hnot (mem_ended.2 ⟨hcur, rfl, rfl⟩)
      · obtain ⟨hn, hnot⟩ := (hby o n).1 hn
        cases List.mem_append.1 hmem with
        | inl hmem => exact h.unclosed o n hn hmem
        | inr hmem => exact hnot hmem
      · exact (hmade _ _).2 (h.made j n (hphase j n hj))
      · exact h.own j k n (hphase j n hj) (hphase k n hk) horg
      · refine List.nodup_append'.2 ⟨h.once, ?_, fun ⟨o, n⟩ hc hc' => ?_⟩
        · unfold ended
          split_ifs
          · exact List.nodup_singleton _
          · exact List.nodup_nil
        · obtain ⟨hcur, rfl, rfl⟩ := mem_ended.1 hc'
          exact h.unclosed _ _ hcur hc
      · have hm := (hmade o n).1 hn
        rw [hclosed, List.mem_append, h.flag o n hm]
        exact or_comm
  · exact h

theorem Inv.step {s : State ι} (h : Inv org s) (c : Call ι) : Inv org (step org s c) := by
  cases c with
  | register i => exact h.register i
  | unregister i => exact h.unregister i

/-! ## Runs -/

/-- A stream that was replaced leaves the hub alone when it unregisters. -/
def Spares (org : ι → Id) (s : State ι) : Call ι → Prop
  | .register _ => True
  | .unregister i => ∀ out, s.phase i = .registered out → s.hub.byOrg (org i) ≠ some out →
      (step org s (.unregister i)).hub = s.hub

theorem spares (org : ι → Id) (s : State ι) (c : Call ι) : Spares org s c := by
  cases c with
  | register i => trivial
  | unregister i =>
      intro out hi hne
      simp only [step, hi, Hub.unregister, if_neg hne]

end Registry

end Apifor
