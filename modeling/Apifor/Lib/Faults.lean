import Apifor.Lib.Prog
import Mathlib.Logic.Function.Basic

/-!
# Statements that fail

`p.faulty F` is the program `p` over a store that refuses the statements named by `F`, each with the
error that `F` gives. A refused statement changes nothing, and the program sees the error. For a
program that sends a statement more than once, `p.refusing F c` refuses single sendings of it.
-/

namespace Prog

variable {σ ε α β : Type} {F : String → Option ε} {n : String} {f : σ → Except ε (σ × α)} {s : σ}

@[grind =] def faulty (F : String → Option ε) : Prog σ ε α → Prog σ ε α
  | .done a => .done a
  | .crash => .crash
  | .act f k => .act f fun b => (k b).faulty F
  | .stmt n f k =>
      .stmt n (fun s => match F n with | some e => .error e | none => f s) fun r => (k r).faulty F

@[simp] theorem faulty_done (a : α) : (done a : Prog σ ε α).faulty F = done a := rfl

@[simp] theorem faulty_lift (f : σ → σ × α) : (lift f : Prog σ ε α).faulty F = lift f := rfl

theorem faulty_bind (p : Prog σ ε α) (g : α → Prog σ ε β) :
    (p.bind g).faulty F = (p.faulty F).bind fun a => (g a).faulty F := by
  induction p with
  | done a => rfl
  | crash => rfl
  | act f k ih => simp only [bind, faulty, ih]
  | stmt n f k ih => simp only [bind, faulty, ih]

theorem run_faulty_refused {e : ε} (h : F n = some e) : ((attempt n f).faulty F).run s = (s, some (.error e)) := by
  simp only [attempt, faulty, h, run, settle]

theorem faulty_sound (h : F n = none) : (attempt n f).faulty F = attempt n f := by
  simp only [attempt, faulty, h]

/-- One more sending of the statements named `n`. -/
def sentOnce (c : String → Nat) (n : String) : String → Nat := Function.update c n (c n + 1)

theorem sentOnce_of_ne {c : String → Nat} {n m : String} (h : m ≠ n) : sentOnce c n m = c m :=
  Function.update_of_ne h _ _

@[simp] theorem sentOnce_same (c : String → Nat) (n : String) : sentOnce c n n = c n + 1 := Function.update_self ..

/-- `F n i` refuses the `i`-th sending of `n`; `c` counts what has been sent. -/
@[grind =] def refusing (F : String → Nat → Option ε) : (String → Nat) → Prog σ ε α → Prog σ ε α
  | _, .done a => .done a
  | _, .crash => .crash
  | c, .act f k => .act f fun b => (k b).refusing F c
  | c, .stmt n f k =>
      .stmt n (fun s => match F n (c n) with | some e => .error e | none => f s)
        fun r => (k r).refusing F (sentOnce c n)

variable {F : String → Nat → Option ε} {c : String → Nat}

/-- Without refusals a program is as it was. -/
theorem refusing_none (p : Prog σ ε α) (c : String → Nat) : p.refusing (fun _ _ => none) c = p := by
  induction p generalizing c with
  | done a => rfl
  | crash => rfl
  | act f k ih => simp only [refusing, ih]
  | stmt n f k ih => simp only [refusing, ih]

theorem run_refusing_refused {β : Type} {n : String} {f : σ → Except ε (σ × β)} {k : Except ε β → Prog σ ε α} {e : ε}
    {s : σ} (h : F n (c n) = some e) :
    ((stmt n f k).refusing F c).run s = ((k (.error e)).refusing F (sentOnce c n)).run s := by
  simp only [refusing, h, run, settle]

theorem run_refusing_sound {β : Type} {n : String} {f : σ → Except ε (σ × β)} {k : Except ε β → Prog σ ε α} {s : σ}
    (h : F n (c n) = none) :
    ((stmt n f k).refusing F c).run s = ((k (settle f s).2).refusing F (sentOnce c n)).run (settle f s).1 := by
  simp only [refusing, h, run]

/-! ## Sequences with refused sendings

`Comes F c p s Q` says that `p`, run from `s` after the sendings of `c`, comes to an end that `Q` allows: a
state, a result, and what has been sent then. -/

def Comes (F : String → Nat → Option ε) (c : String → Nat) (p : Prog σ ε α) (s : σ)
    (Q : σ → α → (String → Nat) → Prop) : Prop :=
  ∃ s' a c', Q s' a c' ∧ ∀ {β : Type} (g : α → Prog σ ε β), ((p.bind g).refusing F c).run s = ((g a).refusing F c').run s'

section Comes

variable {p : Prog σ ε α} {Q Q' : σ → α → (String → Nat) → Prop} {R : σ → β → (String → Nat) → Prop}

theorem Comes.done {a : α} (h : Q s a c) : Comes F c (.done a) s Q := ⟨s, a, c, h, fun _ => rfl⟩

theorem Comes.bind {g : α → Prog σ ε β} (hp : Comes F c p s Q) (hg : ∀ s' a c', Q s' a c' → Comes F c' (g a) s' R) :
    Comes F c (p.bind g) s R := by
  obtain ⟨s', a, c', hq, hp⟩ := hp
  obtain ⟨s'', b, c'', hr, hg⟩ := hg s' a c' hq
  exact ⟨s'', b, c'', hr, fun k => by rw [bind_assoc, hp, hg]⟩

theorem Comes.mono (hp : Comes F c p s Q) (h : ∀ s' a c', Q s' a c' → Q' s' a c') : Comes F c p s Q' := by
  obtain ⟨s', a, c', hq, hp⟩ := hp
  exact ⟨s', a, c', h s' a c' hq, hp⟩

theorem Comes.lift {f : σ → σ × α} (h : Q (f s).1 (f s).2 c) : Comes F c (lift f) s Q := ⟨_, _, c, h, fun _ => rfl⟩

theorem Comes.attempt {f : σ → Except ε (σ × α)} {Q : σ → Except ε α → (String → Nat) → Prop}
    (hr : ∀ e, F n (c n) = some e → Q s (.error e) (sentOnce c n))
    (hs : F n (c n) = none → Q (settle f s).1 (settle f s).2 (sentOnce c n)) : Comes F c (attempt n f) s Q := by
  cases hF : F n (c n) with
  | some e => exact ⟨s, .error e, _, hr e hF, fun g => run_refusing_refused hF⟩
  | none => exact ⟨_, _, _, hs hF, fun g => run_refusing_sound hF⟩

theorem Comes.run (hp : Comes F c p s Q) : ∃ s' a c', Q s' a c' ∧ (p.refusing F c).run s = (s', some a) := by
  obtain ⟨s', a, c', hq, hp⟩ := hp
  have hrun := hp (.done)
  rw [bind_done] at hrun
  exact ⟨s', a, c', hq, hrun⟩

end Comes

/-- The steps of the program keep `R`, and it sends no statements but `names`. -/
inductive Minor (R : σ → σ → Prop) (names : List String) : Prog σ ε α → Prop
  | done (a : α) : Minor R names (.done a)
  | act {β : Type} {f : σ → σ × β} {k : β → Prog σ ε α} (h : ∀ s, R s (f s).1) (hk : ∀ b, Minor R names (k b)) :
      Minor R names (.act f k)
  | stmt {β : Type} {n : String} {f : σ → Except ε (σ × β)} {k : Except ε β → Prog σ ε α} (hn : n ∈ names)
      (h : ∀ s s' b, f s = .ok (s', b) → R s s') (hk : ∀ b, Minor R names (k b)) : Minor R names (.stmt n f k)

section Minor

variable {R : σ → σ → Prop} {names : List String} {p : Prog σ ε α}

theorem Minor.bind {g : α → Prog σ ε β} (hp : Minor R names p) (hg : ∀ a, Minor R names (g a)) :
    Minor R names (p.bind g) := by
  induction hp with
  | done a => exact hg a
  | act h _ ih => exact .act h ih
  | stmt hn h _ ih => exact .stmt hn h ih

theorem Minor.lift {f : σ → σ × α} (h : ∀ s, R s (f s).1) : Minor R names (lift f : Prog σ ε α) := .act h .done

theorem Minor.attempt {f : σ → Except ε (σ × α)} (hn : n ∈ names) (h : ∀ s s' a, f s = .ok (s', a) → R s s') :
    Minor R names (attempt n f) := .stmt hn h .done

/-- Whatever is refused of it, it keeps `R` and counts its own sendings only. -/
theorem Minor.comes (hp : Minor R names p) (hr : ∀ s, R s s) (ht : ∀ a b c, R a b → R b c → R a c)
    (F : String → Nat → Option ε) (c : String → Nat) (s : σ) :
    Comes F c p s fun s' _ c' => R s s' ∧ ∀ n, n ∉ names → c' n = c n := by
  induction hp generalizing c s with
  | done a => exact .done ⟨hr s, fun _ _ => rfl⟩
  | @act γ f k h _ ih =>
      obtain ⟨s', a, c', ⟨hR, hc⟩, hrun⟩ := ih (f s).2 c (f s).1
      exact ⟨s', a, c', ⟨ht _ _ _ (h s) hR, hc⟩, hrun⟩
  | @stmt γ m f k hn h _ ih =>
      have hsent : ∀ n, n ∉ names → sentOnce c m n = c n := fun n hn' => sentOnce_of_ne fun he => hn' (he ▸ hn)
      cases hF : F m (c m) with
      | some e =>
          obtain ⟨s', a, c', ⟨hR, hc⟩, hrun⟩ := ih (.error e) (sentOnce c m) s
          exact ⟨s', a, c', ⟨hR, fun n hn' => (hc n hn').trans (hsent n hn')⟩, fun g =>
            (run_refusing_refused hF).trans (hrun g)⟩
      | none =>
          obtain ⟨s', a, c', ⟨hR, hc⟩, hrun⟩ := ih (settle f s).2 (sentOnce c m) (settle f s).1
          exact ⟨s', a, c', ⟨ht _ _ _ (settle_rel hr h s) hR, fun n hn' => (hc n hn').trans (hsent n hn')⟩, fun g =>
            (run_refusing_sound hF).trans (hrun g)⟩

end Minor

/-- What every step keeps, a run keeps in which some sendings are refused. -/
theorem Each.run_refusing {R : σ → σ → Prop} {p : Prog σ ε α} (hp : Each R p) (hr : ∀ s, R s s)
    (ht : ∀ a b c, R a b → R b c → R a c) (F : String → Nat → Option ε) (c : String → Nat) (s : σ) :
    R s ((p.refusing F c).run s).1 := by
  induction hp generalizing c s with
  | done a => exact hr s
  | crash => exact hr s
  | act h _ ih => exact ht _ _ _ (h s) (ih _ _ _)
  | @stmt γ n f k h _ ih =>
      cases hF : F n (c n) with
      | some e =>
          rw [run_refusing_refused hF]
          exact ih _ _ _
      | none =>
          rw [run_refusing_sound hF]
          exact ht _ _ _ (settle_rel hr h s) (ih _ _ _)

end Prog
