import Apifor.Lib.Prog

/-!
# Interleaved programs

A pool is a shared state and the programs that are still to run on it. A turn of one of them is its
next atomic step. What every step of a program keeps, its turns keep, whatever the others do.
-/

namespace Prog

variable {σ ε α β : Type} {R : σ → σ → Prop}

/-- The next atomic step: the state after it, and what is left of the program. -/
@[grind =] def tick : Prog σ ε α → σ → σ × Prog σ ε α
  | .done a, s => (s, .done a)
  | .crash, s => (s, .crash)
  | .act f k, s => ((f s).1, k (f s).2)
  | .stmt _ f k, s => ((settle f s).1, k (settle f s).2)

/-- The first steps of a program, and what is left of it. -/
@[grind =] def ticks : Nat → Prog σ ε α → σ → σ × Prog σ ε α
  | 0, p, s => (s, p)
  | k + 1, p, s => ticks k (p.tick s).2 (p.tick s).1

theorem ticks_done (k : Nat) (a : α) (s : σ) : ticks k (done a : Prog σ ε α) s = (s, done a) := by
  induction k with
  | zero => rfl
  | succ k ih => exact ih

/-- The statement that comes next. -/
@[grind =] def upcoming : Prog σ ε α → Option String
  | .stmt n _ _ => some n
  | _ => none

@[grind =] def ended : Prog σ ε α → Bool
  | .done _ => true
  | _ => false

/-- The program has no further steps. -/
@[grind =] def halted : Prog σ ε α → Bool
  | .done _ => true
  | .crash => true
  | _ => false

theorem tick_attempt_bind (n : String) (f : σ → Except ε (σ × α)) (g : Except ε α → Prog σ ε β) (s : σ) :
    ((attempt n f).bind g).tick s = ((settle f s).1, g (settle f s).2) := rfl

theorem Each.tick_rel (hr : ∀ s, R s s) {p : Prog σ ε α} (hp : Each R p) (s : σ) : R s (p.tick s).1 := by
  cases hp with
  | done a => exact hr s
  | crash => exact hr s
  | act h _ => exact h s
  | stmt h _ => exact settle_rel hr h s

theorem Each.tick {p : Prog σ ε α} (hp : Each R p) (s : σ) : Each R (p.tick s).2 := by
  cases hp with
  | done a => exact .done a
  | crash => exact .crash
  | act _ hk => exact hk _
  | stmt _ hk => exact hk _

/-- The result of a program that has come to its end. -/
@[grind =] def result? : Prog σ ε α → Option α
  | .done a => some a
  | _ => none

/-- From states that look the same the program makes the same steps, to states that look the same; it does not
crash. -/
inductive Sees (E : σ → σ → Prop) : Prog σ ε α → Prop
  | done (a : α) : Sees E (.done a)
  | act {β : Type} {f : σ → σ × β} {k : β → Prog σ ε α} (h : ∀ s t, E s t → (f s).2 = (f t).2 ∧ E (f s).1 (f t).1)
      (hk : ∀ b, Sees E (k b)) : Sees E (.act f k)
  | stmt {β : Type} {n : String} {f : σ → Except ε (σ × β)} {k : Except ε β → Prog σ ε α}
      (h : ∀ s t, E s t → (settle f s).2 = (settle f t).2 ∧ E (settle f s).1 (settle f t).1) (hk : ∀ b, Sees E (k b)) :
      Sees E (.stmt n f k)

theorem Sees.bind {E : σ → σ → Prop} {p : Prog σ ε α} {g : α → Prog σ ε β} (hp : Sees E p) (hg : ∀ a, Sees E (g a)) :
    Sees E (p.bind g) := by
  induction hp with
  | done a => exact hg a
  | act h _ ih => exact .act h ih
  | stmt h _ ih => exact .stmt h ih

theorem Sees.lift {E : σ → σ → Prop} {f : σ → σ × α} (h : ∀ s t, E s t → (f s).2 = (f t).2 ∧ E (f s).1 (f t).1) :
    Sees E (lift f : Prog σ ε α) := .act h fun b => .done b

theorem Sees.next {E : σ → σ → Prop} {p : Prog σ ε α} (hp : Sees E p) (s : σ) : Sees E (p.tick s).2 := by
  cases hp with
  | done a => exact .done a
  | act _ hk => exact hk _
  | stmt _ hk => exact hk _

/-- A program without a result is not at its end. -/
theorem Sees.going {E : σ → σ → Prop} {p : Prog σ ε α} (hp : Sees E p) (h : p.result? = none) : p.halted = false := by
  cases hp with
  | done a => cases h
  | act => rfl
  | stmt => rfl

theorem Sees.tick {E : σ → σ → Prop} {p : Prog σ ε α} (hp : Sees E p) {s t : σ} (hst : E s t) :
    (p.tick s).2 = (p.tick t).2 ∧ E (p.tick s).1 (p.tick t).1 ∧ Sees E (p.tick s).2 := by
  cases hp with
  | done a => exact ⟨rfl, hst, .done a⟩
  | @act β f k h hk =>
      obtain ⟨hres, hstate⟩ := h s t hst
      exact ⟨congrArg k hres, hstate, hk _⟩
  | @stmt β n f k h hk =>
      obtain ⟨hres, hstate⟩ := h s t hst
      exact ⟨congrArg k hres, hstate, hk _⟩

theorem Sees.run {E : σ → σ → Prop} {p : Prog σ ε α} (hp : Sees E p) {s t : σ} (hst : E s t) :
    (p.run s).2 = (p.run t).2 ∧ E (p.run s).1 (p.run t).1 := by
  induction hp generalizing s t with
  | done a => exact ⟨rfl, hst⟩
  | @act β f k h _ ih =>
      obtain ⟨hres, hstate⟩ := h s t hst
      simpa only [Prog.run, hres] using ih (f t).2 hstate
  | @stmt β n f k h _ ih =>
      obtain ⟨hres, hstate⟩ := h s t hst
      simpa only [run_stmt, hres] using ih (settle f t).2 hstate

end Prog

/-- Programs over a shared state. -/
structure Pool (σ ε : Type) : Type 1 where
  shared : σ
  threads : List (Prog σ ε Unit)

namespace Pool

variable {σ ε : Type} {pool : Pool σ ε} {P : Prog σ ε Unit → Prop}

def spawn (pool : Pool σ ε) (p : Prog σ ε Unit) : Pool σ ε := { pool with threads := pool.threads ++ [p] }

/-- A turn of one program. -/
@[grind =] def turn (pool : Pool σ ε) (i : Nat) : Pool σ ε :=
  match pool.threads[i]? with
  | some p => { shared := (p.tick pool.shared).1, threads := pool.threads.set i (p.tick pool.shared).2 }
  | none => pool

end Pool
