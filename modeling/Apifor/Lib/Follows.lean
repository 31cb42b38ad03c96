import Apifor.Lib.Interleave

/-!
# Programs that follow a plan

A plan is a set of stages and a relation `step` that says what a step may do at a stage, by the name of
the statement that it is, and to which stage it comes. `Follows lost step Q c p` says that `p` keeps to
the plan from the stage `c`, as long as no statement fails with an error that counts as `lost`, and ends
at a stage and with a result that `Q` allows. Interleaved with others, a turn of such a program is a step
of its plan.
-/

namespace Prog

variable {σ ε α β C : Type}

/-- The statement does not fail with a lost error. -/
@[grind =] def executes (lost : ε → Bool) (f : σ → Except ε (σ × β)) (s : σ) : Bool :=
  match f s with
  | .ok _ => true
  | .error e => !lost e

inductive Follows (lost : ε → Bool) (step : σ → σ → C → Option String → C → Prop) (Q : C → α → Prop) :
    C → Prog σ ε α → Prop
  | done {c : C} {a : α} (h : Q c a) : Follows lost step Q c (.done a)
  | crash {c : C} : Follows lost step Q c .crash
  | act {β : Type} {c : C} {f : σ → σ × β} {k : β → Prog σ ε α} (next : σ → C)
      (h : ∀ s, step s (f s).1 c none (next s)) (hk : ∀ s, Follows lost step Q (next s) (k (f s).2)) :
      Follows lost step Q c (.act f k)
  | stmt {β : Type} {c : C} {n : String} {f : σ → Except ε (σ × β)} {k : Except ε β → Prog σ ε α} (next : σ → C)
      (h : ∀ s, executes lost f s = true → step s (settle f s).1 c (some n) (next s))
      (hk : ∀ s, executes lost f s = true → Follows lost step Q (next s) (k (settle f s).2)) :
      Follows lost step Q c (.stmt n f k)

/-- The next step is not a statement that fails with a lost error. -/
@[grind =] def succeeds (lost : ε → Bool) : Prog σ ε α → σ → Bool
  | .stmt _ f _, s => executes lost f s
  | _, _ => true

variable {lost : ε → Bool} {step : σ → σ → C → Option String → C → Prop} {Q : C → α → Prop} {R : C → β → Prop}
  {c : C} {p : Prog σ ε α} {s : σ}

theorem Follows.bind {g : α → Prog σ ε β} (hp : Follows lost step Q c p)
    (hg : ∀ c a, Q c a → Follows lost step R c (g a)) : Follows lost step R c (p.bind g) := by
  induction hp with
  | done h => exact hg _ _ h
  | crash => exact .crash
  | act next h _ ih => exact .act next h ih
  | stmt next h _ ih => exact .stmt next h ih

theorem Follows.mono {Q' : C → α → Prop} (hp : Follows lost step Q c p) (h : ∀ c a, Q c a → Q' c a) :
    Follows lost step Q' c p := by
  induction hp with
  | done hq => exact .done (h _ _ hq)
  | crash => exact .crash
  | act next hs _ ih => exact .act next hs ih
  | stmt next hs _ ih => exact .stmt next hs ih

/-- A program whose steps the plan allows where it stands stays there. -/
theorem Follows.of_each {R : σ → σ → Prop} (hr : ∀ s, R s s) {c : C} (hR : ∀ s s' n, R s s' → step s s' c n c)
    (hp : Each R p) : Follows lost step (fun c' _ => c' = c) c p := by
  induction hp with
  | done a => exact .done rfl
  | crash => exact .crash
  | act h _ ih => exact .act (fun _ => c) (fun s => hR _ _ _ (h s)) fun s => ih _
  | stmt h _ ih => exact .stmt (fun _ => c) (fun s _ => hR _ _ _ (settle_rel hr h s)) fun s _ => ih _

/-- A program that has not stopped makes a step of its plan. -/
theorem Follows.tick (hp : Follows lost step Q c p) (hs : p.succeeds lost s = true) :
    (p.tick s = (s, p) ∧ p.upcoming = none) ∨
      ∃ c', step s (p.tick s).1 c p.upcoming c' ∧ Follows lost step Q c' (p.tick s).2 := by
  cases hp with
  | done h => exact .inl ⟨rfl, rfl⟩
  | crash => exact .inl ⟨rfl, rfl⟩
  | act next h hk => exact .inr ⟨next s, h s, hk s⟩
  | stmt next h hk => exact .inr ⟨next s, h s hs, hk s hs⟩

theorem executes_of_none_lost (f : σ → Except ε (σ × β)) (s : σ) : executes (fun _ => false) f s = true := by
  unfold executes
  split <;> rfl

theorem succeeds_of_none_lost (p : Prog σ ε α) (s : σ) : p.succeeds (fun _ => false) s = true := by
  cases p with
  | stmt n f k => exact executes_of_none_lost f s
  | _ => rfl

/-- Where no error counts as lost, every step is one of the plan. -/
theorem Follows.next (hp : Follows (fun _ => false) step Q c p) (hs : p.halted = false) (s : σ) :
    ∃ c', step s (p.tick s).1 c p.upcoming c' ∧ Follows (fun _ => false) step Q c' (p.tick s).2 := by
  cases hp with
  | done h => cases hs
  | crash => cases hs
  | act next h hk => exact ⟨next s, h s, hk s⟩
  | stmt next h hk => exact ⟨next s, h s (executes_of_none_lost _ s), hk s (executes_of_none_lost _ s)⟩

theorem Follows.ended (hp : Follows lost step Q c p) (h : p.ended = true) : ∃ a, Q c a := by
  cases hp with
  | done hq => exact ⟨_, hq⟩
  | crash => cases h
  | act => cases h
  | stmt => cases h

/-! ## Programs that do not end

`Busy lost J p` says that `p` does not come to its end as long as `J` holds, before and after each of its
steps, whatever the others do. -/

inductive Busy (lost : ε → Bool) (J : σ → Prop) : Prog σ ε α → Prop
  | crash : Busy lost J .crash
  | act {β : Type} {f : σ → σ × β} {k : β → Prog σ ε α} (hk : ∀ s, J s → J (f s).1 → Busy lost J (k (f s).2)) :
      Busy lost J (.act f k)
  | stmt {β : Type} {n : String} {f : σ → Except ε (σ × β)} {k : Except ε β → Prog σ ε α}
      (hk : ∀ s, J s → executes lost f s = true → J (settle f s).1 → Busy lost J (k (settle f s).2)) :
      Busy lost J (.stmt n f k)

section Busy

variable {J : σ → Prop}

theorem Busy.bind (hp : Busy lost J p) (g : α → Prog σ ε β) : Busy lost J (p.bind g) := by
  induction hp with
  | crash => exact .crash
  | act _ ih => exact .act ih
  | stmt _ ih => exact .stmt ih

/-- What comes after a program may be what keeps it busy. -/
theorem Busy.after (p : Prog σ ε α) {g : α → Prog σ ε β} (hg : ∀ a, Busy lost J (g a)) : Busy lost J (p.bind g) := by
  induction p with
  | done a => exact hg a
  | crash => exact .crash
  | act f k ih => exact .act fun s _ _ => ih _
  | stmt n f k ih => exact .stmt fun s _ _ _ => ih _

theorem Busy.not_ended (hp : Busy lost J p) : p.ended = false := by
  cases hp <;> rfl

theorem Busy.tick (hp : Busy lost J p) (hs : p.succeeds lost s = true) (hJ : J s) (hJ' : J (p.tick s).1) :
    Busy lost J (p.tick s).2 := by
  cases hp with
  | crash => exact .crash
  | act hk => exact hk s hJ hJ'
  | stmt hk => exact hk s hJ hs hJ'

end Busy

end Prog
