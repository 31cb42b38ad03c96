import Mathlib.Tactic.Basic

/-!
# Programs over a shared state

A `Prog σ ε α` is a sequential program whose atomic steps act on a state `σ`: an `act` is a step
of memory, which cannot fail; a `stmt` is a statement sent to a store, which may refuse it with an
error of type `ε`, and whose outcome the program sees. A program can also `crash`. Steps are kept
as data, so that one definition has both a sequential meaning (`Prog.run`) and an interleaved one.
-/

/-- A program: a tree of atomic steps. -/
inductive Prog (σ ε α : Type) : Type 1
  | done (a : α)
  | crash
  | act {β : Type} (f : σ → σ × β) (k : β → Prog σ ε α)
  | stmt {β : Type} (name : String) (f : σ → Except ε (σ × β)) (k : Except ε β → Prog σ ε α)

namespace Prog

variable {σ ε α β γ : Type}

@[grind =] def bind : Prog σ ε α → (α → Prog σ ε β) → Prog σ ε β
  | .done a, g => g a
  | .crash, _ => .crash
  | .act f k, g => .act f fun b => (k b).bind g
  | .stmt n f k, g => .stmt n f fun b => (k b).bind g

instance : Monad (Prog σ ε) where
  pure := .done
  bind := bind

@[simp] theorem pure_def (a : α) : (pure a : Prog σ ε α) = .done a := rfl
@[simp] theorem bind_def (p : Prog σ ε α) (g : α → Prog σ ε β) : p >>= g = p.bind g := rfl

theorem bind_done (p : Prog σ ε α) : p.bind .done = p := by
  induction p with
  | done a => rfl
  | crash => rfl
  | act f k ih => simp only [bind, ih]
  | stmt n f k ih => simp only [bind, ih]

theorem bind_assoc (p : Prog σ ε α) (g : α → Prog σ ε β) (h : β → Prog σ ε γ) :
    (p.bind g).bind h = p.bind fun a => (g a).bind h := by
  induction p with
  | done a => rfl
  | crash => rfl
  | act f k ih => simp only [bind, ih]
  | stmt n f k ih => simp only [bind, ih]

instance : LawfulMonad (Prog σ ε) :=
  LawfulMonad.mk' (Prog σ ε) (fun p => bind_done p) (fun _ _ => rfl) bind_assoc

/-- One step of memory. -/
def lift (f : σ → σ × α) : Prog σ ε α := .act f .done

/-- One statement; its outcome is the program's result. -/
def attempt (name : String) (f : σ → Except ε (σ × α)) : Prog σ ε (Except ε α) := .stmt name f .done

/-! ## Sequential runs -/

/-- The outcome of one statement: a refused statement changes nothing. -/
@[grind =] def settle (f : σ → Except ε (σ × β)) (s : σ) : σ × Except ε β :=
  match f s with
  | .ok (s', b) => (s', .ok b)
  | .error e => (s, .error e)

/-- A run without interleaving; the result is `none` when the program crashed. -/
@[grind =] def run : Prog σ ε α → σ → σ × Option α
  | .done a, s => (s, some a)
  | .crash, s => (s, none)
  | .act f k, s => (k (f s).2).run (f s).1
  | .stmt _ f k, s => (k (settle f s).2).run (settle f s).1

@[simp] theorem run_done (a : α) (s : σ) : (.done a : Prog σ ε α).run s = (s, some a) := rfl
@[simp] theorem run_crash (s : σ) : (.crash : Prog σ ε α).run s = (s, none) := rfl

@[simp] theorem run_lift (f : σ → σ × α) (s : σ) :
    (lift f : Prog σ ε α).run s = ((f s).1, some (f s).2) := rfl

@[simp] theorem run_attempt (n : String) (f : σ → Except ε (σ × α)) (s : σ) :
    (attempt n f).run s = ((settle f s).1, some (settle f s).2) := rfl

theorem run_act (f : σ → σ × β) (k : β → Prog σ ε α) (s : σ) :
    (Prog.act f k).run s = (k (f s).2).run (f s).1 := rfl

theorem run_stmt (n : String) (f : σ → Except ε (σ × β)) (k : Except ε β → Prog σ ε α) (s : σ) :
    (Prog.stmt n f k).run s = (k (settle f s).2).run (settle f s).1 := rfl

/-- A sequence runs its second part from where the first one stopped, unless that crashed. -/
theorem run_bind (p : Prog σ ε α) (g : α → Prog σ ε β) (s : σ) :
    (p.bind g).run s =
      match (p.run s).2 with
      | some a => (g a).run (p.run s).1
      | none => ((p.run s).1, none) := by
  induction p generalizing s with
  | done a => rfl
  | crash => rfl
  | act f k ih => exact ih _ _
  | stmt n f k ih => exact ih _ _

theorem run_bind_of_eq {p : Prog σ ε α} {g : α → Prog σ ε β} {s s' : σ} {a : α}
    (h : p.run s = (s', some a)) : (p.bind g).run s = (g a).run s' := by
  rw [run_bind, h]

/-- The program runs to its end from every state. -/
def NoCrash (p : Prog σ ε α) : Prop := ∀ s, ∃ a, (p.run s).2 = some a

theorem NoCrash.done (a : α) : NoCrash (.done a : Prog σ ε α) := fun _ => ⟨a, rfl⟩

theorem NoCrash.lift (f : σ → σ × α) : NoCrash (lift f : Prog σ ε α) := fun _ => ⟨_, rfl⟩

theorem NoCrash.attempt (n : String) (f : σ → Except ε (σ × α)) : NoCrash (attempt n f) := fun _ => ⟨_, rfl⟩

theorem NoCrash.bind {p : Prog σ ε α} {g : α → Prog σ ε β} (hp : NoCrash p) (hg : ∀ a, NoCrash (g a)) :
    NoCrash (p.bind g) := fun s => by
  obtain ⟨a, ha⟩ := hp s
  rw [run_bind, ha]
  exact hg a _

/-- From the states of `I` the program runs to its end, and stops in one of them. -/
def Safe (I : σ → Prop) (p : Prog σ ε α) : Prop := ∀ s, I s → (∃ a, (p.run s).2 = some a) ∧ I (p.run s).1

section Safe

variable {I : σ → Prop}

theorem Safe.done (a : α) : Safe I (.done a : Prog σ ε α) := fun _ h => ⟨⟨a, rfl⟩, h⟩

theorem Safe.lift {f : σ → σ × α} (h : ∀ s, I s → I (f s).1) : Safe I (lift f : Prog σ ε α) :=
  fun s hs => ⟨⟨_, rfl⟩, h s hs⟩

theorem Safe.attempt {n : String} {f : σ → Except ε (σ × α)} (h : ∀ s s' a, I s → f s = .ok (s', a) → I s') :
    Safe I (attempt n f) := fun s hs => by
  refine ⟨⟨_, rfl⟩, ?_⟩
  simp only [run_attempt, settle]
  cases hf : f s with
  | ok r => exact h s r.1 r.2 hs hf
  | error e => exact hs

theorem Safe.bind {p : Prog σ ε α} {g : α → Prog σ ε β} (hp : Safe I p) (hg : ∀ a, Safe I (g a)) :
    Safe I (p.bind g) := fun s hs => by
  obtain ⟨⟨a, ha⟩, hI⟩ := hp s hs
  rw [run_bind, ha]
  exact hg a _ hI

theorem Safe.run_bind {p : Prog σ ε α} (hp : Safe I p) (g : α → Prog σ ε β) {s : σ} (hs : I s) :
    ∃ a, (p.bind g).run s = (g a).run (p.run s).1 := by
  obtain ⟨⟨a, ha⟩, -⟩ := hp s hs
  exact ⟨a, by rw [Prog.run_bind, ha]⟩

end Safe

/-! ## What every run keeps

`Keeps R p` says that each run of `p` relates its first state to its last by `R`. For a reflexive
and transitive `R` it is proved step by step. -/

def Keeps (R : σ → σ → Prop) (p : Prog σ ε α) : Prop := ∀ s, R s (p.run s).1

section Keeps

variable {R : σ → σ → Prop}

theorem Keeps.done (hr : ∀ s, R s s) (a : α) : Keeps R (.done a : Prog σ ε α) := hr

theorem Keeps.crash (hr : ∀ s, R s s) : Keeps R (.crash : Prog σ ε α) := hr

theorem Keeps.lift {f : σ → σ × α} (h : ∀ s, R s (f s).1) : Keeps R (lift f : Prog σ ε α) := h

theorem Keeps.attempt (hr : ∀ s, R s s) {n : String} {f : σ → Except ε (σ × α)}
    (h : ∀ s s' a, f s = .ok (s', a) → R s s') : Keeps R (attempt n f) := by
  intro s
  simp only [run_attempt, settle]
  cases hf : f s with
  | ok r => exact h s r.1 r.2 hf
  | error e => exact hr s

theorem Keeps.bind (ht : ∀ a b c, R a b → R b c → R a c) {p : Prog σ ε α} {g : α → Prog σ ε β}
    (hp : Keeps R p) (hg : ∀ a, Keeps R (g a)) : Keeps R (p.bind g) := by
  intro s
  rw [run_bind]
  cases h : (p.run s).2 with
  | some a => exact ht _ _ _ (hp s) (hg a _)
  | none => exact hp s

/-- What the second part of a sequence keeps relates the end of the first part to the end. -/
theorem Keeps.tail (hr : ∀ s, R s s) {g : α → Prog σ ε β} (hg : ∀ a, Keeps R (g a)) (p : Prog σ ε α) (s : σ) :
    R (p.run s).1 ((p.bind g).run s).1 := by
  rw [run_bind]
  cases (p.run s).2 with
  | some a => exact hg a _
  | none => exact hr _

theorem Keeps.mono {R' : σ → σ → Prop} (h : ∀ a b, R a b → R' a b) {p : Prog σ ε α}
    (hp : Keeps R p) : Keeps R' p := fun s => h _ _ (hp s)

/-- A relation that is known only where the invariant `I` holds, and keeps it. -/
def Under (I : σ → Prop) (R : σ → σ → Prop) (s s' : σ) : Prop := I s → I s' ∧ R s s'

theorem Under.refl {I : σ → Prop} (hr : ∀ s, R s s) (s : σ) : Under I R s s := fun h => ⟨h, hr s⟩

theorem Under.trans {I : σ → Prop} (ht : ∀ a b c, R a b → R b c → R a c) {a b c : σ} (h : Under I R a b)
    (h' : Under I R b c) : Under I R a c := fun ha => by
  obtain ⟨hb, hab⟩ := h ha
  obtain ⟨hc, hbc⟩ := h' hb
  exact ⟨hc, ht _ _ _ hab hbc⟩

end Keeps

/-! ## What every step keeps

`Each R p` says that every atomic step which `p` may come to relates its states by `R`. This holds of
`p` however its steps are interleaved with those of others. -/

inductive Each (R : σ → σ → Prop) : Prog σ ε α → Prop
  | done (a : α) : Each R (.done a)
  | crash : Each R .crash
  | act {β : Type} {f : σ → σ × β} {k : β → Prog σ ε α} (h : ∀ s, R s (f s).1) (hk : ∀ b, Each R (k b)) :
      Each R (.act f k)
  | stmt {β : Type} {n : String} {f : σ → Except ε (σ × β)} {k : Except ε β → Prog σ ε α}
      (h : ∀ s s' b, f s = .ok (s', b) → R s s') (hk : ∀ b, Each R (k b)) : Each R (.stmt n f k)

section Each

variable {R R' : σ → σ → Prop}

theorem Each.bind {p : Prog σ ε α} {g : α → Prog σ ε β} (hp : Each R p) (hg : ∀ a, Each R (g a)) : Each R (p.bind g) := by
  induction hp with
  | done a => exact hg a
  | crash => exact .crash
  | act h _ ih => exact .act h ih
  | stmt h _ ih => exact .stmt h ih

theorem Each.mono (h : ∀ s s', R s s' → R' s s') {p : Prog σ ε α} (hp : Each R p) : Each R' p := by
  induction hp with
  | done a => exact .done a
  | crash => exact .crash
  | act hs _ ih => exact .act (fun s => h _ _ (hs s)) ih
  | stmt hs _ ih => exact .stmt (fun s s' b hf => h _ _ (hs s s' b hf)) ih

theorem Each.and {p : Prog σ ε α} (hp : Each R p) (hp' : Each R' p) : Each (fun s s' => R s s' ∧ R' s s') p := by
  induction hp with
  | done a => exact .done a
  | crash => exact .crash
  | act h _ ih =>
      cases hp' with
      | act h' hk' => exact .act (fun s => ⟨h s, h' s⟩) fun b => ih b (hk' b)
  | stmt h _ ih =>
      cases hp' with
      | stmt h' hk' => exact .stmt (fun s s' b hf => ⟨h s s' b hf, h' s s' b hf⟩) fun b => ih b (hk' b)

theorem Each.lift {f : σ → σ × α} (h : ∀ s, R s (f s).1) : Each R (lift f : Prog σ ε α) := .act h .done

theorem Each.attempt {n : String} {f : σ → Except ε (σ × α)} (h : ∀ s s' a, f s = .ok (s', a) → R s s') :
    Each R (attempt n f) := .stmt h .done

theorem settle_rel (hr : ∀ s, R s s) {f : σ → Except ε (σ × β)} (h : ∀ s s' b, f s = .ok (s', b) → R s s') (s : σ) :
    R s (settle f s).1 := by
  unfold settle
  cases hf : f s with
  | ok r => exact h s r.1 r.2 hf
  | error e => exact hr s

/-- What every step keeps, a run keeps. -/
theorem Each.keeps (hr : ∀ s, R s s) (ht : ∀ a b c, R a b → R b c → R a c) {p : Prog σ ε α} (hp : Each R p) :
    Keeps R p := by
  induction hp with
  | done a => exact hr
  | crash => exact hr
  | act h _ ih => exact fun s => ht _ _ _ (h s) (ih _ _)
  | stmt h _ ih => exact fun s => ht _ _ _ (settle_rel hr h s) (ih _ _)

end Each

end Prog
