import Mathlib.Tactic.Basic

/-!
# Runs of a step function

A deterministic system is a function `step : σ → ε → σ`; a run is a list of events. `Always` is
safety along a run, `Meets` says that every event of a run is one the condition allows where it
happens, and the rules below turn facts about one step into facts about whole runs.
-/

namespace Runs

variable {σ ε : Type*}

def exec (step : σ → ε → σ) (s : σ) (es : List ε) : σ := es.foldl step s

@[simp] theorem exec_nil (step : σ → ε → σ) (s : σ) : exec step s [] = s := rfl

@[simp] theorem exec_cons (step : σ → ε → σ) (s : σ) (e : ε) (es : List ε) :
    exec step s (e :: es) = exec step (step s e) es := rfl

theorem exec_append (step : σ → ε → σ) (s : σ) (es es' : List ε) :
    exec step s (es ++ es') = exec step (exec step s es) es' := List.foldl_append ..

/-- `P` holds in every state of the run, the first and the last included. -/
@[grind =] def Always (step : σ → ε → σ) (P : σ → Prop) : σ → List ε → Prop
  | s, [] => P s
  | s, e :: es => P s ∧ Always step P (step s e) es

/-- Every event of the run meets `C` in the state it finds. -/
@[grind =] def Meets (step : σ → ε → σ) (C : σ → ε → Prop) : σ → List ε → Prop
  | _, [] => True
  | s, e :: es => C s e ∧ Meets step C (step s e) es

variable {step : σ → ε → σ} {P Q : σ → Prop} {C : σ → ε → Prop}

instance decidableAlways [∀ s, Decidable (P s)] : ∀ s es, Decidable (Always step P s es)
  | s, [] => inferInstanceAs (Decidable (P s))
  | s, e :: es =>
      have := decidableAlways (step s e) es
      inferInstanceAs (Decidable (P s ∧ Always step P (step s e) es))

instance decidableMeets [∀ s e, Decidable (C s e)] : ∀ s es, Decidable (Meets step C s es)
  | _, [] => inferInstanceAs (Decidable True)
  | s, e :: es =>
      have := decidableMeets (step s e) es
      inferInstanceAs (Decidable (C s e ∧ Meets step C (step s e) es))

theorem Always.head {s : σ} {es : List ε} (h : Always step P s es) : P s := by
  cases es with
  | nil => exact h
  | cons e es => exact h.1

theorem Always.last {s : σ} {es : List ε} (h : Always step P s es) : P (exec step s es) := by
  induction es generalizing s with
  | nil => exact h
  | cons e es ih => exact ih h.2

theorem meets_append {s : σ} {es es' : List ε} :
    Meets step C s (es ++ es') ↔ Meets step C s es ∧ Meets step C (exec step s es) es' := by
  induction es generalizing s with
  | nil => exact ⟨fun h => ⟨trivial, h⟩, fun h => h.2⟩
  | cons e es ih =>
      change C s e ∧ Meets step C (step s e) (es ++ es') ↔ (C s e ∧ Meets step C (step s e) es) ∧ _
      rw [ih, and_assoc]
      rfl

theorem Always.mono (hpq : ∀ s, P s → Q s) {s : σ} {es : List ε} (h : Always step P s es) :
    Always step Q s es := by
  induction es generalizing s with
  | nil => exact hpq s h
  | cons e es ih => exact ⟨hpq s h.1, ih h.2⟩

theorem Always.and {s : σ} {es : List ε} (h : Always step P s es) (h' : Always step Q s es) :
    Always step (fun s => P s ∧ Q s) s es := by
  induction es generalizing s with
  | nil => exact ⟨h, h'⟩
  | cons e es ih => exact ⟨⟨h.1, h'.1⟩, ih h.2 h'.2⟩

theorem Meets.mono {C' : σ → ε → Prop} (hc : ∀ s e, C s e → C' s e) {s : σ} {es : List ε}
    (h : Meets step C s es) : Meets step C' s es := by
  induction es generalizing s with
  | nil => trivial
  | cons e es ih => exact ⟨hc s e h.1, ih h.2⟩

theorem Meets.and {C' : σ → ε → Prop} {s : σ} {es : List ε} (h : Meets step C s es) (h' : Meets step C' s es) :
    Meets step (fun s e => C s e ∧ C' s e) s es := by
  induction es generalizing s with
  | nil => trivial
  | cons e es ih => exact ⟨⟨h.1, h'.1⟩, ih h.2 h'.2⟩

theorem Meets.of_forall (hc : ∀ s e, C s e) (s : σ) (es : List ε) : Meets step C s es := by
  induction es generalizing s with
  | nil => trivial
  | cons e es ih => exact ⟨hc s e, ih _⟩

/-- A condition on events alone. -/
theorem Meets.of_mem {C : ε → Prop} {es : List ε} (h : ∀ e ∈ es, C e) (s : σ) : Meets step (fun _ e => C e) s es := by
  induction es generalizing s with
  | nil => trivial
  | cons e es ih => exact ⟨h e List.mem_cons_self, ih (fun e' he' => h e' (List.mem_cons_of_mem _ he')) _⟩

/-- An invariant that allowed events keep holds along every run of allowed events. -/
theorem always_of_meets (hstep : ∀ s e, P s → C s e → P (step s e)) {s : σ} {es : List ε} (h0 : P s)
    (h : Meets step C s es) : Always step P s es := by
  induction es generalizing s with
  | nil => exact h0
  | cons e es ih => exact ⟨h0, ih (hstep s e h0 h.1) h.2⟩

/-- If only allowed events keep `P`, a run along which `P` holds has only allowed events. -/
theorem meets_of_always (hstep : ∀ s e, P s → P (step s e) → C s e) {s : σ} {es : List ε}
    (h : Always step P s es) : Meets step C s es := by
  induction es generalizing s with
  | nil => trivial
  | cons e es ih => exact ⟨hstep s e h.1 h.2.head, ih h.2⟩

/-- What holds of each allowed event where an invariant holds, holds of every event of the run. -/
theorem meets_of_inv {D : σ → ε → Prop} (hstep : ∀ s e, P s → C s e → P (step s e)) (hd : ∀ s e, P s → C s e → D s e)
    {s : σ} {es : List ε} (h0 : P s) (h : Meets step C s es) : Meets step D s es := by
  induction es generalizing s with
  | nil => trivial
  | cons e es ih => exact ⟨hd s e h0 h.1, ih (hstep s e h0 h.1) h.2⟩

/-- Two conditions that agree where an invariant holds agree along every run that keeps it. -/
theorem meets_congr {D D' : σ → ε → Prop} (hstep : ∀ s e, P s → C s e → P (step s e))
    (hiff : ∀ s e, P s → C s e → (D s e ↔ D' s e)) {s : σ} {es : List ε} (h0 : P s) (h : Meets step C s es) :
    Meets step D s es ↔ Meets step D' s es := by
  induction es generalizing s with
  | nil => exact Iff.rfl
  | cons e es ih => exact and_congr (hiff s e h0 h.1) (ih (hstep s e h0 h.1) h.2)

/-- If a relation to another state survives an event on one side that `c` passes over, and an event on both sides
that it selects, a run is related to the run of the selected events. -/
theorem exec_filter {R : σ → σ → Prop} {c : ε → Bool} (hskip : ∀ s t e, c e = false → R s t → R (step s e) t)
    (hboth : ∀ s t e, c e = true → R s t → R (step s e) (step t e)) {s t : σ} (es : List ε) (h : R s t) :
    R (exec step s es) (exec step t (es.filter c)) := by
  induction es generalizing s t with
  | nil => exact h
  | cons e es ih =>
      cases hc : c e with
      | true =>
          rw [List.filter_cons_of_pos hc]
          exact ih (hboth s t e hc h)
      | false =>
          rw [List.filter_cons_of_neg (by simp [hc])]
          exact ih (hskip s t e hc h)

end Runs
