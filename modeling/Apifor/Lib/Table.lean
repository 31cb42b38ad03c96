import Mathlib.Data.List.Nodup

/-!
# Tables with a primary key

A `Table key` is a list of rows, newest first, no two of which have the same key. Its operations
are the ones a statement of a relational store performs: look a row up, insert a row under an unused
key, update the rows a condition selects, delete them.
-/

structure Table {ρ κ : Type} (key : ρ → κ) where
  rows : List ρ
  pk : (rows.map key).Nodup

namespace Table

variable {ρ κ : Type} {key : ρ → κ}

@[ext] theorem ext {t u : Table key} (h : t.rows = u.rows) : t = u := by
  cases t; cases u; simp_all

def empty : Table key := ⟨[], by simp⟩

@[simp] theorem rows_empty : (empty : Table key).rows = [] := rfl

theorem eq_of_key_eq (t : Table key) {r r' : ρ} (hr : r ∈ t.rows) (hr' : r' ∈ t.rows)
    (h : key r = key r') : r = r' := List.inj_on_of_nodup_map t.pk hr hr' h

/-! ## Writing -/

/-- A new row goes in front; its key must be unused. -/
@[grind =] def insert? [DecidableEq κ] (t : Table key) (r : ρ) : Option (Table key) :=
  if h : key r ∈ t.rows.map key then none
  else some ⟨r :: t.rows, by simpa only [List.map_cons] using List.nodup_cons.2 ⟨h, t.pk⟩⟩

/-- Rows that satisfy `p` are replaced by their image under `f`, which keeps their key. -/
@[grind =] def update (t : Table key) (p : ρ → Bool) (f : ρ → ρ) (hf : ∀ r, key (f r) = key r) : Table key where
  rows := t.rows.map fun r => if p r then f r else r
  pk := by
    have h : key ∘ (fun r => if p r then f r else r) = key := by
      funext r
      simp only [Function.comp_apply]
      split
      · exact hf r
      · rfl
    rw [List.map_map, h]
    exact t.pk

def delete (t : Table key) (p : ρ → Bool) : Table key where
  rows := t.rows.filter fun r => !p r
  pk := t.pk.sublist (List.filter_sublist.map key)

@[simp] theorem rows_update (t : Table key) (p : ρ → Bool) (f : ρ → ρ) (hf : ∀ r, key (f r) = key r) :
    (t.update p f hf).rows = t.rows.map fun r => if p r then f r else r := rfl

@[simp] theorem rows_delete (t : Table key) (p : ρ → Bool) :
    (t.delete p).rows = t.rows.filter fun r => !p r := rfl

section Insert

variable [DecidableEq κ]

theorem insert?_eq_none {t : Table key} {r : ρ} : t.insert? r = none ↔ ∃ r' ∈ t.rows, key r' = key r := by
  unfold insert?
  split
  · next h => simpa using h
  · next h => simpa using h

theorem rows_insert {t u : Table key} {r : ρ} (h : t.insert? r = some u) : u.rows = r :: t.rows := by
  unfold insert? at h
  split at h
  · cases h
  · cases h; rfl

theorem key_notMem_of_insert {t u : Table key} {r : ρ} (h : t.insert? r = some u) :
    ∀ r' ∈ t.rows, key r' ≠ key r := by
  intro r' hr' heq
  have hn : t.insert? r = none := insert?_eq_none.2 ⟨r', hr', heq⟩
  rw [hn] at h
  cases h

end Insert

/-! ## The rows a condition selects -/

theorem filter_rows_update {t : Table key} {p q : ρ → Bool} {f : ρ → ρ} {hf : ∀ r, key (f r) = key r}
    (h : ∀ r ∈ t.rows, p r = true → q r = false ∧ q (f r) = false) :
    (t.update p f hf).rows.filter q = t.rows.filter q := by
  rw [rows_update]
  generalize t.rows = rows at h
  induction rows with
  | nil => rfl
  | cons r rs ih =>
      have ih' := ih fun r' hr' => h r' (List.mem_cons_of_mem _ hr')
      rw [List.map_cons, List.filter_cons, List.filter_cons, ih']
      by_cases hp : p r = true
      · obtain ⟨h1, h2⟩ := h r List.mem_cons_self hp
        simp only [hp, if_true, h1, h2, Bool.false_eq_true, if_false]
      · simp only [hp, Bool.false_eq_true, if_false]

/-- An update after which a row is selected only if it was before selects no more rows. -/
theorem length_filter_update_le {t : Table key} {p q : ρ → Bool} {f : ρ → ρ} {hf : ∀ r, key (f r) = key r}
    (h : ∀ r, q (f r) = true → q r = true) : ((t.update p f hf).rows.filter q).length ≤ (t.rows.filter q).length := by
  rw [rows_update]
  generalize t.rows = rows
  induction rows with
  | nil => exact Nat.le_refl _
  | cons r rs ih =>
      have hr : q (if p r then f r else r) = true → q r = true := by
        split
        · exact h r
        · exact id
      rw [List.map_cons, List.filter_cons, List.filter_cons]
      cases hq : q (if p r then f r else r) with
      | true =>
          rw [hr hq]
          exact Nat.succ_le_succ ih
      | false =>
          cases q r with
          | true => exact Nat.le_succ_of_le ih
          | false => exact ih

/-- An update that fixes the selected rows and selects no others leaves the selection as it is. -/
theorem filter_rows_update_fix {t : Table key} {p q : ρ → Bool} {f : ρ → ρ}
    {hf : ∀ r, key (f r) = key r} (hq : ∀ r ∈ t.rows, q (f r) = q r)
    (hfix : ∀ r ∈ t.rows.filter q, f r = r) : (t.update p f hf).rows.filter q = t.rows.filter q := by
  rw [rows_update]
  generalize t.rows = rows at hq hfix
  induction rows with
  | nil => rfl
  | cons r rs ih =>
      have hr := hq r List.mem_cons_self
      have ih' := ih (fun r' hr' => hq r' (List.mem_cons_of_mem _ hr')) fun r' hr' =>
        hfix r' ((List.sublist_cons_self r rs).filter q |>.subset hr')
      rw [List.map_cons, List.filter_cons, List.filter_cons, ih']
      cases h : q r with
      | false =>
          have hnew : q (if p r then f r else r) = false := by
            split
            · rw [hr, h]
            · exact h
          rw [hnew]
          rfl
      | true =>
          have heq : (if p r then f r else r) = r := by
            split
            · exact hfix r (List.mem_filter.2 ⟨List.mem_cons_self, h⟩)
            · rfl
          rw [heq, h]

theorem filter_rows_insert [DecidableEq κ] {t u : Table key} {r : ρ} {q : ρ → Bool}
    (h : t.insert? r = some u) (hq : q r = false) : u.rows.filter q = t.rows.filter q := by
  rw [rows_insert h, List.filter_cons, hq]
  rfl

theorem filter_rows_delete {t : Table key} {p q : ρ → Bool} (h : ∀ r ∈ t.rows, p r = true → q r = false) :
    (t.delete p).rows.filter q = t.rows.filter q := by
  rw [rows_delete, List.filter_filter]
  refine List.filter_congr fun r hr => ?_
  cases hq : q r with
  | false => rfl
  | true =>
      cases hp : p r with
      | false => rfl
      | true => rw [h r hr hp] at hq; cases hq

/-! ## Looking up -/

def get? [DecidableEq κ] (t : Table key) (k : κ) : Option ρ := t.rows.find? fun r => decide (key r = k)

section Get

variable [DecidableEq κ]

theorem get?_eq_some {t : Table key} {k : κ} {r : ρ} : t.get? k = some r ↔ r ∈ t.rows ∧ key r = k := by
  constructor
  · intro h
    exact ⟨List.mem_of_find?_eq_some h, by simpa using List.find?_some h⟩
  · rintro ⟨hr, rfl⟩
    unfold get?
    cases h : t.rows.find? fun r' => decide (key r' = key r) with
    | none => exact absurd (List.find?_eq_none.1 h r hr) (by simp)
    | some r' =>
        have hk : key r' = key r := by simpa using List.find?_some h
        rw [t.eq_of_key_eq (List.mem_of_find?_eq_some h) hr hk]

theorem get?_eq_none {t : Table key} {k : κ} : t.get? k = none ↔ ∀ r ∈ t.rows, key r ≠ k := by
  simp [get?]

theorem get?_update {t : Table key} {p : ρ → Bool} {f : ρ → ρ} {hf : ∀ r, key (f r) = key r} {k : κ} :
    (t.update p f hf).get? k = (t.get? k).map fun r => if p r then f r else r := by
  simp only [get?, rows_update]
  generalize t.rows = rows
  induction rows with
  | nil => rfl
  | cons r rs ih =>
      have hk : key (if p r then f r else r) = key r := by
        split
        · exact hf r
        · rfl
      rw [List.map_cons, List.find?_cons, List.find?_cons, hk]
      cases decide (key r = k) with
      | true => rfl
      | false => exact ih

theorem get?_insert {t u : Table key} {r : ρ} (h : t.insert? r = some u) (k : κ) :
    u.get? k = if key r = k then some r else t.get? k := by
  rw [get?, rows_insert h, List.find?_cons]
  by_cases hk : key r = k
  · simp [hk]
  · simp [hk, get?]

end Get

end Table
