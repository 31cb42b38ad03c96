import Mathlib.Order.Basic
import Mathlib.Data.String.Basic

/-!
# Sorted maps

An association list in the order of its keys, each key once. Inserting and erasing keep the order,
and a lookup after them is the lookup of a map.
-/

structure SortedMap (κ α : Type) [LT κ] where
  entries : List (κ × α)
  sorted : entries.Pairwise fun a b => a.1 < b.1

namespace SortedMap

variable {κ α : Type} [LinearOrder κ] {k j : κ} {v : α} {l : List (κ × α)}

def empty : SortedMap κ α := ⟨[], .nil⟩

instance : Inhabited (SortedMap κ α) := ⟨empty⟩

theorem ext {m m' : SortedMap κ α} (h : m.entries = m'.entries) : m = m' := by
  cases m
  cases m'
  congr

def get? (m : SortedMap κ α) (k : κ) : Option α := (m.entries.find? fun e => decide (e.1 = k)).map (·.2)

@[simp] theorem get?_empty : (empty : SortedMap κ α).get? k = none := rfl

/-! ## Inserting -/

@[grind =] def insertEntry (k : κ) (v : α) : List (κ × α) → List (κ × α)
  | [] => [(k, v)]
  | e :: l => if k < e.1 then (k, v) :: e :: l else if k = e.1 then (k, v) :: l else e :: insertEntry k v l

theorem mem_insertEntry {e : κ × α} (h : e ∈ insertEntry k v l) : e = (k, v) ∨ e ∈ l := by
  induction l with
  | nil => exact .inl (by simpa [insertEntry] using h)
  | cons d l ih =>
      unfold insertEntry at h
      split at h
      · exact List.mem_cons.1 h
      · split at h
        · exact (List.mem_cons.1 h).imp id fun h => List.mem_cons_of_mem _ h
        · rcases List.mem_cons.1 h with rfl | h
          · exact .inr List.mem_cons_self
          · exact (ih h).imp id (List.mem_cons_of_mem _)

theorem pairwise_insertEntry (h : l.Pairwise fun a b => a.1 < b.1) :
    (insertEntry k v l).Pairwise fun a b => a.1 < b.1 := by
  induction l with
  | nil => exact List.pairwise_singleton _ _
  | cons d l ih =>
      obtain ⟨hd, hl⟩ := List.pairwise_cons.1 h
      unfold insertEntry
      split
      · next hk =>
        refine List.pairwise_cons.2 ⟨fun e he => ?_, h⟩
        rcases List.mem_cons.1 he with rfl | he
        · exact hk
        · exact hk.trans (hd e he)
      · next hk =>
        split
        · next hkd => exact List.pairwise_cons.2 ⟨fun e he => hkd ▸ hd e he, hl⟩
        · next hkd =>
          refine List.pairwise_cons.2 ⟨fun e he => ?_, ih hl⟩
          rcases mem_insertEntry he with rfl | he
          · exact lt_of_le_of_ne (not_lt.1 hk) (Ne.symm hkd)
          · exact hd e he

def insert (m : SortedMap κ α) (k : κ) (v : α) : SortedMap κ α :=
  ⟨insertEntry k v m.entries, pairwise_insertEntry m.sorted⟩

theorem get?_insert (m : SortedMap κ α) (k j : κ) (v : α) :
    (m.insert k v).get? j = if k = j then some v else m.get? j := by
  obtain ⟨l, hl⟩ := m
  unfold get? insert
  dsimp only
  clear hl
  induction l with
  | nil => by_cases h : k = j <;> simp [insertEntry, h]
  | cons d l ih =>
      unfold insertEntry
      split
      · by_cases h : k = j <;> simp [h]
      · split
        · next hd => by_cases h : k = j <;> simp [h, ← hd]
        · next hd =>
          by_cases hj : d.1 = j
          · have hkj : k ≠ j := fun h => hd (h.trans hj.symm)
            simp [hj, hkj]
          · simpa [hj] using ih

/-! ## Erasing -/

def erase (m : SortedMap κ α) (k : κ) : SortedMap κ α :=
  ⟨m.entries.filter fun e => !decide (e.1 = k), m.sorted.filter _⟩

theorem get?_erase (m : SortedMap κ α) (k j : κ) : (m.erase k).get? j = if k = j then none else m.get? j := by
  obtain ⟨l, hl⟩ := m
  unfold get? erase
  dsimp only
  clear hl
  induction l with
  | nil => by_cases h : k = j <;> simp [h]
  | cons d l ih =>
      by_cases hd : d.1 = k
      · rw [List.filter_cons_of_neg (by simp [hd]), ih]
        by_cases h : k = j
        · rw [if_pos h, if_pos h]
        · rw [List.find?_cons_of_neg (by simpa [hd] using h)]
      · rw [List.filter_cons_of_pos (by simp [hd])]
        by_cases hj : d.1 = j
        · have hkj : k ≠ j := fun h => hd (hj.trans h.symm)
          rw [List.find?_cons_of_pos (by simpa using hj), List.find?_cons_of_pos (by simpa using hj), if_neg hkj]
        · rw [List.find?_cons_of_neg (by simpa using hj), List.find?_cons_of_neg (by simpa using hj), ih]

/-! ## Entries -/

theorem mem_entries {m : SortedMap κ α} {k : κ} {v : α} : (k, v) ∈ m.entries ↔ m.get? k = some v := by
  obtain ⟨l, hl⟩ := m
  unfold get?
  dsimp only
  induction l with
  | nil => simp
  | cons d l ih =>
      rw [List.pairwise_cons] at hl
      by_cases hd : d.1 = k
      · rw [List.find?_cons_of_pos (by simpa using hd), Option.map_some, Option.some.injEq, List.mem_cons]
        constructor
        · rintro (rfl | hmem)
          · rfl
          · exact absurd (hl.1 _ hmem) (by simp [hd])
        · rintro rfl
          exact .inl (by rw [← hd])
      · rw [List.find?_cons_of_neg (by simpa using hd), ← ih hl.2, List.mem_cons]
        exact or_iff_right fun he => hd (by rw [← he])

theorem nodup_keys (m : SortedMap κ α) : (m.entries.map (·.1)).Nodup :=
  List.pairwise_map.2 (m.sorted.imp fun h => h.ne)

end SortedMap
