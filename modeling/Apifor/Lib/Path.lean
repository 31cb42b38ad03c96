import Apifor.Lib.Text

/-!
# Paths

A path as the names between its slashes. An empty name and a dot stand for the directory itself, so that
they do not count; nothing is resolved.
-/

namespace Path

open Text

def isAbsolute (p : String) : Bool := hasPrefix p "/"

def names (p : String) : List (List Char) := (splitChars '/' p.toList).filter fun n => n ≠ [] && n ≠ ['.']

/-- The path leads from the directory downwards. -/
structure Under (dir p : String) : Prop where
  root : isAbsolute p = isAbsolute dir
  names : ∃ l, names p = names dir ++ l ∧ ['.', '.'] ∉ l

/-- The path is an entry of the directory. -/
structure Inside (dir p : String) : Prop where
  root : isAbsolute p = isAbsolute dir
  names : ∃ n, names p = names dir ++ [n] ∧ n ≠ ['.', '.']

/-! ## Names of longer paths -/

theorem names_append_slash (dir p : String) : names (dir ++ "/" ++ p) = names dir ++ names p := by
  have hlist : (dir ++ "/" ++ p).toList = dir.toList ++ '/' :: p.toList := by
    rw [String.toList_append, String.toList_append, List.append_assoc]
    rfl
  rw [names, hlist, splitChars_append_sep, List.filter_append]
  rfl

/-- A trailing slash adds no name. -/
theorem names_slash (dir : String) : names (dir ++ "/") = names dir := by
  have h := names_append_slash dir ""
  rwa [String.append_empty, show names "" = [] from rfl, List.append_nil] at h

theorem names_of_notMem {p : String} (h : '/' ∉ p.toList) (hne : p ≠ "") (hdot : p ≠ ".") : names p = [p.toList] := by
  rw [names, splitChars_of_notMem h, List.filter_cons_of_pos]
  · rfl
  · have hnil : p.toList ≠ [] := fun he => hne (String.toList_inj.1 he)
    have hone : p.toList ≠ ['.'] := fun he => hdot (String.toList_inj.1 he)
    simp [hnil, hone]

/-- Nothing leads upwards in a text without two dots. -/
theorem dots_notMem {p : String} (h : ¬ ['.', '.'] <:+: p.toList) : ['.', '.'] ∉ names p := fun hmem =>
  h (infix_of_mem_splitChars (List.mem_filter.1 hmem).1)

theorem isAbsolute_of_notMem {p : String} (h : '/' ∉ p.toList) : isAbsolute p = false := by
  rw [isAbsolute, hasPrefix]
  cases hp : p.toList with
  | nil => rfl
  | cons x xs =>
      have hx : '/' ≠ x := fun he => h (hp ▸ he ▸ List.mem_cons_self)
      show ('/' == x && List.isPrefixOf [] xs) = false
      rw [beq_eq_false_iff_ne.2 hx, Bool.false_and]

theorem isAbsolute_append {dir : String} (h : dir ≠ "") (p : String) : isAbsolute (dir ++ p) = isAbsolute dir := by
  have hnil : dir.toList ≠ [] := fun he => h (String.toList_inj.1 he)
  rw [isAbsolute, isAbsolute, hasPrefix, hasPrefix, String.toList_append]
  cases hd : dir.toList with
  | nil => exact absurd hd hnil
  | cons c cs => rfl

end Path
