import Mathlib.Tactic.Basic

/-!
# Text

The string operations of Go's `strings` that a kernel can evaluate: they go through the list of
characters of a string.
-/

namespace Text

/-- `unicode.IsSpace`. -/
def isSpace (c : Char) : Bool :=
  [0x09, 0x0a, 0x0b, 0x0c, 0x0d, 0x20, 0x85, 0xa0, 0x1680, 0x2028, 0x2029, 0x202f, 0x205f, 0x3000].contains
    c.toNat || (0x2000 ≤ c.toNat && c.toNat ≤ 0x200a)

@[grind =] def trimLeft (p : Char → Bool) : List Char → List Char
  | [] => []
  | c :: cs => if p c then trimLeft p cs else c :: cs

def trimChars (p : Char → Bool) (cs : List Char) : List Char :=
  (trimLeft p (trimLeft p cs).reverse).reverse

def trimSpace (s : String) : String := String.ofList (trimChars isSpace s.toList)

def hasPrefix (s pre : String) : Bool := pre.toList.isPrefixOf s.toList

def hasSuffix (s suf : String) : Bool := suf.toList.isSuffixOf s.toList

@[grind =] def trimPrefix (s pre : String) : String :=
  if hasPrefix s pre then String.ofList (s.toList.drop pre.length) else s

@[grind =] def trimSuffix (s suf : String) : String :=
  if hasSuffix s suf then String.ofList (s.toList.take (s.length - suf.length)) else s

@[grind =] def asciiLower (c : Char) : Char := if 'A' ≤ c ∧ c ≤ 'Z' then Char.ofNat (c.toNat + 32) else c

/-- `str::to_ascii_lowercase`. -/
def toAsciiLowercase (s : String) : String := String.ofList (s.toList.map asciiLower)

/-- `strings.Split` on one character. -/
@[grind =] def splitChars (sep : Char) : List Char → List (List Char)
  | [] => [[]]
  | c :: cs =>
      if c = sep then [] :: splitChars sep cs
      else
        match splitChars sep cs with
        | [] => [[c]]
        | w :: ws => (c :: w) :: ws

def split (s : String) (sep : Char) : List String := (splitChars sep s.toList).map String.ofList

@[grind =] def join (sep : String) : List String → String
  | [] => ""
  | [s] => s
  | s :: ss => s ++ sep ++ join sep ss

/-- `strings.SplitN(s, sep, 2)` on one character; `none` is a text without it. -/
@[grind =] def cutChars (sep : Char) : List Char → Option (List Char × List Char)
  | [] => none
  | c :: cs => if c = sep then some ([], cs) else (cutChars sep cs).map fun q => (c :: q.1, q.2)

def cut (s : String) (sep : Char) : Option (String × String) :=
  (cutChars sep s.toList).map fun q => (String.ofList q.1, String.ofList q.2)

/-- What follows the first occurrence of a pattern. -/
@[grind =] def afterChars (pat : List Char) : List Char → Option (List Char)
  | [] => if pat.isEmpty then some [] else none
  | c :: cs => if pat.isPrefixOf (c :: cs) then some ((c :: cs).drop pat.length) else afterChars pat cs

/-- What precedes the first occurrence of a character. -/
@[grind =] def upToChar (c : Char) : List Char → Option (List Char)
  | [] => none
  | d :: ds => if d = c then some [] else (upToChar c ds).map (d :: ·)

/-- The text between the first occurrence of `pat` and the next `stop`. -/
def between (s pat : String) (stop : Char) : Option (Option String) :=
  (afterChars pat.toList s.toList).map fun rest => (upToChar stop rest).map String.ofList

/-- `strings.ReplaceAll(s, "\\/", "/")`. -/
@[grind =] def unescapeSlashes : List Char → List Char
  | '\\' :: '/' :: cs => '/' :: unescapeSlashes cs
  | c :: cs => c :: unescapeSlashes cs
  | [] => []

/-! ## Splitting -/

variable {sep : Char} {cs ds w : List Char}

theorem splitChars_ne_nil : splitChars sep cs ≠ [] := by
  cases cs with
  | nil => simp [splitChars]
  | cons c cs =>
      rw [splitChars]
      split
      · simp
      · split <;> simp

theorem splitChars_append_sep (cs ds : List Char) :
    splitChars sep (cs ++ sep :: ds) = splitChars sep cs ++ splitChars sep ds := by
  induction cs with
  | nil => simp [splitChars]
  | cons c cs ih =>
      rw [List.cons_append, splitChars, splitChars]
      by_cases hc : c = sep
      · rw [if_pos hc, if_pos hc, ih]
        rfl
      · rw [if_neg hc, if_neg hc, ih]
        cases hs : splitChars sep cs with
        | nil => exact absurd hs splitChars_ne_nil
        | cons v vs => rfl

theorem splitChars_of_notMem (h : sep ∉ cs) : splitChars sep cs = [cs] := by
  induction cs with
  | nil => rfl
  | cons c cs ih =>
      rw [List.mem_cons, not_or] at h
      rw [splitChars, if_neg (Ne.symm h.1), ih h.2]

theorem prefix_of_splitChars {ws : List (List Char)} (h : splitChars sep cs = w :: ws) : w <+: cs := by
  induction cs generalizing w ws with
  | nil =>
      cases h
      exact List.prefix_rfl
  | cons c cs ih =>
      rw [splitChars] at h
      split at h
      · cases h
        exact List.nil_prefix
      · cases hs : splitChars sep cs with
        | nil => exact absurd hs splitChars_ne_nil
        | cons v vs =>
            rw [hs] at h
            cases h
            exact List.cons_prefix_cons.2 ⟨rfl, ih hs⟩

/-- What stands between two separators is a piece of the text. -/
theorem infix_of_mem_splitChars (h : w ∈ splitChars sep cs) : w <:+: cs := by
  induction cs generalizing w with
  | nil =>
      rw [splitChars, List.mem_singleton] at h
      exact h ▸ List.nil_infix
  | cons c cs ih =>
      have hcons : cs <:+: c :: cs := (List.suffix_cons c cs).isInfix
      cases hs : splitChars sep (c :: cs) with
      | nil => exact absurd hs splitChars_ne_nil
      | cons v vs =>
          rw [hs] at h
          rcases List.mem_cons.1 h with rfl | hvs
          · exact (prefix_of_splitChars hs).isInfix
          · rw [splitChars] at hs
            split at hs
            · cases hs
              exact (ih hvs).trans hcons
            · cases hs' : splitChars sep cs with
              | nil => exact absurd hs' splitChars_ne_nil
              | cons v' vs' =>
                  rw [hs'] at hs
                  cases hs
                  exact (ih (hs' ▸ List.mem_cons_of_mem _ hvs)).trans hcons

/-! ## Trimming and cutting -/

theorem trimLeft_of_head {p : Char → Bool} {c : Char} (h : p c = false) (cs : List Char) :
    trimLeft p (c :: cs) = c :: cs := by simp [trimLeft, h]

/-- A text without blanks is trimmed to itself. -/
theorem trimChars_of_forall {p : Char → Bool} (h : ∀ c ∈ cs, p c = false) : trimChars p cs = cs := by
  have hleft : ∀ ds : List Char, (∀ c ∈ ds, p c = false) → trimLeft p ds = ds := by
    intro ds hds
    cases ds with
    | nil => rfl
    | cons d ds => exact trimLeft_of_head (hds d List.mem_cons_self) ds
  rw [trimChars, hleft cs h, hleft cs.reverse fun c hc => h c (List.mem_reverse.1 hc), List.reverse_reverse]

theorem cutChars_append (h : sep ∉ cs) (ds : List Char) : cutChars sep (cs ++ sep :: ds) = some (cs, ds) := by
  induction cs with
  | nil => simp [cutChars]
  | cons c cs ih =>
      rw [List.mem_cons, not_or] at h
      simp [cutChars, Ne.symm h.1, ih h.2]

end Text
