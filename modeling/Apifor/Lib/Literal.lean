import Apifor.Lib.Json

/-!
# Literals under a scan

What a search for the next quote, with `\/` read as a slash afterwards, gets out of a string literal of JSON; and
where in the text of an object the values of its members stand.
-/

namespace Text

variable {cs : List Char}

/-- The text begins with `x`, some of its slashes escaped and nothing else, and a quote. -/
inductive Spells : List Char → List Char → Prop
  | close {cs : List Char} : Spells [] ('"' :: cs)
  | slash {x cs : List Char} : Spells x cs → Spells ('/' :: x) ('\\' :: '/' :: cs)
  | char {c : Char} {x cs : List Char} :
      c ≠ '"' → (c = '\\' → cs.head? ≠ some '/') → Spells x cs → Spells (c :: x) (c :: cs)

theorem mem_of_upToChar {c : Char} {r : List Char} (h : upToChar c cs = some r) : c ∉ r := by
  induction cs generalizing r with
  | nil => cases h
  | cons d ds ih =>
      rw [upToChar] at h
      split at h
      · cases h
        exact List.not_mem_nil
      · next hne =>
          obtain ⟨q, hq, rfl⟩ := Option.map_eq_some_iff.1 h
          rw [List.mem_cons, not_or]
          exact ⟨Ne.symm hne, ih hq⟩

theorem upToChar_cons {c d : Char} {r : List Char} (hne : d ≠ c) (h : upToChar c cs = some r) :
    upToChar c (d :: cs) = some (d :: r) := by
  rw [upToChar, if_neg hne, h]
  rfl

theorem upToChar_append {c : Char} {r h : List Char} (hc : c ∉ h) (hr : upToChar c cs = some r) :
    upToChar c (h ++ cs) = some (h ++ r) := by
  induction h with
  | nil => exact hr
  | cons d h ih =>
      rw [List.mem_cons, not_or] at hc
      exact upToChar_cons (Ne.symm hc.1) (ih hc.2)

theorem head?_upToChar {c d : Char} {r : List Char} (h : upToChar c cs = some r) (hd : cs.head? ≠ some d) :
    r.head? ≠ some d := by
  cases cs with
  | nil => cases h
  | cons e es =>
      rw [upToChar] at h
      split at h
      · cases h
        exact nofun
      · obtain ⟨q, -, rfl⟩ := Option.map_eq_some_iff.1 h
        exact hd

theorem unescapeSlashes_cons {c : Char} {r : List Char} (h : c = '\\' → r.head? ≠ some '/') :
    unescapeSlashes (c :: r) = c :: unescapeSlashes r := by
  rw [unescapeSlashes]
  rintro cs rfl rfl
  exact h rfl rfl

theorem mem_unescapeSlashes {c : Char} {r : List Char} (h : c ∈ unescapeSlashes r) : c ∈ r := by
  induction r using unescapeSlashes.induct with
  | case1 cs ih =>
      rw [unescapeSlashes] at h
      cases h with
      | head => simp
      | tail _ h => simp [ih h]
  | case2 d cs hne ih =>
      rw [unescapeSlashes] at h
      · cases h with
        | head => simp
        | tail _ h => simp [ih h]
      · exact hne
  | case3 => simp [unescapeSlashes] at h

theorem length_unescapeSlashes_cons (c : Char) (r : List Char) :
    (unescapeSlashes r).length ≤ (unescapeSlashes (c :: r)).length := by
  by_cases h : c = '\\' → r.head? ≠ some '/'
  · rw [unescapeSlashes_cons h]
    simp
  · simp only [Classical.not_imp, Classical.not_not] at h
    obtain ⟨rfl, hr⟩ := h
    cases r with
    | nil => cases hr
    | cons d r =>
        cases hr
        have heq : unescapeSlashes ('/' :: r) = unescapeSlashes ('\\' :: '/' :: r) := by
          rw [unescapeSlashes_cons (c := '/') (by simp), unescapeSlashes]
        exact Nat.le_of_eq (congrArg List.length heq)

theorem length_unescapeSlashes_append (h r : List Char) :
    (unescapeSlashes r).length ≤ (unescapeSlashes (h ++ r)).length := by
  induction h with
  | nil => exact Nat.le_refl _
  | cons c h ih => exact Nat.le_trans ih (length_unescapeSlashes_cons c _)

theorem of_upToChar_cons {c d : Char} {r : List Char} (h : upToChar c cs = some (d :: r)) :
    ∃ ds, cs = d :: ds ∧ d ≠ c ∧ upToChar c ds = some r := by
  cases cs with
  | nil => cases h
  | cons e es =>
      rw [upToChar] at h
      split at h
      · cases h
      · next hne =>
          obtain ⟨q, hq, h⟩ := Option.map_eq_some_iff.1 h
          cases h
          exact ⟨es, rfl, hne, hq⟩

theorem of_upToChar_nil {c : Char} (h : upToChar c cs = some []) : ∃ ds, cs = c :: ds := by
  cases cs with
  | nil => cases h
  | cons e es =>
      by_cases he : e = c
      · exact ⟨es, he ▸ rfl⟩
      · rw [upToChar, if_neg he] at h
        obtain ⟨q, -, h⟩ := Option.map_eq_some_iff.1 h
        cases h

theorem spells_of_upToChar {r : List Char} (h : upToChar '"' cs = some r) : Spells (unescapeSlashes r) cs := by
  induction r using unescapeSlashes.induct generalizing cs with
  | case1 r ih =>
      obtain ⟨ds, rfl, -, h⟩ := of_upToChar_cons h
      obtain ⟨ds, rfl, -, h⟩ := of_upToChar_cons h
      exact .slash (ih h)
  | case2 c r hne ih =>
      obtain ⟨ds, rfl, hc, h⟩ := of_upToChar_cons h
      rw [unescapeSlashes]
      · refine .char hc (fun hback hslash => ?_) (ih h)
        cases ds with
        | nil => cases hslash
        | cons d ds =>
            cases hslash
            rw [upToChar, if_neg (by decide)] at h
            obtain ⟨q, -, rfl⟩ := Option.map_eq_some_iff.1 h
            exact hne q hback rfl
      · exact hne
  | case3 =>
      obtain ⟨ds, rfl⟩ := of_upToChar_nil h
      exact .close

/-- What stands before the next quote is, slashes unescaped, what is spelled there. -/
theorem spells_iff {x : List Char} : Spells x cs ↔ (upToChar '"' cs).map unescapeSlashes = some x := by
  constructor
  · intro h
    induction h with
    | close => rfl
    | slash _ ih =>
        rw [upToChar, if_neg (by decide), upToChar, if_neg (by decide)]
        obtain ⟨r, hr, rfl⟩ := Option.map_eq_some_iff.1 ih
        rw [hr]
        rfl
    | char hne hback _ ih =>
        obtain ⟨r, hr, rfl⟩ := Option.map_eq_some_iff.1 ih
        rw [upToChar_cons hne hr, Option.map_some, unescapeSlashes_cons fun h => head?_upToChar hr (hback h)]
  · intro h
    obtain ⟨r, hr, rfl⟩ := Option.map_eq_some_iff.1 h
    exact spells_of_upToChar hr

end Text

namespace Json

open Text

/-! ## Literals without other escapes -/

variable {n : Nat} {cs x rest : List Char}

/-- The literal up to the next quote has no escape but `\/`, and `\\` before a slash. -/
@[grind =] def slashesOnly : List Char → Bool
  | '"' :: _ => true
  | '\\' :: '/' :: cs => slashesOnly cs
  | '\\' :: '\\' :: '/' :: cs => slashesOnly cs
  | '\\' :: _ => false
  | _ :: cs => slashesOnly cs
  | [] => false

theorem hex4_consumes {d : Nat} (h : hex4 cs = some (d, rest)) : ∃ t, cs = t ++ rest ∧ '"' ∉ t := by
  have hdigit : ∀ {c : Char} {d : Nat}, hexVal c = some d → '"' ≠ c := by
    rintro c d hd rfl
    cases hd
  unfold hex4 at h
  split at h
  · next a b c d cs =>
      obtain ⟨_, ha, h⟩ := Option.bind_eq_some_iff.1 h
      obtain ⟨_, hb, h⟩ := Option.bind_eq_some_iff.1 h
      obtain ⟨_, hc, h⟩ := Option.bind_eq_some_iff.1 h
      obtain ⟨_, hd, h⟩ := Option.bind_eq_some_iff.1 h
      cases h
      exact ⟨[a, b, c, d], rfl, by simp [hdigit ha, hdigit hb, hdigit hc, hdigit hd]⟩
  · cases h

/-- What a `\u` escape reads has no quote in it. -/
theorem unicodeEscape_consumes {c : Char} (h : unicodeEscape cs = some (c, rest)) :
    ∃ t, cs = t ++ rest ∧ '"' ∉ t := by
  obtain ⟨⟨hi, cs'⟩, hhi, hread⟩ := Option.bind_eq_some_iff.1 h
  obtain ⟨t, hcs, ht⟩ := hex4_consumes hhi
  subst hcs
  clear h
  dsimp only at hread
  split at hread
  · split at hread
    · next cs' =>
        split at hread
        · next lo cs' hlo =>
            obtain ⟨t', hcs, ht'⟩ := hex4_consumes hlo
            subst hcs
            split at hread
            · obtain ⟨-, rfl⟩ := Prod.mk.inj (Option.some.inj hread)
              exact ⟨t ++ '\\' :: 'u' :: t', by simp, by simp [ht, ht']⟩
            · cases hread
              exact ⟨t, rfl, ht⟩
        · cases hread
          exact ⟨t, rfl, ht⟩
    · cases hread
      exact ⟨t, rfl, ht⟩
  · cases hread
    exact ⟨t, rfl, ht⟩

theorem stringBody_nil (n : Nat) : stringBody n [] = none := by cases n <;> rfl

/-- A literal without quotes in it is at least as long, slashes unescaped, as what it stands for. -/
theorem stringBody_length (h : stringBody n cs = some (x, rest)) (hx : '"' ∉ x) :
    ∃ r, Text.upToChar '"' cs = some r ∧ x.length ≤ (Text.unescapeSlashes r).length := by
  induction n generalizing cs x rest with
  | zero => cases h
  | succ n ih =>
      unfold stringBody at h
      split at h
      · cases h
      · cases h
        exact ⟨[], rfl, Nat.zero_le _⟩
      · next cs =>
          obtain ⟨⟨c, cs'⟩, hc, h⟩ := Option.bind_eq_some_iff.1 h
          obtain ⟨⟨x, cs''⟩, hs, h⟩ := Option.bind_eq_some_iff.1 h
          cases h
          rw [List.mem_cons, not_or] at hx
          obtain ⟨r, hr, hlen⟩ := ih hs hx.2
          obtain ⟨t, rfl, ht⟩ := unicodeEscape_consumes hc
          have happ := length_unescapeSlashes_append t r
          have hall := upToChar_cons (d := '\\') (by decide)
            (upToChar_cons (d := 'u') (by decide) (upToChar_append ht hr))
          refine ⟨_, hall, ?_⟩
          rw [unescapeSlashes_cons (by simp), unescapeSlashes_cons (by simp)]
          simp only [List.length_cons]
          omega
      · next e cs _ =>
          obtain ⟨c, hc, h⟩ := Option.bind_eq_some_iff.1 h
          obtain ⟨⟨x, cs''⟩, hs, h⟩ := Option.bind_eq_some_iff.1 h
          cases h
          rw [List.mem_cons, not_or] at hx
          obtain ⟨r, hr, hlen⟩ := ih hs hx.2
          have hquote : e ≠ '"' := by
            rintro rfl
            cases hc
            exact hx.1 rfl
          refine ⟨'\\' :: e :: r, upToChar_cons (by decide) (upToChar_cons hquote hr), ?_⟩
          by_cases hslash : e = '/'
          · subst hslash
            rw [Text.unescapeSlashes]
            simpa using hlen
          · have hcons := length_unescapeSlashes_cons e r
            rw [unescapeSlashes_cons (by simpa using hslash)]
            simp only [List.length_cons]
            omega
      · next c cs hquote _ hback =>
          split at h
          · cases h
          · obtain ⟨⟨x, cs'⟩, hs, h⟩ := Option.bind_eq_some_iff.1 h
            cases h
            rw [List.mem_cons, not_or] at hx
            obtain ⟨r, hr, hlen⟩ := ih hs hx.2
            have hc : c ≠ '\\' := fun hc => by
              cases cs with
              | nil =>
                  rw [stringBody_nil] at hs
                  cases hs
              | cons e cs => exact hback e cs hc rfl
            refine ⟨c :: r, upToChar_cons (Ne.symm hx.1) hr, ?_⟩
            rw [unescapeSlashes_cons fun h => absurd h hc]
            simpa using hlen

/-- The literal is right, slashes unescaped, just when nothing else is escaped in it. -/
theorem stringBody_slashesOnly (h : stringBody n cs = some (x, rest)) :
    (Text.upToChar '"' cs).map Text.unescapeSlashes = some x ↔ slashesOnly cs = true := by
  induction n generalizing cs x rest with
  | zero => cases h
  | succ n ih =>
      -- a text longer than the value, or without its quotes, is not the value
      have hne : ∀ {y : List Char},
          (∀ s, Text.upToChar '"' cs = some s → '"' ∉ y → y.length < (Text.unescapeSlashes s).length) →
          (Text.upToChar '"' cs).map Text.unescapeSlashes ≠ some y := by
        intro y hlen heq
        obtain ⟨s, hs, rfl⟩ := Option.map_eq_some_iff.1 heq
        exact Nat.lt_irrefl _ (hlen s hs fun hq => mem_of_upToChar hs (mem_unescapeSlashes hq))
      unfold stringBody at h
      split at h
      · cases h
      · cases h
        exact iff_of_true rfl rfl
      · next cs =>
          obtain ⟨⟨c, cs'⟩, hc, h⟩ := Option.bind_eq_some_iff.1 h
          obtain ⟨⟨x, cs''⟩, hs, h⟩ := Option.bind_eq_some_iff.1 h
          cases h
          obtain ⟨t, rfl, ht⟩ := unicodeEscape_consumes hc
          refine iff_of_false (hne fun s hs' hx => ?_) Bool.false_ne_true
          rw [List.mem_cons, not_or] at hx
          obtain ⟨r, hr, hlen⟩ := stringBody_length hs hx.2
          have hall := upToChar_cons (c := '"') (d := '\\') (by decide)
            (upToChar_cons (d := 'u') (by decide) (upToChar_append ht hr))
          cases hall.symm.trans hs'
          have happ := length_unescapeSlashes_append t r
          rw [unescapeSlashes_cons (by simp), unescapeSlashes_cons (by simp)]
          simp only [List.length_cons]
          omega
      · next e cs _ =>
          obtain ⟨c, hc, h⟩ := Option.bind_eq_some_iff.1 h
          obtain ⟨⟨x, cs''⟩, hs, h⟩ := Option.bind_eq_some_iff.1 h
          cases h
          by_cases hquote : e = '"'
          · subst hquote
            cases hc
            refine iff_of_false (fun heq => ?_) Bool.false_ne_true
            cases heq
          · by_cases hslash : e = '/'
            · subst hslash
              cases hc
              rw [show slashesOnly ('\\' :: '/' :: cs) = slashesOnly cs from rfl, ← ih hs, Text.upToChar,
                if_neg (by decide), Text.upToChar, if_neg hquote]
              cases Text.upToChar '"' cs with
              | none => simp
              | some r => simp [Text.unescapeSlashes]
            · have hlong : cs.head? ≠ some '/' ∨ e ≠ '\\' → (Text.upToChar '"' ('\\' :: e :: cs)).map
                  Text.unescapeSlashes ≠ some (c :: x) := fun h => hne fun s hs' hx => by
                rw [List.mem_cons, not_or] at hx
                obtain ⟨r, hr, hlen⟩ := stringBody_length hs hx.2
                cases (upToChar_cons (by decide) (upToChar_cons hquote hr)).symm.trans hs'
                rw [unescapeSlashes_cons (by simpa using hslash), unescapeSlashes_cons fun he => ?_]
                · simp only [List.length_cons]
                  omega
                · exact head?_upToChar hr (h.resolve_right (not_not_intro he))
              by_cases hback : e = '\\'
              · subst hback
                cases hc
                cases cs with
                | nil =>
                    rw [stringBody_nil] at hs
                    cases hs
                | cons d cs =>
                    by_cases hd : d = '/'
                    · subst hd
                      rw [show slashesOnly ('\\' :: '\\' :: '/' :: cs) = slashesOnly ('/' :: cs) from rfl, ← ih hs,
                        Text.upToChar, if_neg (by decide), Text.upToChar, if_neg (by decide), Text.upToChar,
                        if_neg (by decide)]
                      cases Text.upToChar '"' cs with
                      | none => simp
                      | some r => simp [Text.unescapeSlashes]
                    · refine iff_of_false (hlong (.inl (by simpa using hd))) ?_
                      rw [slashesOnly]
                      · exact Bool.false_ne_true
                      · simp
                      · simpa using hd
              · refine iff_of_false (hlong (.inr hback)) ?_
                rw [slashesOnly]
                · exact Bool.false_ne_true
                · simpa using hslash
                · exact fun cs he => absurd (List.cons.inj he).1 hback
      · next c cs hquote _ hback =>
          split at h
          · cases h
          · obtain ⟨⟨x, cs'⟩, hs, h⟩ := Option.bind_eq_some_iff.1 h
            cases h
            have hc : c ≠ '\\' := fun hc => by
              cases cs with
              | nil =>
                  rw [stringBody_nil] at hs
                  cases hs
              | cons e cs => exact hback e cs hc rfl
            have hplain : slashesOnly (c :: cs) = slashesOnly cs := by
              rw [slashesOnly]
              · exact hquote
              · exact fun cs h => absurd h hc
              · exact fun cs h => absurd h hc
              · exact fun h => absurd h hc
            rw [hplain, ← ih hs, Text.upToChar, if_neg hquote]
            cases hr : Text.upToChar '"' cs with
            | none => simp
            | some r => simp [unescapeSlashes_cons fun h => absurd h hc]

/-! ## Where the values of the members stand -/

/-- The texts that begin with the values of an object's members. -/
@[grind =] def valueTexts (value : List Char → Option (Json × List Char)) : Nat → List Char → List (List Char)
  | 0, _ => []
  | n + 1, cs =>
      match skipWs cs with
      | '"' :: cs =>
          match stringBody (cs.length + 1) cs with
          | some (_, cs) =>
              match skipWs cs with
              | ':' :: cs =>
                  skipWs cs ::
                    match value (skipWs cs) with
                    | some (_, cs) =>
                        match skipWs cs with
                        | ',' :: cs => valueTexts value n cs
                        | _ => []
                    | none => []
              | _ => []
          | none => []
      | _ => []

/-- Each member's value is what is read from its text. -/
theorem members_valueTexts {v : List Char → Option (Json × List Char)} {n : Nat} {cs rest : List Char}
    {ms : List (String × Json)} (h : members v n cs = some (ms, rest)) {i : Nat} {k : String} {x : Json}
    (hi : ms[i]? = some (k, x)) :
    ∃ t r, (valueTexts v n cs)[i]? = some t ∧ v t = some (x, r) := by
  induction n generalizing cs ms rest i with
  | zero => cases h
  | succ n ih =>
      unfold members at h
      split at h
      · next cs hquote =>
          obtain ⟨⟨name, cs⟩, hname, h⟩ := Option.bind_eq_some_iff.1 h
          dsimp only at h
          split at h
          · next cs hcolon =>
              obtain ⟨⟨y, cs⟩, hy, h⟩ := Option.bind_eq_some_iff.1 h
              dsimp only at h
              simp only [valueTexts, hquote, hname, hcolon, hy]
              cases i with
              | zero =>
                  have hyx : y = x := by
                    split at h
                    · obtain ⟨r, -, h⟩ := Option.bind_eq_some_iff.1 h
                      cases h
                      cases hi
                      rfl
                    · cases h
                      cases hi
                      rfl
                    · cases h
                  exact ⟨_, cs, rfl, hyx ▸ hy⟩
              | succ i =>
                  split at h
                  · next cs hcomma =>
                      obtain ⟨⟨ms', rest'⟩, hms, h⟩ := Option.bind_eq_some_iff.1 h
                      cases h
                      simp only [hcomma]
                      exact ih hms hi
                  · cases h
                    cases hi
                  · cases h
          · cases h
      · cases h

end Json
