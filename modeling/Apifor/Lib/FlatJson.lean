import Apifor.Lib.Serde

/-!
# Flat objects

Objects whose members are texts, lists of texts and booleans: what one of the two libraries writes, the
other one reads.
-/

namespace FlatJson

open Json (skipWs hex4 simpleEscape hexDigit)

/-! ## Values and their texts -/

inductive Flat
  | str (s : String)
  | strs (xs : List String)
  | bool (b : Bool)

@[grind =] def Flat.json : Flat → Json
  | str s => .str s
  | strs xs => .arr (xs.map .str)
  | bool b => .bool b

variable (q : String → String)

@[grind =] def Flat.text : Flat → String
  | str s => q s
  | strs xs => "[" ++ Text.join "," (xs.map q) ++ "]"
  | bool b => if b then "true" else "false"

def memberText (m : String × Flat) : String := q m.1 ++ ":" ++ m.2.text q

def objectText (ms : List (String × Flat)) : String := "\x7b" ++ Text.join "," (ms.map (memberText q)) ++ "\x7d"

def members (ms : List (String × Flat)) : List (String × Json) := ms.map fun m => (m.1, m.2.json)

/-! ## Escapes -/

/-- What a character may be written as between quotes. -/
inductive Escape (c : Char) : List Char → Prop
  | simple (e : Char) (hu : e ≠ 'u') (h : simpleEscape e = some c) : Escape c ['\\', e]
  | unicode (x y z w : Char) (n : Nat) (h : ∀ rest, hex4 (x :: y :: z :: w :: rest) = some (n, rest))
      (hs : ¬ (0xd800 ≤ n ∧ n < 0xe000)) (hc : Char.ofNat n = c) : Escape c ['\\', 'u', x, y, z, w]
  | raw (hq : c ≠ '"') (hb : c ≠ '\\') (hn : 0x20 ≤ c.toNat) : Escape c [c]

variable {c : Char} {w : List Char}

theorem Escape.ne_nil (h : Escape c w) : w ≠ [] := by cases h <;> simp

/-- A reader of `\uXXXX` that leaves what is no surrogate as it is. -/
def Plain (unicode : List Char → Option (Char × List Char)) : Prop :=
  ∀ cs n rest, hex4 cs = some (n, rest) → ¬ (0xd800 ≤ n ∧ n < 0xe000) → unicode cs = some (Char.ofNat n, rest)

theorem plain_json : Plain Json.unicodeEscape := by
  intro cs n rest h hs
  rw [Json.unicodeEscape, h, Option.bind_eq_bind, Option.bind_some]
  exact if_neg hs

theorem plain_serde : Plain Serde.unicodeEscape := by
  intro cs n rest h hs
  rw [Serde.unicodeEscape, h, Option.bind_eq_bind, Option.bind_some]
  exact if_neg hs

variable {unicode : List Char → Option (Char × List Char)}

theorem stringBody_escape (hp : Plain unicode) (h : Escape c w) (n : Nat) (rest : List Char) :
    Serde.stringBody unicode (n + 1) (w ++ rest) =
      (Serde.stringBody unicode n rest).map fun r => (c :: r.1, r.2) := by
  cases h with
  | simple e hu h =>
      rw [List.cons_append, List.cons_append, List.nil_append, Serde.stringBody.eq_def]
      dsimp only
      split
      · next he => cases he
      · next he => cases he
      · next he =>
          cases he
          exact absurd rfl hu
      · next he =>
          cases he
          rw [h]
          cases Serde.stringBody unicode n rest <;> rfl
      · next hne he =>
          cases he
          exact (hne e rest rfl rfl).elim
  | unicode x y z w k h hs hc =>
      have hstep : Serde.stringBody unicode (n + 1) (['\\', 'u', x, y, z, w] ++ rest) =
          (unicode (x :: y :: z :: w :: rest)).bind fun p =>
            (Serde.stringBody unicode n p.2).bind fun r => some (p.1 :: r.1, r.2) := rfl
      rw [hstep, hp _ _ _ (h rest) hs, hc, Option.bind_some]
      cases Serde.stringBody unicode n rest <;> rfl
  | raw hq hb hn =>
      rw [List.cons_append, List.nil_append, Serde.stringBody.eq_def]
      dsimp only
      split
      · next he => cases he
      · next he =>
          cases he
          exact absurd rfl hq
      · next he =>
          cases he
          exact absurd rfl hb
      · next he =>
          cases he
          exact absurd rfl hb
      · next he =>
          cases he
          rw [if_neg (by omega)]
          cases Serde.stringBody unicode n rest <;> rfl

/-- A text in quotes is read back. -/
theorem stringBody_quoted (hp : Plain unicode) {esc : Char → List Char} (hesc : ∀ c, Escape c (esc c)) (cs : List Char)
    (n : Nat) (hn : cs.length < n) (rest : List Char) :
    Serde.stringBody unicode n (cs.flatMap esc ++ '"' :: rest) = some (cs, rest) := by
  induction cs generalizing n with
  | nil =>
      obtain ⟨n, rfl⟩ := Nat.exists_eq_succ_of_ne_zero (Nat.ne_of_gt hn)
      rfl
  | cons c cs ih =>
      obtain ⟨n, rfl⟩ := Nat.exists_eq_succ_of_ne_zero (Nat.ne_of_gt (Nat.zero_lt_of_lt hn))
      rw [List.flatMap_cons, List.append_assoc, stringBody_escape hp (hesc c), ih n (by simpa using hn)]
      rfl

theorem length_le_flatMap {esc : Char → List Char} (hesc : ∀ c, Escape c (esc c)) (cs : List Char) :
    cs.length ≤ (cs.flatMap esc).length := by
  induction cs with
  | nil => exact Nat.le_refl 0
  | cons c cs ih =>
      have hpos := List.length_pos_iff.2 (hesc c).ne_nil
      rw [List.flatMap_cons, List.length_append, List.length_cons]
      omega

/-! ## The writers -/

theorem hexVal_hexDigit : ∀ n < 16, Json.hexVal (hexDigit n) = some n := by decide

/-- A control character, or one of the first 256, by its number. -/
theorem escape_hex (h : c.toNat < 256) :
    Escape c ['\\', 'u', '0', '0', hexDigit (c.toNat / 16), hexDigit (c.toNat % 16)] := by
  refine .unicode _ _ _ _ c.toNat (fun rest => ?_) (by omega) (Char.ofNat_toNat c)
  have h0 : Json.hexVal '0' = some 0 := by decide
  rw [hex4, h0, hexVal_hexDigit _ (by omega), hexVal_hexDigit _ (by omega)]
  simp only [Option.bind_eq_bind, Option.bind_some, Option.pure_def, Option.some.injEq, Prod.mk.injEq, and_true]
  omega

theorem escape_of_toNat {n : Nat} (hn : c.toNat = n) (h : Escape (Char.ofNat n) w) : Escape c w := by
  rwa [← Char.ofNat_toNat c, hn]

theorem escape_json (c : Char) : Escape c (Json.escapeChar c) := by
  unfold Json.escapeChar
  dsimp only
  split
  · next h => exact h ▸ .simple '"' (by decide) rfl
  split
  · next h => exact h ▸ .simple '\\' (by decide) rfl
  split
  · next h => exact h ▸ .simple 'n' (by decide) rfl
  split
  · next h => exact h ▸ .simple 'r' (by decide) rfl
  split
  · next h => exact h ▸ .simple 't' (by decide) rfl
  split
  · next h => exact escape_of_toNat h (.simple 'b' (by decide) rfl)
  split
  · next h => exact escape_of_toNat h (.simple 'f' (by decide) rfl)
  split
  · next h =>
      refine escape_hex ?_
      rcases h with h | h | h | h
      · omega
      all_goals
        rw [h]
        decide
  split
  · next h => exact escape_of_toNat h (.unicode _ _ _ _ 0x2028 (fun _ => rfl) (by decide) rfl)
  split
  · next h => exact escape_of_toNat h (.unicode _ _ _ _ 0x2029 (fun _ => rfl) (by decide) rfl)
  · next hq hb _ _ _ _ _ hn _ _ => exact .raw hq hb (by omega)

theorem escape_serde (c : Char) : Escape c (Serde.escapeChar c) := by
  unfold Serde.escapeChar
  dsimp only
  split
  · next h => exact h ▸ .simple '"' (by decide) rfl
  split
  · next h => exact h ▸ .simple '\\' (by decide) rfl
  split
  · next h => exact h ▸ .simple 'n' (by decide) rfl
  split
  · next h => exact h ▸ .simple 'r' (by decide) rfl
  split
  · next h => exact h ▸ .simple 't' (by decide) rfl
  split
  · next h => exact escape_of_toNat h (.simple 'b' (by decide) rfl)
  split
  · next h => exact escape_of_toNat h (.simple 'f' (by decide) rfl)
  split
  · next h => exact escape_hex (by omega)
  · next hq hb _ _ _ _ _ hn => exact .raw hq hb (by omega)

/-- The writer's texts are read by the reader. -/
def Quotes (unicode : List Char → Option (Char × List Char)) (q : String → String) : Prop :=
  ∀ s, ∃ w, (q s).toList = '"' :: w ∧
    ∀ rest, Serde.stringBody unicode ((w ++ rest).length + 1) (w ++ rest) = some (s.toList, rest)

theorem quotes_of_escape (hp : Plain unicode) {esc : Char → List Char} (hesc : ∀ c, Escape c (esc c))
    (hq : ∀ s, q s = "\"" ++ String.ofList (s.toList.flatMap esc) ++ "\"") : Quotes unicode q := by
  intro s
  refine ⟨s.toList.flatMap esc ++ ['"'], ?_, fun rest => ?_⟩
  · rw [hq, String.toList_append, String.toList_append, String.toList_ofList]
    simp
  · have hlen := length_le_flatMap hesc s.toList
    rw [List.append_assoc]
    refine stringBody_quoted hp hesc s.toList _ ?_ rest
    rw [List.length_append]
    omega

theorem quotes_json : Quotes Serde.unicodeEscape Json.quote := quotes_of_escape _ plain_serde escape_json fun _ => rfl

theorem quotes_serde : Quotes Json.unicodeEscape Serde.quote := quotes_of_escape _ plain_json escape_serde fun _ => rfl

/-! ## Lists with commas -/

section Join

variable {α : Type} (f : α → String)

theorem join_cons (x y : α) (ys : List α) (rest : List Char) :
    (Text.join "," ((x :: y :: ys).map f)).toList ++ rest =
      (f x).toList ++ ',' :: ((Text.join "," ((y :: ys).map f)).toList ++ rest) := by
  rw [List.map_cons, List.map_cons, Text.join, String.toList_append, String.toList_append]
  · simp
  · simp

theorem join_head (x : α) (xs : List α) : ∃ more, (Text.join "," ((x :: xs).map f)).toList = (f x).toList ++ more := by
  cases xs with
  | nil => exact ⟨[], (List.append_nil _).symm⟩
  | cons y ys => exact ⟨_, (List.append_nil _).symm.trans (join_cons f x y ys [])⟩

theorem length_le_join (hf : ∀ x, 0 < (f x).toList.length) (x : α) (xs : List α) :
    (x :: xs).length ≤ (Text.join "," ((x :: xs).map f)).toList.length := by
  induction xs generalizing x with
  | nil => exact hf x
  | cons y ys ih =>
      have hlen := congrArg List.length (join_cons f x y ys [])
      have hys := ih y
      simp only [List.append_nil, List.length_append, List.length_cons] at hlen hys ⊢
      omega

end Join

/-! ## One element and one member -/

section Steps

variable {v : List Char → Option (Json × List Char)} {x : Json} {cs rest : List Char}

theorem elements_next (k : Nat) (hx : v (skipWs cs) = some (x, ',' :: rest)) :
    Json.elements v (k + 1) cs = (Json.elements v k rest).map fun r => (x :: r.1, r.2) := by
  have hbind : Json.elements v (k + 1) cs = (Json.elements v k rest).bind fun r => some (x :: r.1, r.2) := by
    rw [Json.elements, hx]
    rfl
  rw [hbind]
  cases Json.elements v k rest <;> rfl

theorem elements_last (k : Nat) (hx : v (skipWs cs) = some (x, ']' :: rest)) :
    Json.elements v (k + 1) cs = some ([x], rest) := by
  rw [Json.elements, hx]
  rfl

theorem members_next {name : List Char} {after : List Char} (k : Nat)
    (hname : Serde.stringBody unicode (cs.length + 1) cs = some (name, ':' :: after))
    (hx : v (skipWs after) = some (x, ',' :: rest)) :
    Serde.members unicode v (k + 1) ('"' :: cs) =
      (Serde.members unicode v k rest).map fun r => ((String.ofList name, x) :: r.1, r.2) := by
  have hws : skipWs ('"' :: cs) = '"' :: cs := rfl
  have hcolon : skipWs (':' :: after) = ':' :: after := rfl
  have hbind : Serde.members unicode v (k + 1) ('"' :: cs) =
      (Serde.members unicode v k rest).bind fun r => some ((String.ofList name, x) :: r.1, r.2) := by
    rw [Serde.members, hws]
    simp only [hname, Option.bind_eq_bind, Option.bind_some, hcolon, hx]
    rfl
  rw [hbind]
  cases Serde.members unicode v k rest <;> rfl

theorem members_last {name : List Char} {after : List Char} (k : Nat)
    (hname : Serde.stringBody unicode (cs.length + 1) cs = some (name, ':' :: after))
    (hx : v (skipWs after) = some (x, '}' :: rest)) :
    Serde.members unicode v (k + 1) ('"' :: cs) = some ([(String.ofList name, x)], rest) := by
  have hws : skipWs ('"' :: cs) = '"' :: cs := rfl
  have hcolon : skipWs (':' :: after) = ':' :: after := rfl
  rw [Serde.members, hws]
  simp only [hname, Option.bind_eq_bind, Option.bind_some, hcolon, hx]
  rfl

end Steps

/-! ## Reading an object -/

section Read

variable {q} (hq : Quotes unicode q)

include hq

theorem value_quoted (s : String) (n : Nat) (rest : List Char) :
    Serde.value unicode (n + 1) ((q s).toList ++ rest) = some (.str s, rest) := by
  obtain ⟨w, hw, hread⟩ := hq s
  have hvalue : Serde.value unicode (n + 1) ('"' :: (w ++ rest)) =
      (Serde.stringBody unicode ((w ++ rest).length + 1) (w ++ rest)).map fun r => (.str (String.ofList r.1), r.2) := rfl
  rw [hw, List.cons_append, hvalue, hread, Option.map_some, String.ofList_toList]

theorem skipWs_quoted (s : String) (rest : List Char) : skipWs ((q s).toList ++ rest) = (q s).toList ++ rest := by
  obtain ⟨w, hw, -⟩ := hq s
  rw [hw]
  rfl

theorem length_quoted (s : String) : 0 < (q s).toList.length := by
  obtain ⟨w, hw, -⟩ := hq s
  rw [hw]
  exact Nat.succ_pos _

theorem elements_quoted (x : String) (xs : List String) (n k : Nat) (hk : xs.length < k) (rest : List Char) :
    Json.elements (Serde.value unicode (n + 1)) k ((Text.join "," ((x :: xs).map q)).toList ++ ']' :: rest) =
      some ((x :: xs).map .str, rest) := by
  induction xs generalizing x k with
  | nil =>
      obtain ⟨k, rfl⟩ := Nat.exists_eq_succ_of_ne_zero (Nat.ne_of_gt hk)
      exact elements_last k ((congrArg _ (skipWs_quoted hq x _)).trans (value_quoted hq x n _))
  | cons y ys ih =>
      obtain ⟨k, rfl⟩ := Nat.exists_eq_succ_of_ne_zero (Nat.ne_of_gt (Nat.zero_lt_of_lt hk))
      rw [join_cons, elements_next k ((congrArg _ (skipWs_quoted hq x _)).trans (value_quoted hq x n _)),
        ih y k (by simpa using hk)]
      rfl

/-- A member's value is read back. -/
theorem value_flat (v : Flat) (n : Nat) (rest : List Char) :
    Serde.value unicode (n + 2) ((v.text q).toList ++ rest) = some (v.json, rest) := by
  cases v with
  | str s => exact value_quoted hq s (n + 1) rest
  | bool b =>
      cases b with
      | false =>
          have htext : ((Flat.bool false).text q).toList = ['f', 'a', 'l', 's', 'e'] := by simp [Flat.text]
          rw [htext]
          rfl
      | true =>
          have htext : ((Flat.bool true).text q).toList = ['t', 'r', 'u', 'e'] := by simp [Flat.text]
          rw [htext]
          rfl
  | strs xs =>
      cases xs with
      | nil =>
          have htext : ((Flat.strs []).text q).toList = ['[', ']'] := by simp [Flat.text, Text.join]
          rw [htext]
          rfl
      | cons x xs =>
          have htext : ((Flat.strs (x :: xs)).text q).toList ++ rest =
              '[' :: ((Text.join "," ((x :: xs).map q)).toList ++ ']' :: rest) := by
            rw [Flat.text, String.toList_append, String.toList_append]
            simp
          have hlen := length_le_join q (length_quoted hq) x xs
          have hread := elements_quoted hq x xs n
            ((Text.join "," ((x :: xs).map q)).toList ++ ']' :: rest).length.succ
            (by
              rw [List.length_append]
              simp only [List.length_cons] at hlen ⊢
              omega) rest
          obtain ⟨w, hw⟩ : ∃ w, (Text.join "," ((x :: xs).map q)).toList ++ ']' :: rest = '"' :: w := by
            obtain ⟨w, hw, -⟩ := hq x
            obtain ⟨more, hmore⟩ := join_head q x xs
            exact ⟨w ++ more ++ ']' :: rest, by rw [hmore, hw]; rfl⟩
          rw [hw] at hread
          rw [htext, hw]
          have hvalue : Serde.value unicode (n + 2) ('[' :: '"' :: w) =
              (Json.elements (Serde.value unicode (n + 1)) (('"' :: w).length + 1) ('"' :: w)).map
                fun r => (.arr r.1, r.2) := rfl
          rw [hvalue, hread]
          rfl

theorem skipWs_flat (v : Flat) (rest : List Char) : skipWs ((v.text q).toList ++ rest) = (v.text q).toList ++ rest := by
  cases v with
  | str s => exact skipWs_quoted hq s rest
  | bool b =>
      cases b with
      | false => rw [show ((Flat.bool false).text q).toList = ['f', 'a', 'l', 's', 'e'] by simp [Flat.text]]; rfl
      | true => rw [show ((Flat.bool true).text q).toList = ['t', 'r', 'u', 'e'] by simp [Flat.text]]; rfl
  | strs xs =>
      rw [Flat.text, String.toList_append, String.toList_append]
      rfl

/-- A member is a name in quotes, a colon and a value. -/
theorem memberText_quoted (m : String × Flat) (rest : List Char) :
    ∃ w, (memberText q m).toList ++ rest = '"' :: w ∧
      Serde.stringBody unicode (w.length + 1) w = some (m.1.toList, ':' :: ((m.2.text q).toList ++ rest)) := by
  obtain ⟨w, hw, hread⟩ := hq m.1
  refine ⟨w ++ ':' :: ((m.2.text q).toList ++ rest), ?_, hread _⟩
  rw [memberText, String.toList_append, String.toList_append, hw]
  simp

theorem value_after (v : Flat) (n : Nat) (rest : List Char) :
    Serde.value unicode (n + 2) (skipWs ((v.text q).toList ++ rest)) = some (v.json, rest) := by
  rw [skipWs_flat hq, value_flat hq]

theorem members_flat (m : String × Flat) (ms : List (String × Flat)) (n k : Nat) (hk : ms.length < k) (rest : List Char) :
    Serde.members unicode (Serde.value unicode (n + 2)) k
        ((Text.join "," ((m :: ms).map (memberText q))).toList ++ '}' :: rest) = some (members (m :: ms), rest) := by
  induction ms generalizing m k with
  | nil =>
      obtain ⟨k, rfl⟩ := Nat.exists_eq_succ_of_ne_zero (Nat.ne_of_gt hk)
      obtain ⟨w, hw, hname⟩ := memberText_quoted hq m ('}' :: rest)
      have htext : Text.join "," ([m].map (memberText q)) = memberText q m := rfl
      rw [htext, hw, members_last k hname (value_after hq m.2 n _), String.ofList_toList]
      rfl
  | cons m' ms ih =>
      obtain ⟨k, rfl⟩ := Nat.exists_eq_succ_of_ne_zero (Nat.ne_of_gt (Nat.zero_lt_of_lt hk))
      obtain ⟨w, hw, hname⟩ := memberText_quoted hq m
        (',' :: ((Text.join "," ((m' :: ms).map (memberText q))).toList ++ '}' :: rest))
      rw [join_cons, hw, members_next k hname (value_after hq m.2 n _), ih m' k (by simpa using hk), String.ofList_toList]
      rfl

/-- An object is read back as it was written. -/
theorem value_object (m : String × Flat) (ms : List (String × Flat)) (n : Nat) (rest : List Char) :
    Serde.value unicode (n + 3) ((objectText q (m :: ms)).toList ++ rest) = some (.obj (members (m :: ms)), rest) := by
  have htext : (objectText q (m :: ms)).toList ++ rest =
      '{' :: ((Text.join "," ((m :: ms).map (memberText q))).toList ++ '}' :: rest) := by
    rw [objectText, String.toList_append, String.toList_append]
    simp
  obtain ⟨w, hw⟩ : ∃ w, (Text.join "," ((m :: ms).map (memberText q))).toList ++ '}' :: rest = '"' :: w := by
    obtain ⟨more, hmore⟩ := join_head (memberText q) m ms
    obtain ⟨w, hw, -⟩ := memberText_quoted hq m (more ++ '}' :: rest)
    exact ⟨w, by rw [hmore, List.append_assoc, hw]⟩
  have hlen := length_le_join (memberText q) (fun m => by
    obtain ⟨w, hw, -⟩ := memberText_quoted hq m []
    rw [List.append_nil] at hw
    rw [hw]
    exact Nat.succ_pos _) m ms
  have hread := members_flat hq m ms n
    (((Text.join "," ((m :: ms).map (memberText q))).toList ++ '}' :: rest).length + 1) (by
      simp only [List.length_append, List.length_cons] at hlen ⊢
      omega) rest
  rw [hw] at hread
  rw [htext, hw]
  have hvalue : Serde.value unicode (n + 3) ('{' :: '"' :: w) =
      (Serde.members unicode (Serde.value unicode (n + 2)) (('"' :: w).length + 1) ('"' :: w)).map
        fun r => (.obj r.1, r.2) := rfl
  rw [hvalue, hread]
  rfl

end Read

theorem skipWs_object (ms : List (String × Flat)) : skipWs (objectText q ms).toList = (objectText q ms).toList := by
  rw [objectText, String.toList_append, String.toList_append]
  rfl

theorem json_parse_object (hq : Quotes Json.unicodeEscape q) (m : String × Flat) (ms : List (String × Flat)) :
    Json.parse (objectText q (m :: ms)) = some (.obj (members (m :: ms))) := by
  have hread := value_object hq m ms 9998 []
  rw [List.append_nil] at hread
  rw [Json.parse, Json.parseFirst, skipWs_object, Serde.value_json, show Json.maxDepth = 9998 + 3 from rfl, hread]
  rfl

theorem serde_parse_object (hq : Quotes Serde.unicodeEscape q) (m : String × Flat) (ms : List (String × Flat)) :
    Serde.parse (objectText q (m :: ms)) = some (.obj (members (m :: ms))) := by
  obtain ⟨n, hn⟩ : ∃ n, (objectText q (m :: ms)).length + 1 = n + 3 := by
    refine ⟨(Text.join "," ((m :: ms).map (memberText q))).length, ?_⟩
    rw [objectText, String.length_append, String.length_append]
    have hopen : "\x7b".length = 1 := rfl
    have hclose : "\x7d".length = 1 := rfl
    omega
  have hread := value_object hq m ms n []
  rw [List.append_nil] at hread
  rw [Serde.parse, skipWs_object, hn, hread]
  rfl

end FlatJson
