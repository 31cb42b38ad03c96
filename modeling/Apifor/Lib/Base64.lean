import Mathlib.Tactic.Basic

/-!
# Base64

The standard alphabet with padding, over bytes, and that decoding undoes encoding.
-/

namespace Base64

abbrev Bytes := List UInt8

def alphabet : List Char := "ABCDEFGHIJKLMNOPQRSTUVWXYZabcdefghijklmnopqrstuvwxyz0123456789+/".toList

def digit (n : Nat) : Char := alphabet.getD n '='

def digitVal (c : Char) : Option Nat := alphabet.findIdx? (· = c)

/-- Three bytes are four digits; one or two at the end are padded. -/
@[grind =] def encodeChars : Bytes → List Char
  | [] => []
  | [a] => [digit (a.toNat / 4), digit (a.toNat % 4 * 16), '=', '=']
  | [a, b] =>
      [digit (a.toNat / 4), digit (a.toNat % 4 * 16 + b.toNat / 16), digit (b.toNat % 16 * 4), '=']
  | a :: b :: c :: rest =>
      digit (a.toNat / 4) :: digit (a.toNat % 4 * 16 + b.toNat / 16) :: digit (b.toNat % 16 * 4 + c.toNat / 64) ::
        digit (c.toNat % 64) :: encodeChars rest

def encode (bytes : Bytes) : String := String.ofList (encodeChars bytes)

/-- The last digits must not carry bits that no byte holds. -/
@[grind =] def decodeChars : List Char → Option Bytes
  | [] => some []
  | w :: x :: y :: z :: rest => do
      let w ← digitVal w
      let x ← digitVal x
      if y = '=' then
        if z = '=' ∧ rest = [] ∧ x % 16 = 0 then pure [UInt8.ofNat (w * 4 + x / 16)] else none
      else do
        let y ← digitVal y
        if z = '=' then
          if rest = [] ∧ y % 4 = 0 then pure [UInt8.ofNat (w * 4 + x / 16), UInt8.ofNat (x % 16 * 16 + y / 4)]
          else none
        else do
          let z ← digitVal z
          let bytes ← decodeChars rest
          pure (UInt8.ofNat (w * 4 + x / 16) :: UInt8.ofNat (x % 16 * 16 + y / 4) :: UInt8.ofNat (y % 4 * 64 + z) :: bytes)
  | _ => none

def decode (s : String) : Option Bytes := decodeChars s.toList

theorem alphabet_values : alphabet.map digitVal = (List.range 64).map some := by decide

theorem digit_eq {n : Nat} (h : n < 64) : alphabet[n]? = some (digit n) := by
  rw [digit, List.getD_eq_getElem?_getD, List.getElem?_eq_getElem (show n < alphabet.length from h), Option.getD_some]

theorem digitVal_digit (n : Nat) (h : n < 64) : digitVal (digit n) = some n := by
  have hget := congrArg (·[n]?) alphabet_values
  simpa [digit_eq h, h] using hget

theorem digit_ne_pad (n : Nat) (h : n < 64) : digit n ≠ '=' := by
  have hpad : '=' ∉ alphabet := by decide
  intro heq
  exact hpad (heq ▸ List.mem_of_getElem? (digit_eq h))

theorem ofNat_eq {n : Nat} {a : UInt8} (h : n = a.toNat) : UInt8.ofNat n = a := by
  rw [h, UInt8.ofNat_toNat]

theorem decodeChars_encodeChars (bytes : Bytes) : decodeChars (encodeChars bytes) = some bytes := by
  fun_induction encodeChars bytes with
  | case1 => rfl
  | case2 a =>
      have ha := a.toNat_lt
      rw [decodeChars, digitVal_digit _ (by omega), digitVal_digit _ (by omega)]
      simp only [Option.bind_eq_bind, Option.bind_some, if_true, true_and]
      rw [if_pos (by omega), ofNat_eq (a := a) (by omega)]
      rfl
  | case3 a b =>
      have ha := a.toNat_lt
      have hb := b.toNat_lt
      rw [decodeChars, digitVal_digit _ (by omega), digitVal_digit _ (by omega)]
      simp only [Option.bind_eq_bind, Option.bind_some, if_neg (digit_ne_pad (b.toNat % 16 * 4) (by omega)), if_true, true_and]
      rw [digitVal_digit _ (by omega)]
      simp only [Option.bind_some]
      rw [if_pos (by omega), ofNat_eq (a := a) (by omega), ofNat_eq (a := b) (by omega)]
      rfl
  | case4 a b c rest ih =>
      have ha := a.toNat_lt
      have hb := b.toNat_lt
      have hc := c.toNat_lt
      rw [decodeChars, digitVal_digit _ (by omega), digitVal_digit _ (by omega)]
      simp only [Option.bind_eq_bind, Option.bind_some, if_neg (digit_ne_pad (b.toNat % 16 * 4 + c.toNat / 64) (by omega)),
        if_neg (digit_ne_pad (c.toNat % 64) (by omega))]
      rw [digitVal_digit _ (by omega), digitVal_digit _ (by omega), ih]
      simp only [Option.bind_some]
      rw [ofNat_eq (a := a) (by omega), ofNat_eq (a := b) (by omega), ofNat_eq (a := c) (by omega)]
      rfl

@[simp] theorem decode_encode (bytes : Bytes) : decode (encode bytes) = some bytes := by
  rw [decode, encode, String.toList_ofList, decodeChars_encodeChars]

end Base64
