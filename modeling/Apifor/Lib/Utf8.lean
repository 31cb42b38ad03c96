import Apifor.Lib.Text
import Mathlib.Tactic.SplitIfs

/-!
# UTF-8

The bytes of a text, and the reader of UTF-8 that puts U+FFFD for whatever is no character:
`bytes.decode("utf-8", "replace")`.
-/

namespace Utf8

/-- What is still to come of a character: its bytes, the range of the next one, and the bits so far. -/
structure Pending where
  need : Nat := 0
  low : UInt8 := 0x80
  high : UInt8 := 0xbf
  bits : Nat := 0

def replacement : Char := Char.ofNat 0xfffd

/-- The first byte of a character. -/
@[grind =] def first (b : UInt8) : Pending × List Char :=
  if b < 0x80 then ({}, [Char.ofNat b.toNat])
  else if 0xc2 ≤ b ∧ b ≤ 0xdf then ({ need := 1, bits := b.toNat - 0xc0 }, [])
  else if 0xe0 ≤ b ∧ b ≤ 0xef then
    ({ need := 2, bits := b.toNat - 0xe0, low := if b = 0xe0 then 0xa0 else 0x80,
       high := if b = 0xed then 0x9f else 0xbf }, [])
  else if 0xf0 ≤ b ∧ b ≤ 0xf4 then
    ({ need := 3, bits := b.toNat - 0xf0, low := if b = 0xf0 then 0x90 else 0x80,
       high := if b = 0xf4 then 0x8f else 0xbf }, [])
  else ({}, [replacement])

/-- One byte: what is pending after it, and the characters it completes. -/
@[grind =] def step (p : Pending) (b : UInt8) : Pending × List Char :=
  match p.need with
  | 0 => first b
  | n + 1 =>
      if p.low ≤ b ∧ b ≤ p.high then
        let bits := p.bits * 64 + (b.toNat - 0x80)
        match n with
        | 0 => ({}, [Char.ofNat bits])
        | _ => ({ need := n, bits := bits }, [])
      else ((first b).1, replacement :: (first b).2)

@[grind =] def decodeFrom : Pending → List UInt8 → List Char
  | p, [] => if p.need = 0 then [] else [replacement]
  | p, b :: bs => (step p b).2 ++ decodeFrom (step p b).1 bs

def decode (bs : List UInt8) : List Char := decodeFrom {} bs

/-- The bytes of an ASCII text. -/
def ascii (s : String) : List UInt8 := s.toList.map fun c => UInt8.ofNat c.toNat

/-! ## Writing -/

def encode (s : String) : List UInt8 := s.toByteArray.data.toList

@[simp] theorem encode_append (s t : String) : encode (s ++ t) = encode s ++ encode t := by
  simp [encode, String.toByteArray_append]

theorem encode_injective : Function.Injective encode := fun _ _ h =>
  String.toByteArray_inj.1 (ByteArray.ext (Array.toList_inj.1 h))

/-- An ASCII character is written as its code, and no other character has that byte. -/
theorem eq_of_mem_utf8EncodeChar {c d : Char} (hd : d.toNat < 0x80)
    (h : UInt8.ofNat d.toNat ∈ String.utf8EncodeChar c) : c = d := by
  have hbyte : ∀ n, UInt8.ofNat d.toNat = UInt8.ofNat n → d.toNat = n % 256 := fun n hn => by
    have hval := congrArg UInt8.toNat hn
    simp only [UInt8.toNat_ofNat'] at hval
    omega
  unfold String.utf8EncodeChar at h
  dsimp only at h
  split_ifs at h with h1 h2 h3
  · have hcode := hbyte _ (List.mem_singleton.1 h)
    exact Char.toNat_inj.1 (by rw [hcode]; exact (Nat.mod_eq_of_lt (Nat.lt_of_le_of_lt h1 (by decide))).symm)
  all_goals
    simp only [List.mem_cons, List.not_mem_nil, or_false] at h
    exfalso
  · rcases h with h | h <;> have hcode := hbyte _ h <;> omega
  · rcases h with h | h | h <;> have hcode := hbyte _ h <;> omega
  · rcases h with h | h | h | h <;> have hcode := hbyte _ h <;> omega

theorem mem_of_mem_encode {s : String} {d : Char} (hd : d.toNat < 0x80) (h : UInt8.ofNat d.toNat ∈ encode s) :
    d ∈ s.toList := by
  rw [encode, ← String.utf8Encode_toList, List.utf8Encode, List.toList_data_toByteArray, List.mem_flatMap] at h
  obtain ⟨c, hc, hbyte⟩ := h
  exact eq_of_mem_utf8EncodeChar hd hbyte ▸ hc

end Utf8
