import Apifor.Lib.Text

/-!
# JSON

A JSON value, the reader of `encoding/json` (its grammar, its whitespace, its treatment of escapes
and lone surrogates, its nesting limit), the writer of `json.Marshal` with its HTML escapes, and the
rule by which a Go struct picks up an object's members.
-/

inductive Json
  | null
  | bool (b : Bool)
  | num (lit : String)
  | str (s : String)
  | arr (xs : List Json)
  | obj (ms : List (String × Json))

namespace Json

/-! ## Reading -/

def isWs (c : Char) : Bool := c = ' ' || c = '\t' || c = '\r' || c = '\n'

def skipWs : List Char → List Char := Text.trimLeft isWs

@[grind =] def hexVal (c : Char) : Option Nat :=
  if '0' ≤ c ∧ c ≤ '9' then some (c.toNat - 48)
  else if 'a' ≤ c ∧ c ≤ 'f' then some (c.toNat - 87)
  else if 'A' ≤ c ∧ c ≤ 'F' then some (c.toNat - 55)
  else none

@[grind =] def hex4 : List Char → Option (Nat × List Char)
  | a :: b :: c :: d :: cs => do
      let a ← hexVal a
      let b ← hexVal b
      let c ← hexVal c
      let d ← hexVal d
      pure (((a * 16 + b) * 16 + c) * 16 + d, cs)
  | _ => none

def replacement : Char := Char.ofNat 0xfffd

/-- A `\uXXXX` escape after its `u`; a surrogate without its pair reads as U+FFFD. -/
@[grind =] def unicodeEscape (cs : List Char) : Option (Char × List Char) := do
  let (hi, cs) ← hex4 cs
  if 0xd800 ≤ hi ∧ hi < 0xe000 then
    match cs with
    | '\\' :: 'u' :: rest =>
        match hex4 rest with
        | some (lo, rest') =>
            if hi < 0xdc00 ∧ 0xdc00 ≤ lo ∧ lo < 0xe000 then
              pure (Char.ofNat (0x10000 + (hi - 0xd800) * 0x400 + (lo - 0xdc00)), rest')
            else pure (replacement, cs)
        | none => pure (replacement, cs)
    | _ => pure (replacement, cs)
  else pure (Char.ofNat hi, cs)

@[grind =] def simpleEscape : Char → Option Char
  | '"' => some '"'
  | '\\' => some '\\'
  | '/' => some '/'
  | 'b' => some (Char.ofNat 8)
  | 'f' => some (Char.ofNat 12)
  | 'n' => some '\n'
  | 'r' => some '\r'
  | 't' => some '\t'
  | _ => none

/-- The characters of a string literal after its opening quote. -/
@[grind =] def stringBody : Nat → List Char → Option (List Char × List Char)
  | 0, _ => none
  | n + 1, cs =>
      match cs with
      | [] => none
      | '"' :: rest => some ([], rest)
      | '\\' :: 'u' :: rest => do
          let (c, rest) ← unicodeEscape rest
          let (s, rest) ← stringBody n rest
          pure (c :: s, rest)
      | '\\' :: e :: rest => do
          let c ← simpleEscape e
          let (s, rest) ← stringBody n rest
          pure (c :: s, rest)
      | c :: rest =>
          if c.toNat < 0x20 then none
          else do
            let (s, rest) ← stringBody n rest
            pure (c :: s, rest)

def digits (cs : List Char) : List Char × List Char := cs.span fun c => '0' ≤ c && c ≤ '9'

@[grind =] def fraction : List Char → Option (List Char × List Char)
  | '.' :: cs =>
      match digits cs with
      | ([], _) => none
      | (ds, rest) => some ('.' :: ds, rest)
  | cs => some ([], cs)

@[grind =] def exponent : List Char → Option (List Char × List Char)
  | e :: cs =>
      if e = 'e' ∨ e = 'E' then
        let (sign, cs) := match cs with
          | '+' :: cs => (['+'], cs)
          | '-' :: cs => (['-'], cs)
          | cs => ([], cs)
        match digits cs with
        | ([], _) => none
        | (ds, rest) => some (e :: (sign ++ ds), rest)
      else some ([], e :: cs)
  | [] => some ([], [])

@[grind =] def unsigned : List Char → Option (List Char × List Char)
  | '0' :: cs => some (['0'], cs)
  | cs =>
      match digits cs with
      | ([], _) => none
      | r => some r

@[grind =] def number (cs : List Char) : Option (String × List Char) := do
  let (sign, cs) := match cs with
    | '-' :: cs => (['-'], cs)
    | cs => ([], cs)
  let (int, cs) ← unsigned cs
  let (frac, cs) ← fraction cs
  let (exp, cs) ← exponent cs
  pure (String.ofList (sign ++ int ++ frac ++ exp), cs)

section Containers

variable (value : List Char → Option (Json × List Char))

/-- The rest of an array, after an element's separator. -/
@[grind =] def elements : Nat → List Char → Option (List Json × List Char)
  | 0, _ => none
  | n + 1, cs => do
      let (x, cs) ← value (skipWs cs)
      match skipWs cs with
      | ',' :: cs => do
          let (xs, cs) ← elements n cs
          pure (x :: xs, cs)
      | ']' :: cs => pure ([x], cs)
      | _ => none

/-- The rest of an object, after a member's separator. -/
@[grind =] def members : Nat → List Char → Option (List (String × Json) × List Char)
  | 0, _ => none
  | n + 1, cs =>
      match skipWs cs with
      | '"' :: cs => do
          let (k, cs) ← stringBody (cs.length + 1) cs
          match skipWs cs with
          | ':' :: cs => do
              let (x, cs) ← value (skipWs cs)
              match skipWs cs with
              | ',' :: cs => do
                  let (ms, cs) ← members n cs
                  pure ((String.ofList k, x) :: ms, cs)
              | '}' :: cs => pure ([(String.ofList k, x)], cs)
              | _ => none
          | _ => none
      | _ => none

end Containers

/-- One value; the first argument bounds the nesting of arrays and objects. -/
@[grind =] def value : Nat → List Char → Option (Json × List Char)
  | 0, _ => none
  | n + 1, cs =>
      match cs with
      | 'n' :: 'u' :: 'l' :: 'l' :: cs => some (.null, cs)
      | 't' :: 'r' :: 'u' :: 'e' :: cs => some (.bool true, cs)
      | 'f' :: 'a' :: 'l' :: 's' :: 'e' :: cs => some (.bool false, cs)
      | '"' :: cs => (stringBody (cs.length + 1) cs).map fun r => (.str (String.ofList r.1), r.2)
      | '[' :: cs =>
          match skipWs cs with
          | ']' :: cs => some (.arr [], cs)
          | cs => (elements (value n) (cs.length + 1) cs).map fun r => (.arr r.1, r.2)
      | '{' :: cs =>
          match skipWs cs with
          | '}' :: cs => some (.obj [], cs)
          | cs => (members (value n) (cs.length + 1) cs).map fun r => (.obj r.1, r.2)
      | cs => (number cs).map fun r => (.num r.1, r.2)

/-- The nesting limit of `encoding/json`, and one level for a scalar inside it. -/
def maxDepth : Nat := 10001

/-- The first value of a text, with what follows it: `Decoder.Decode`. -/
def parseFirst (s : String) : Option (Json × List Char) := value maxDepth (skipWs s.toList)

/-- A text that is exactly one value: `json.Unmarshal`. -/
@[grind =] def parse (s : String) : Option Json :=
  match parseFirst s with
  | some (j, rest) => if (skipWs rest).isEmpty then some j else none
  | none => none

/-! ## Decoding into a struct

A struct is given by its fields; a member goes to the field whose name it equals up to case and is
decoded into what that field holds: a later scalar overwrites an earlier one, a later object is merged
into the struct or the map that is there, and a later array reuses the slots of the slice. `null`
leaves scalars and structs alone and empties maps and slices. A value of the wrong type is an error
that leaves the field alone and lets decoding go on. -/

/-- `foldName` of `encoding/json`: upper case, with the two letters that fold to ASCII. -/
@[grind =] def foldChar (c : Char) : Char :=
  if 'a' ≤ c ∧ c ≤ 'z' then Char.ofNat (c.toNat - 32)
  else if c.toNat = 0x17f then 'S'
  else if c.toNat = 0x212a then 'K'
  else c

def sameName (a b : String) : Bool := decide (a.toList.map foldChar = b.toList.map foldChar)

/-- A field of a struct `S`: its JSON name and what a value does to it, with `false` for an error. -/
structure Field (S : Type) where
  name : String
  set : Json → S → S × Bool

section Decode

variable {S : Type}

@[grind =] def setMembers (fields : List (Field S)) : List (String × Json) → S → S × Bool
  | [], s => (s, true)
  | (k, v) :: ms, s =>
      match fields.find? fun f => sameName f.name k with
      | none => setMembers fields ms s
      | some f =>
          let r := setMembers fields ms (f.set v s).1
          (r.1, (f.set v s).2 && r.2)

@[grind =] def toStruct (fields : List (Field S)) : Json → S → S × Bool
  | .null, s => (s, true)
  | .obj ms, s => setMembers fields ms s
  | _, s => (s, false)

/-- `json.Unmarshal` into a struct. -/
@[grind =] def unmarshal (fields : List (Field S)) (text : String) (zero : S) : S × Bool :=
  match parse text with
  | some j => toStruct fields j zero
  | none => (zero, false)

/-- `json.NewDecoder(body).Decode`: what follows the first value is not read. -/
@[grind =] def decodeFirst (fields : List (Field S)) (text : String) (zero : S) : S × Bool :=
  match parseFirst text with
  | some (j, _) => toStruct fields j zero
  | none => (zero, false)

@[grind =] def stringField (name : String) (put : String → S → S) : Field S where
  name := name
  set
    | .str v, s => (put v s, true)
    | .null, s => (s, true)
    | _, s => (s, false)

@[grind =] def boolField (name : String) (put : Bool → S → S) : Field S where
  name := name
  set
    | .bool v, s => (put v s, true)
    | .null, s => (s, true)
    | _, s => (s, false)

/-- The value of an integer literal; a fraction, an exponent or 64-bit overflow is an error. -/
@[grind =] def int64? (lit : String) : Option Int :=
  let go := fun cs : List Char =>
    if cs.all (fun c => '0' ≤ c && c ≤ '9') && !cs.isEmpty then
      some (cs.foldl (fun (n : Nat) c => n * 10 + (c.toNat - 48)) 0)
    else none
  let v : Option Int := match lit.toList with
    | '-' :: cs => (go cs).map fun n => -(n : Int)
    | cs => (go cs).map fun n => (n : Int)
  match v with
  | some n => if -9223372036854775808 ≤ n ∧ n ≤ 9223372036854775807 then some n else none
  | none => none

@[grind =] def intField (name : String) (put : Int → S → S) : Field S where
  name := name
  set
    | .num lit, s =>
        match int64? lit with
        | some n => (put n s, true)
        | none => (s, false)
    | .null, s => (s, true)
    | _, s => (s, false)

/-- A slice that is decoded into. Decoding an array takes the slots behind the slice one after the
other and cuts it to the array's length: what an earlier array has left in a slot stays there, also
beyond the length, until a value overwrites it. -/
structure Slice (α : Type) where
  slots : List α := []
  len : Nat := 0

def Slice.toList {α : Type} (v : Slice α) : List α := v.slots.take v.len

section Elements

variable {α : Type} (elem : Json → α → α × Bool) (zero : α)

/-- The elements of an array, each decoded into its slot; the slots behind them stay. -/
@[grind =] def sliceElems : List Json → List α → List α × Bool
  | [], slots => (slots, true)
  | x :: xs, slots =>
      let r := elem x (slots.headD zero)
      let q := sliceElems xs slots.tail
      (r.1 :: q.1, r.2 && q.2)

/-- An empty array makes a new slice and `null` the nil one; both have no slots. -/
@[grind =] def toSlice : Json → Slice α → Slice α × Bool
  | .null, _ => ({}, true)
  | .arr [], _ => ({}, true)
  | .arr (x :: xs), v =>
      ({ slots := (sliceElems elem zero (x :: xs) v.slots).1, len := xs.length + 1 },
        (sliceElems elem zero (x :: xs) v.slots).2)
  | _, v => (v, false)

end Elements

/-- A string as an element: `null` leaves what is there, and so does a value of another type, an error. -/
@[grind =] def stringElem : Json → String → String × Bool
  | .str v, _ => (v, true)
  | .null, v => (v, true)
  | _, v => (v, false)

@[grind =] def stringsField (name : String) (get : S → Slice String) (put : Slice String → S → S) : Field S where
  name := name
  set v s := (put (toSlice stringElem "" v (get s)).1 s, (toSlice stringElem "" v (get s)).2)

/-- A field that is a struct itself. -/
def structField {T : Type} (name : String) (fields : List (Field T)) (get : S → T) (put : T → S → S) : Field S where
  name := name
  set v s := (put (toStruct fields v (get s)).1 s, (toStruct fields v (get s)).2)

@[grind =] def structsField {T : Type} (name : String) (fields : List (Field T)) (zero : T) (get : S → Slice T)
    (put : Slice T → S → S) : Field S where
  name := name
  set v s := (put (toSlice (toStruct fields) zero v (get s)).1 s, (toSlice (toStruct fields) zero v (get s)).2)

/-- The entries of a `map[string]string`; a value of another type is an error and leaves the empty
string under its name, as `null` does. -/
@[grind =] def stringEntries : List (String × Json) → List (String × String) × Bool
  | [] => ([], true)
  | (k, v) :: ms => ((k, (stringElem v "").1) :: (stringEntries ms).1, (stringElem v "").2 && (stringEntries ms).2)

/-- A map, newest entry last: an object's entries are added to those that are there, `null` is the nil map. -/
@[grind =] def stringMapField (name : String) (get : S → List (String × String))
    (put : List (String × String) → S → S) : Field S where
  name := name
  set
    | .obj ms, s => (put (get s ++ (stringEntries ms).1) s, (stringEntries ms).2)
    | .null, s => (put [] s, true)
    | _, s => (s, false)

end Decode

/-! ## Writing -/

@[grind =] def hexDigit (n : Nat) : Char := if n < 10 then Char.ofNat (48 + n) else Char.ofNat (87 + n)

@[grind =] def escapeChar (c : Char) : List Char :=
  let n := c.toNat
  if c = '"' then ['\\', '"']
  else if c = '\\' then ['\\', '\\']
  else if c = '\n' then ['\\', 'n']
  else if c = '\r' then ['\\', 'r']
  else if c = '\t' then ['\\', 't']
  else if n = 8 then ['\\', 'b']
  else if n = 12 then ['\\', 'f']
  else if n < 0x20 ∨ c = '<' ∨ c = '>' ∨ c = '&' then
    ['\\', 'u', '0', '0', hexDigit (n / 16), hexDigit (n % 16)]
  else if n = 0x2028 then ['\\', 'u', '2', '0', '2', '8']
  else if n = 0x2029 then ['\\', 'u', '2', '0', '2', '9']
  else [c]

/-- `json.Marshal` of a string. -/
def quote (s : String) : String := "\"" ++ String.ofList (s.toList.flatMap escapeChar) ++ "\""

def quoteList (xs : List String) : String := "[" ++ Text.join "," (xs.map quote) ++ "]"

end Json
