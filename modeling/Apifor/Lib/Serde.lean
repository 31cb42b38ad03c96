import Apifor.Lib.Json

/-!
# JSON of `serde_json`

The reader and the writer of `serde_json` where they differ from `encoding/json`: a surrogate without its
pair is an error, the names of a struct are compared as they are, a name that comes twice is an error, and
only what must be escaped is.
-/

namespace Serde

open Json (hex4 simpleEscape skipWs)

/-! ## Reading -/

/-- A `\uXXXX` escape after its `u`. -/
@[grind =] def unicodeEscape (cs : List Char) : Option (Char × List Char) := do
  let (hi, cs) ← hex4 cs
  if 0xd800 ≤ hi ∧ hi < 0xe000 then
    match cs with
    | '\\' :: 'u' :: rest => do
        let (lo, rest) ← hex4 rest
        if hi < 0xdc00 ∧ 0xdc00 ≤ lo ∧ lo < 0xe000 then
          pure (Char.ofNat (0x10000 + (hi - 0xd800) * 0x400 + (lo - 0xdc00)), rest)
        else none
    | _ => none
  else pure (Char.ofNat hi, cs)

section Grammar

variable (unicode : List Char → Option (Char × List Char))

/-- `Json.stringBody` over a reader of `\uXXXX`. -/
@[grind =] def stringBody : Nat → List Char → Option (List Char × List Char)
  | 0, _ => none
  | n + 1, cs =>
      match cs with
      | [] => none
      | '"' :: rest => some ([], rest)
      | '\\' :: 'u' :: rest => do
          let (c, rest) ← unicode rest
          let (s, rest) ← stringBody n rest
          pure (c :: s, rest)
      | '\\' :: e :: rest => do
          let c ← simpleEscape e
          let (s, rest) ← stringBody n rest
          pure (c :: s, rest)
      | c :: rest =>
          if c.toNat < 0x20 then none
          else do
            let (s, rest) ← stringBody n rest
            pure (c :: s, rest)

/-- `Json.members`. -/
@[grind =] def members (value : List Char → Option (Json × List Char)) :
    Nat → List Char → Option (List (String × Json) × List Char)
  | 0, _ => none
  | n + 1, cs =>
      match skipWs cs with
      | '"' :: cs => do
          let (k, cs) ← stringBody unicode (cs.length + 1) cs
          match skipWs cs with
          | ':' :: cs => do
              let (x, cs) ← value (skipWs cs)
              match skipWs cs with
              | ',' :: cs => do
                  let (ms, cs) ← members value n cs
                  pure ((String.ofList k, x) :: ms, cs)
              | '}' :: cs => pure ([(String.ofList k, x)], cs)
              | _ => none
          | _ => none
      | _ => none

/-- `Json.value`. -/
@[grind =] def value : Nat → List Char → Option (Json × List Char)
  | 0, _ => none
  | n + 1, cs =>
      match cs with
      | 'n' :: 'u' :: 'l' :: 'l' :: cs => some (.null, cs)
      | 't' :: 'r' :: 'u' :: 'e' :: cs => some (.bool true, cs)
      | 'f' :: 'a' :: 'l' :: 's' :: 'e' :: cs => some (.bool false, cs)
      | '"' :: cs => (stringBody unicode (cs.length + 1) cs).map fun r => (.str (String.ofList r.1), r.2)
      | '[' :: cs =>
          match skipWs cs with
          | ']' :: cs => some (.arr [], cs)
          | cs => (Json.elements (value n) (cs.length + 1) cs).map fun r => (.arr r.1, r.2)
      | '{' :: cs =>
          match skipWs cs with
          | '}' :: cs => some (.obj [], cs)
          | cs => (members unicode (value n) (cs.length + 1) cs).map fun r => (.obj r.1, r.2)
      | cs => (Json.number cs).map fun r => (.num r.1, r.2)

end Grammar

/-! The reader of `Lib.Json` is the one over its own escapes. -/

theorem stringBody_json (n : Nat) (cs : List Char) : Json.stringBody n cs = stringBody Json.unicodeEscape n cs := by
  induction n generalizing cs with
  | zero => rfl
  | succ n ih =>
      simp only [stringBody, ← ih]
      rfl

theorem members_json {v v' : List Char → Option (Json × List Char)} (hv : ∀ cs, v cs = v' cs) (n : Nat) (cs : List Char) :
    Json.members v n cs = members Json.unicodeEscape v' n cs := by
  induction n generalizing cs with
  | zero => rfl
  | succ n ih =>
      simp only [members, ← stringBody_json, ← hv, ← ih]
      rfl

theorem elements_congr {v v' : List Char → Option (Json × List Char)} (hv : ∀ cs, v cs = v' cs) (n : Nat)
    (cs : List Char) : Json.elements v n cs = Json.elements v' n cs := by rw [funext hv]

theorem value_json (n : Nat) (cs : List Char) : Json.value n cs = value Json.unicodeEscape n cs := by
  induction n generalizing cs with
  | zero => rfl
  | succ n ih =>
      simp only [value, ← stringBody_json, ← members_json ih, ← elements_congr ih]
      rfl

/-- `from_str` at a struct, before the struct picks its members: what it does not name is skipped at any
depth. -/
@[grind =] def parse (s : String) : Option Json :=
  match value unicodeEscape (s.length + 1) (skipWs s.toList) with
  | some (j, rest) => if (skipWs rest).isEmpty then some j else none
  | none => none

/-! ## Decoding into a struct -/

@[grind =] def asStr : Json → Option String
  | .str s => some s
  | _ => none

@[grind =] def asBool : Json → Option Bool
  | .bool b => some b
  | _ => none

@[grind =] def asStrs : Json → Option (List String)
  | .arr xs => xs.mapM asStr
  | _ => none

/-- A field of a derived `Deserialize`, with its default if it has one. -/
@[grind =] def field {α : Type} (read : Json → Option α) (default : Option α) (name : String) (ms : List (String × Json)) :
    Option α :=
  match ms.filter fun m => decide (m.1 = name) with
  | [] => default
  | [m] => read m.2
  | _ => none

/-- The members of a struct; an array gives them by position. -/
@[grind =] def structMembers (names : List String) : Json → Option (List (String × Json))
  | .obj ms => some ms
  | .arr xs => if xs.length ≤ names.length then some (names.zip xs) else none
  | _ => none

/-! ## Writing -/

@[grind =] def escapeChar (c : Char) : List Char :=
  let n := c.toNat
  if c = '"' then ['\\', '"']
  else if c = '\\' then ['\\', '\\']
  else if c = '\n' then ['\\', 'n']
  else if c = '\r' then ['\\', 'r']
  else if c = '\t' then ['\\', 't']
  else if n = 8 then ['\\', 'b']
  else if n = 12 then ['\\', 'f']
  else if n < 0x20 then ['\\', 'u', '0', '0', Json.hexDigit (n / 16), Json.hexDigit (n % 16)]
  else [c]

def quote (s : String) : String := "\"" ++ String.ofList (s.toList.flatMap escapeChar) ++ "\""

@[grind =] def bool (b : Bool) : String := if b then "true" else "false"

/-- `to_string` of an object, given by its members in the order of their names. -/
def object (ms : List (String × String)) : String :=
  "\x7b" ++ Text.join "," (ms.map fun m => quote m.1 ++ ":" ++ m.2) ++ "\x7d"

end Serde
