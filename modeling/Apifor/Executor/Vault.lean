import Apifor.Lib.Base64
import Apifor.Lib.Interleave
import Apifor.Lib.Json
import Apifor.Lib.SortedMap

/-!
# The vault

`executor/src/vault.rs`: the encrypted secrets in `vault.json` under the master key in `vault.key`.
Opening, truncating and writing a file are separate steps of a program over the machine's disk; the
crates that write JSON, encrypt and hash are parameters.
-/

namespace Executor

open Base64 (Bytes)

structure Entry where
  nonce : String
  ct : String
  kind : String
  fingerprint : String
deriving DecidableEq

structure Store where
  secrets : SortedMap String Entry

namespace Store

/-- `Store::default`. -/
def blank : Store := ⟨.empty⟩

def insert (s : Store) (name : String) (e : Entry) : Store := ⟨s.secrets.insert name e⟩

def remove (s : Store) (name : String) : Store := ⟨s.secrets.erase name⟩

end Store

abbrev Key := { k : Bytes // k.length = 32 }

abbrev Nonce := { n : Bytes // n.length = 24 }

/-- What `serde_json`, `chacha20poly1305`, `sha2` and the Unicode tables do. `Text` is what a file holds. -/
structure Crates where
  Text : Type
  emptyFile : Text
  toVecPretty : Store → Text
  fromSlice : Text → Option Store
  fromStr : String → Except String Json
  isAlphanumeric : Char → Bool
  encrypt : Key → Nonce → Bytes → Except String Bytes
  decrypt : Key → Nonce → Bytes → Option Bytes
  sha256 : Bytes → Bytes

/-- What is documented of them: a store reads back as it was written, an empty file is no JSON text,
and a message decrypts under the key and the nonce it was encrypted under. -/
structure Crates.Lawful (c : Crates) : Prop where
  fromSlice_toVecPretty : ∀ s, c.fromSlice (c.toVecPretty s) = some s
  fromSlice_emptyFile : c.fromSlice c.emptyFile = none
  decrypt_encrypt : ∀ k n m ct, c.encrypt k n m = .ok ct → c.decrypt k n ct = some m

/-- The files under `APIFOR_HOME`, and what the daemon has answered on each local connection. -/
structure Machine (c : Crates) where
  vaultKey : Option Bytes
  vaultJson : Option c.Text
  kb : SortedMap String String
  answers : List (Nat × Json)

abbrev Task (c : Crates) (α : Type) := Prog (Machine c) String α

variable {c : Crates}

/-! ## The file of secrets -/

/-- The store a file holds; a file that is missing or does not parse holds none. -/
def Machine.store (m : Machine c) : Store := (m.vaultJson.bind c.fromSlice).getD .blank

def Machine.setJson (m : Machine c) (t : c.Text) : Machine c := { m with vaultJson := some t }

theorem Machine.store_setJson (hc : c.Lawful) (m : Machine c) (s : Store) : (m.setJson (c.toVecPretty s)).store = s := by
  simp [store, setJson, hc.fromSlice_toVecPretty]

theorem Machine.store_emptied (hc : c.Lawful) (m : Machine c) : (m.setJson c.emptyFile).store = .blank := by
  simp [store, setJson, hc.fromSlice_emptyFile]

@[simp] theorem Machine.vaultKey_setJson (m : Machine c) (t : c.Text) : (m.setJson t).vaultKey = m.vaultKey := rfl

namespace Vault

def load : Task c Store := .lift fun m => (m, m.store)

/-- How finely a save is observed: as one step, or as the truncation and the write that it is. -/
inductive Grain
  | whole
  | files

def save (g : Grain) (s : Store) : Task c (Except String Unit) :=
  match g with
  | .whole => .attempt "save" fun m => .ok (m.setJson (c.toVecPretty s), ())
  | .files => do
      match ← .attempt "open vault.json" fun m => .ok (m.setJson c.emptyFile, ()) with
      | .error e => pure (.error e)
      | .ok () => .attempt "write vault.json" fun m => .ok (m.setJson (c.toVecPretty s), ())

end Vault

/-! ## Texts and bytes -/

def utf8 (s : String) : Bytes := s.toUTF8.data.toList

/-- `String::from_utf8`. -/
def fromUtf8 (b : Bytes) : Option String := String.fromUTF8? ⟨b.toArray⟩

theorem fromUtf8_utf8 (s : String) : fromUtf8 (utf8 s) = some s := by
  unfold fromUtf8 utf8 String.fromUTF8?
  rw [Array.toArray_toList]
  exact dif_pos s.isValidUTF8

def hex (b : Bytes) : String :=
  String.ofList (b.flatMap fun x => [Json.hexDigit (x.toNat / 16), Json.hexDigit (x.toNat % 16)])

def fingerprint (c : Crates) (value : String) : String := hex ((c.sha256 (utf8 value)).take 6)

/-! ## The operations -/

/-- An open vault; its home directory is the machine's. -/
structure Vault where
  key : Key

namespace Vault

/-- The first 32 bytes of the key file; a shorter file is a slice out of range. -/
def firstKey (bytes : Bytes) : Option Key :=
  if h : 32 ≤ bytes.length then some ⟨bytes.take 32, by simp [h]⟩ else none

/-- The key in the file that was found, or a new one. -/
def unlock (random : Key) : Option Bytes → Task c (Except String Vault)
  | some bytes =>
      match firstKey bytes with
      | some k => pure (.ok ⟨k⟩)
      | none => .crash
  | none => do
      match ← .attempt "open vault.key" fun m => .ok ({ m with vaultKey := some [] }, ()) with
      | .error e => pure (.error e)
      | .ok () =>
          match ← .attempt "write vault.key" fun m => .ok ({ m with vaultKey := some random.1 }, ()) with
          | .error e => pure (.error e)
          | .ok () => pure (.ok ⟨random⟩)

def «open» (random : Key) : Task c (Except String Vault) := do
  let file ← .lift fun m => (m, m.vaultKey)
  unlock random file

def put (g : Grain) (v : Vault) (nonce : Nonce) (name value kind : String) : Task c (Except String String) :=
  match c.encrypt v.key nonce (utf8 value) with
  | .error e => pure (.error e)
  | .ok ct => do
      let s ← load
      match ← save g (s.insert name ⟨Base64.encode nonce.1, Base64.encode ct, kind, fingerprint c value⟩) with
      | .error e => pure (.error e)
      | .ok () => pure (.ok (fingerprint c value))

/-- `XNonce::from_slice`, which asserts the length. -/
def nonceOf (bytes : Bytes) : Option Nonce := if h : bytes.length = 24 then some ⟨bytes, h⟩ else none

/-- The value of an entry, if it decodes and decrypts; the outer `none` is a panic. -/
def reveal (c : Crates) (v : Vault) (e : Entry) : Option (Option String) :=
  match Base64.decode e.nonce, Base64.decode e.ct with
  | some nonce, some ct => (nonceOf nonce).map fun n => (c.decrypt v.key n ct).bind fromUtf8
  | _, _ => some none

def get (v : Vault) (name : String) : Task c (Option String) := do
  let s ← load
  match s.secrets.get? name with
  | none => pure none
  | some e =>
      match reveal c v e with
      | some value => pure value
      | none => .crash

def delete (g : Grain) (name : String) : Task c (Except String Bool) := do
  let s ← load
  match ← save g (s.remove name) with
  | .error e => pure (.error e)
  | .ok () => pure (.ok (s.secrets.get? name).isSome)

def list : Task c (List (String × String × String)) := do
  let s ← load
  pure (s.secrets.entries.map fun e => (e.1, e.2.kind, e.2.fingerprint))

end Vault

/-! ## Crates to compute with -/

/-- Crates of which only the round trips matter: a file is the store in it, and a ciphertext its message
with a tag. -/
def sample : Crates where
  Text := Option Store
  emptyFile := none
  toVecPretty := some
  fromSlice := id
  fromStr line := match Json.parse line with
    | some j => .ok j
    | none => .error "expected value at line 1 column 1"
  isAlphanumeric := Char.isAlphanum
  encrypt _ _ m := .ok (m ++ List.replicate 16 0)
  decrypt _ _ ct := some (ct.take (ct.length - 16))
  sha256 := id

theorem sample_lawful : sample.Lawful where
  fromSlice_toVecPretty _ := rfl
  fromSlice_emptyFile := rfl
  decrypt_encrypt k n m ct h := by
    cases h
    simp [sample]

def zeroKey : Key := ⟨List.replicate 32 0, by simp⟩

def zeroNonce : Nonce := ⟨List.replicate 24 0, by simp⟩

def noFiles : Machine sample := ⟨none, none, .empty, []⟩

end Executor
