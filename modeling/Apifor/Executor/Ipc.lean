import Apifor.Executor.Vault

/-!
# The local channel

`executor/src/ipc.rs`: one task per connection of the Unix socket, which answers the lines of that
connection one after another.
-/

namespace Executor

variable {c : Crates}

/-! ## Reading a request -/

namespace Value

/-- `Value::get`: an object keeps the last of the members of one name. -/
def get (j : Json) (name : String) : Option Json :=
  match j with
  | .obj ms => (ms.reverse.find? fun m => decide (m.1 = name)).map (·.2)
  | _ => none

def asStr : Json → Option String
  | .str s => some s
  | _ => none

def strOr (j : Json) (name default : String) : String := ((get j name).bind asStr).getD default

end Value

namespace Ipc

/-- A line on a connection, the nonce that a `put` would draw for it, and whether the brain would
register what it brings. -/
structure Call where
  line : String
  nonce : Nonce
  registered : Bool

def authorized (req : Json) (token : String) : Bool :=
  decide ((Value.get req "token").bind Value.asStr = some token)

def failure (error : String) : Json := .obj [("ok", .bool false), ("error", .str error)]

/-! ## Documents of the knowledge base -/

def safeName (c : Crates) (name : String) : String :=
  String.ofList (name.toList.filter fun x => c.isAlphanumeric x || x = '.' || x = '-' || x = '_')

/-- A file can be written under a name that is no directory and no longer than the file system allows. -/
def writable (name : String) : Bool := !(["", ".", ".."].contains name) && decide (name.utf8ByteSize ≤ 255)

def writeKb (name content : String) : Task c (Except String Unit) :=
  .attempt "write kb" fun m =>
    if writable name then .ok ({ m with kb := m.kb.insert name content }, ()) else .error "falha ao gravar KB local"

/-! ## Serving -/

def dispatch (g : Vault.Grain) (v : Vault) (token : String) (call : Call) : Task c Json :=
  match c.fromStr call.line with
  | .error e => pure (failure ("json inválido: " ++ e))
  | .ok req =>
      if !authorized req token then pure (failure "token de processo inválido")
      else
        match Value.strOr req "cmd" "" with
        | "secret.put" =>
            let name := Value.strOr req "name" ""
            let value := Value.strOr req "value" ""
            let kind := Value.strOr req "kind" "api_key"
            if name = "" ∨ value = "" then pure (failure "name e value obrigatórios")
            else do
              match ← v.put g call.nonce name value kind with
              | .ok fp => pure (.obj [("ok", .bool true), ("fingerprint", .str fp), ("registered", .bool call.registered)])
              | .error e => pure (failure e)
        | "secret.delete" => do
            match ← Vault.delete g (Value.strOr req "name" "") with
            | .ok existed => pure (.obj [("ok", .bool true), ("existed", .bool existed)])
            | .error e => pure (failure e)
        | "kb.import" =>
            let name := Value.strOr req "name" ""
            let content := Value.strOr req "content" ""
            if name = "" ∨ content = "" then pure (failure "name e content obrigatórios")
            else do
              match ← writeKb (safeName c name) content with
              | .error e => pure (failure e)
              | .ok () =>
                  pure (.obj [("ok", .bool true), ("file_ref", .str ("kb/" ++ safeName c name)),
                    ("registered", .bool call.registered)])
        | "status" | "daemon.status" => do
            let secrets ← Vault.list
            pure (.obj [("ok", .bool true),
              ("secrets", .arr (secrets.map fun s =>
                .obj [("name", .str s.1), ("kind", .str s.2.1), ("fingerprint", .str s.2.2)]))])
        | other => pure (failure ("cmd desconhecido: " ++ other))

def reply (conn : Nat) (resp : Json) : Task c Unit :=
  .lift fun m => ({ m with answers := m.answers ++ [(conn, resp)] }, ())

def blankLine (call : Call) : Bool := decide (Text.trimSpace call.line = "")

/-- One connection, with the lines that come in on it. -/
def handle (g : Vault.Grain) (v : Vault) (token : String) (conn : Nat) : List Call → Task c Unit
  | [] => pure ()
  | call :: calls =>
      if blankLine call then handle g v token conn calls
      else do
        let resp ← dispatch g v token call
        reply conn resp
        handle g v token conn calls

/-- The daemon with its connections, each load and each save of the vault one step. -/
def serve (v : Vault) (token : String) (conns : List (List Call)) (m : Machine c) : Pool (Machine c) String where
  shared := m
  threads := conns.zipIdx.map fun conn => handle .whole v token conn.2 conn.1

end Ipc

end Executor
