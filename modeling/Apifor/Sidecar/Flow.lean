import Apifor.Sidecar.Output
import Apifor.Lib.Runs

/-!
# Connecting an account

`start_flow` and `submit_code` of `auth-sidecar/server.py`. Between the steps of `submit_code` the CLI prints and
changes the files of the account, the drain reads what was printed, and time passes.
-/

namespace Sidecar

open Regex Utf8

/-- Time in milliseconds. -/
abbrev Millis := Nat

def lastOf {α : Type} (n : Nat) (xs : List α) : List α := xs.drop (xs.length - n)

/-! ## Starting a flow -/

/-- What a wait for output comes to: nothing within a second, the end of the output, or some bytes. -/
inductive Read
  | nothing
  | closed
  | chunk (bs : Bytes)

/-- A turn of the loop of `start_flow`, and the clock at its beginning. -/
structure Poll where
  now : Millis
  read : Read

/-- The loop of `start_flow`: the URL, and what has been read by then. -/
def readUrl (deadline : Millis) : Bytes → List Poll → Option Bytes × Bytes
  | buf, [] => (none, buf)
  | buf, p :: ps =>
      if deadline ≤ p.now then (none, buf)
      else
        match p.read with
        | .nothing => readUrl deadline buf ps
        | .closed => (none, buf)
        | .chunk [] => (none, buf)
        | .chunk bs =>
            match extractUrl (buf ++ bs) with
            | some u => (some u, buf ++ bs)
            | none => readUrl deadline (buf ++ bs) ps

/-- `start_flow`, started at a time: the URL it returns, or its error. -/
def startFlow (now : Millis) (polls : List Poll) : Except String (List Char) :=
  match (readUrl (now + 30000) [] polls).1 with
  | some u => .ok (decode u)
  | none => .error "não foi possível obter a URL de autorização do claude CLI"

/-! ## The files of an account -/

/-- A file of an account, and who wrote it: an earlier flow, the CLI of this flow, or `_store_token`. -/
inductive File
  | earlier (text : String)
  | cli (text : String)
  | stored (token : String)
  deriving DecidableEq

/-- `.credentials.json` and `oauth_token`. -/
structure Account where
  credentials : Option File := none
  oauthToken : Option File := none
  deriving DecidableEq

inductive FileName | credentials | oauthToken

def Account.put (a : Account) (f : Option File) : FileName → Account
  | .credentials => { a with credentials := f }
  | .oauthToken => { a with oauthToken := f }

def storeToken (token : String) : Account := { credentials := some (.stored token), oauthToken := some (.stored token) }

/-! ## Submitting a code -/

inductive Answer
  | ok
  | failed (msg : String)
  deriving DecidableEq

/-- Where `submit_code` stands: before the code and before its Enter, before the loop, at the parts of a turn of
it, after it, or with its answer. -/
inductive Pc
  | code
  | enter
  | begin
  | look
  | credentials
  | oauthToken
  | judge
  | wait
  | last
  | answered (r : Answer)
  deriving DecidableEq

structure State where
  now : Millis := 0
  account : Account := {}
  /-- `flow["buf"]`, what was read of the output; and what was printed and is not read yet. -/
  buf : Bytes := []
  pending : Bytes := []
  /-- `flow["done"]`. -/
  done : Bool := false
  /-- The CLI has written credentials in this flow. -/
  saved : Bool := false
  recent : Bytes := []
  deadline : Millis := 0
  lastEnter : Millis := 0
  enterRetries : Nat := 0
  errSeen : Bool := false
  pc : Pc := .code

inductive Event
  | tick (d : Nat)
  | prints (bs : Bytes)
  | saves (name : FileName) (text : String)
  | removes (name : FileName)
  | drain (n : Nat)
  | ends
  | go (fault : Option String)

def State.answer (s : State) (r : Answer) : State := { s with pc := .answered r }

/-- `_store_token` and the answer. -/
def State.store (s : State) (token : String) : State := { s with account := storeToken token, pc := .answered .ok }

def mishap : Regex Char :=
  .alt (all [lit "OAuth error".toList, many (fun c => c ≠ '.') 0, one isDigit, one isDigit, one isDigit])
    (all [lit "status code ".toList, one isDigit, one isDigit, one isDigit])

/-- What the error says of the output. -/
def detail (full : Bytes) : String :=
  let text := sub (.alt (.alt csi osc) (lit ['\r'])) [' '] (decode (lastOf 800 full))
  let tail := Text.trimChars Text.isSpace (sub (many Text.isSpace 1) [' '] (sub unprintable [' '] text))
  match search mishap tail with
  | some m => String.ofList m.text
  | none => if tail = [] then "sem resposta do CLI" else String.ofList (lastOf 180 tail)

def rejected (full : Bytes) (errSeen : Bool) : String :=
  "código rejeitado ou expirado: " ++ detail full ++
    if errSeen then
      " — verifique se autorizou a MESMA janela aberta agora (não reabra/reconecte antes de colar)."
    else ""

def closedFlow (e : String) : String := "fluxo encerrado; reinicie a conexão (" ++ e ++ ")"

def oauthError (recent : Bytes) : Bool :=
  isIn (ascii "OAuth error") recent || isIn (ascii "Press Enter to retry") recent ||
    isIn (ascii "status code 4") recent

/-- A step of `submit_code`; a write to the terminal may fail. -/
def State.go (s : State) (fault : Option String) : State :=
  match s.pc with
  | .code =>
      match fault with
      | some e => s.answer (.failed (closedFlow e))
      | none => { s with pc := .enter }
  | .enter =>
      match fault with
      | some e => s.answer (.failed (closedFlow e))
      | none => { s with pc := .begin }
  | .begin => { s with deadline := s.now + 45000, lastEnter := s.now, pc := .look }
  | .look =>
      if s.deadline ≤ s.now then { s with pc := .last }
      else
        match captureToken (lastOf 4000 s.buf) with
        | some token => s.store token
        | none => { s with recent := lastOf 4000 s.buf, pc := .credentials }
  | .credentials => if s.account.credentials.isSome then s.answer .ok else { s with pc := .oauthToken }
  | .oauthToken => if s.account.oauthToken.isSome then s.answer .ok else { s with pc := .judge }
  | .judge =>
      if oauthError s.recent then { s with errSeen := true, pc := .last }
      else if s.now - s.lastEnter > 5000 ∧ s.enterRetries < 3 ∧ isIn (ascii "Paste code here") s.recent then
        match fault with
        | some _ => { s with pc := .last }
        | none => { s with enterRetries := s.enterRetries + 1, lastEnter := s.now, pc := .wait }
      else { s with pc := .wait }
  | .wait => if s.done then { s with pc := .last } else { s with pc := .look }
  | .last =>
      match captureToken s.buf with
      | some token => s.store token
      | none => s.answer (.failed (rejected s.buf s.errSeen))
  | .answered _ => s

def State.next (s : State) : Event → State
  | .tick d => { s with now := s.now + d }
  | .prints bs => { s with pending := s.pending ++ bs }
  | .saves name text => { s with account := s.account.put (some (.cli text)) name, saved := true }
  | .removes name => { s with account := s.account.put none name }
  | .drain n => { s with buf := s.buf ++ s.pending.take n, pending := s.pending.drop n }
  | .ends => { s with done := true }
  | .go fault => s.go fault

/-- The flow ends with the answer: the CLI is killed and its terminal closed. -/
def step (s : State) (e : Event) : State :=
  match s.pc with
  | .answered _ => s
  | _ => s.next e

end Sidecar
