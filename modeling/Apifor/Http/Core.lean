import Apifor.Db.Lists
import Apifor.Grpc.Stream

/-!
# Requests and responses

The parts of `api.go` that every handler shares: the server's configuration, the caller behind a
bearer token, the capabilities of a role, and the shapes of a request and a response. Code outside
the repository (JWT, bcrypt, HMAC, the providers' HTTP services) is a parameter.
-/

namespace Apifor

structure Claims where
  subject : String
  orgID : Id
  role : String
  deriving DecidableEq

/-- What an outside service answers to a call. -/
inductive Reply
  | failed (msg : String)
  | answer (status : Int) (body : String)
  deriving DecidableEq

/-- `claims` is what `Auth.Parse` makes of the bearer token, `replies` what the outside services
answer while the request is handled, in the order of the calls. -/
structure Request where
  method : String
  path : String
  query : List (String × String) := []
  claims : Option Claims := none
  workspace : String := ""
  signature : String := ""
  body : String := ""
  replies : List Reply := []
  deriving DecidableEq

namespace Request

/-- `r.URL.Query().Get`. -/
def get (r : Request) (name : String) : String :=
  ((r.query.find? fun q => decide (q.1 = name)).map (·.2)).getD ""

def reply (r : Request) (i : Nat) : Reply := r.replies.getD i (.failed "")

end Request

inductive Body
  | empty
  | json (v : Val)
  | raw (s : String)
  | csv (rows : List Val)
  | event (v : Val)
  | redirect (target : String)

structure Response where
  code : Nat
  body : Body

structure API where
  server : Server := {}
  caCertPEM : String := ""
  hoursCapOverrideSec : Int := 0
  leaseTTLOverrideSec : Int := 0
  stripeSecretKey : String := ""
  stripeWebhookSecret : String := ""
  stripePrices : String → String := fun _ => ""
  dunningGraceSec : Int := 0
  publicURL : String := ""
  requireAuth : Bool := true
  superAdminEmails : List String := []
  tokenTTL : Int := 0
  authSidecarURL : String := ""
  gitHubOAuthClientID : String := ""
  gitHubOAuthClientSecret : String := ""
  checkPassword : String → String → Bool := fun _ _ => false
  hashPassword : String → String := id
  issue : Id → Id → String → Time → String := fun u o r _ => u ++ "." ++ o ++ "." ++ r
  /-- HMAC-SHA256 of some bytes under a secret. -/
  hmac : String → List UInt8 → List UInt8 := fun _ _ => []

/-- `(userID, orgID, role)` of `authz`. -/
structure Caller where
  userID : Id
  orgID : Id
  role : String
  deriving DecidableEq

/-! ## Answers -/

def writeJSON (code : Nat) (v : Val) : Response := ⟨code, .json v⟩

def errBody (code msg : String) : Val := .obj [("error", .obj [("code", .str code), ("message", .str msg)])]

def fail (status : Nat) (code msg : String) : Response := writeJSON status (errBody code msg)

/-- `errBody("internal", err.Error())`. -/
def internal (e : DbErr) : Response :=
  writeJSON 500 (.obj [("error", .obj [("code", .str "internal"), ("message", .err e)])])

/-- A body that does not decode, answered with the decoder's own text. -/
def badJSON : Response :=
  writeJSON 400 (.obj [("error", .obj [("code", .str "bad_request"), ("message", .err (.other "json"))])])

def dataOf (rows : List Val) : Response := writeJSON 200 (.obj [("data", .arr rows)])

def created (id : Id) : Response := writeJSON 201 (.obj [("id", .str id)])

def okTrue : Response := writeJSON 200 (.obj [("ok", .bool true)])

/-! ## Callers -/

/-- `can`: the capabilities of a role. -/
def can (role cap : String) : Bool :=
  if role = "superadmin" then true
  else if cap = "read" then true
  else if cap = "write" then decide (role = "owner" ∨ role = "admin" ∨ role = "member")
  else if cap = "manage" then decide (role = "owner" ∨ role = "admin")
  else if cap = "billing" then decide (role = "owner" ∨ role = "billing")
  else false

def forbidden (role cap : String) : Response :=
  fail 403 "forbidden" ("papel '" ++ role ++ "' sem permissão p/ '" ++ cap ++ "'")

/-- `requireCap`. -/
def guarded {m : Type → Type 1} [Monad m] (u : Caller) (cap : String) (h : m Response) : m Response :=
  if can u.role cap then h else pure (forbidden u.role cap)

namespace API

def authz (a : API) (r : Request) : Caller :=
  match r.claims with
  | some c =>
      if c.subject = "" then
        if a.requireAuth then ⟨"", "", ""⟩ else ⟨demoUserID, demoOrgID, "owner"⟩
      else ⟨c.subject, c.orgID, if c.role = "" then "member" else c.role⟩
  | none => if a.requireAuth then ⟨"", "", ""⟩ else ⟨demoUserID, demoOrgID, "owner"⟩

end API

end Apifor
