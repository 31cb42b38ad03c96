import Apifor.Http.Stripe
import Apifor.Http.Tasks

/-!
# Accounts, plans and devices

Login and registration, the plan's screens, the Stripe webhook, and the revocation of a device. The
webhook is not authenticated by a token: it acts for the org its signed event names.
-/

namespace Apifor

namespace API

variable (a : API) (u : Caller) (r : Request)

/-! ## Accounts -/

structure User where
  id : Id
  email : String
  hash : String
  orgID : String
  role : String
  status : UserStatus

/-- The user with the oldest of its memberships, whatever that membership's status is. -/
def findUser (s : Store) (email : String) : Option User :=
  ((s .appUser).rows.find? fun v => sameEmail v.email email).map fun v =>
    let m := oldest (fun m => decide (m.userId = v.id)) (s .membership).rows
    { id := v.id, email := v.email, hash := v.passwordHash.getD "", orgID := (m.map (·.orgId)).getD "",
      role := (m.map fun m => PgEnum.text m.permissionTier).getD "", status := v.status }

structure LoginBody where
  email : String := ""
  password : String := ""
  name : String := ""
  org : String := ""

def loginFields : List (Json.Field LoginBody) :=
  [Json.stringField "Email" fun v b => { b with email := v },
    Json.stringField "Password" fun v b => { b with password := v }]

def registerFields : List (Json.Field LoginBody) :=
  loginFields ++
    [Json.stringField "Name" fun v b => { b with name := v }, Json.stringField "Org" fun v b => { b with org := v }]

def isSuperAdmin (email : String) : Bool := a.superAdminEmails.any fun e => Text.equalFold e email

def tokenTTLOf : Int := if a.tokenTTL > 0 then a.tokenTTL else 12 * 3600 * second

def session (user org role : String) (now : Time) : Val :=
  .obj [("access_token", .str (a.issue user org role (now + a.tokenTTLOf))), ("org_id", .str org),
    ("role", .str role)]

def login : Cmd Response := do
  let (b, ok) := Json.decodeFirst loginFields r.body {}
  if !ok then pure (fail 400 "bad_request" "json inválido")
  else do
    let res ← read "FindUserByEmail" fun s => findUser s b.email
    match res.toOption.join with
    | none => pure (fail 401 "unauthorized" "credenciais inválidas")
    | some v =>
        if a.checkPassword v.hash b.password = false then
          pure (fail 401 "unauthorized" "credenciais inválidas")
        else if v.status = .suspended then
          pure (fail 403 "suspended" "conta suspensa — contate o administrador")
        else do
          let now ← timeNow
          if a.isSuperAdmin v.email then pure (writeJSON 200 (a.session v.id "" "superadmin" now))
          else pure (writeJSON 200 (a.session v.id v.orgID (if v.role = "" then "owner" else v.role) now))

def emailExists (s : Store) (email : String) : Bool := (s .appUser).rows.any fun v => sameEmail v.email email

def register : Cmd Response := do
  let (b, ok) := Json.decodeFirst registerFields r.body {}
  if !ok ∨ b.email = "" ∨ b.password = "" then pure (fail 400 "bad_request" "email e password obrigatórios")
  else do
    let res ← read "EmailExists" fun s => emailExists s b.email
    if res.toOption = some true then pure (fail 409 "conflict" "email já cadastrado")
    else do
      let orgName := if b.org = "" then b.email ++ "'s org" else b.org
      match ← DB.registerOrg a.server.rls b.email b.name (a.hashPassword b.password) orgName with
      | .error e => pure (internal e)
      | .ok (uid, oid) => do
          let now ← timeNow
          pure (writeJSON 201 (a.session uid oid "owner" now))

/-! ## The plan -/

structure PlanBody where
  plan : String := ""

def planBody : PlanBody × Bool := Json.decodeFirst [Json.stringField "Plan" fun v _ => PlanBody.mk v] r.body {}

def setPlan : OrgM DB.planTables u.orgID Response :=
  guarded u "billing" do
    let (b, ok) := planBody r
    if !ok then pure (fail 400 "bad_request" "json inválido")
    else if (PgEnum.ofText? b.plan : Option OrgPlan).isNone then pure (fail 400 "bad_request" "plano inválido")
    else do
      let res ← DB.setPlan b.plan
      answer u res fun _ => do
        recordAudit u "plan.change" "org" b.plan
        pure (writeJSON 200 (.obj [("plan", .str b.plan)]))

def stripeAnswer : Except String String → Response
  | .error msg => fail 502 "stripe" msg
  | .ok url => writeJSON 201 (.obj [("url", .str url), ("configured", .bool true)])

def checkout : SettingsM u.orgID Response :=
  guarded u "billing" do
    let (b, _) := planBody r
    if b.plan ≠ "pro" ∧ b.plan ≠ "team" then pure (fail 400 "bad_request" "plano de checkout: pro|team")
    else if a.stripeSecretKey = "" then
      pure (writeJSON 201 (.obj [("url", .str ("stub://checkout?plan=" ++ b.plan ++ "&org=" ++ u.orgID)),
        ("configured", .bool false),
        ("note", .str "STRIPE_SECRET_KEY ausente — webhook sintético ou /v1/billing/plan")]))
    else if a.stripePrices b.plan = "" then
      pure (stripeAnswer (.error "price do plano não configurado (STRIPE_PRICE_*)"))
    else pure (stripeAnswer (Stripe.postStripe "url" (r.reply 0)))

def portal : SettingsM u.orgID Response :=
  guarded u "billing" do
    let sub ← OrgM.query "GetSubscription" fun _ s => .ok (DB.subscriptionOf s u.orgID)
    match sub.toOption.join with
    | none =>
        pure (writeJSON 201 (.obj [("url", .str ("stub://portal?org=" ++ u.orgID)), ("configured", .bool false)]))
    | some b =>
        if a.stripeSecretKey = "" then
          pure (writeJSON 201 (.obj [("url", .str ("stub://portal?org=" ++ u.orgID)), ("configured", .bool false)]))
        else if b.stripeCustomerId.getD "" = "" then pure (stripeAnswer (.error "sem stripe_customer_id"))
        else pure (stripeAnswer (Stripe.postStripe "url" (r.reply 0)))

/-! ## The webhook -/

structure StripeObject where
  id : String := ""
  customer : String := ""
  subscription : String := ""
  clientReferenceID : String := ""
  amountPaid : Int := 0
  currency : String := ""
  hostedInvoiceURL : String := ""
  metadata : List (String × String) := []

structure StripeEvent where
  type : String := ""
  object : StripeObject := {}

def stripeObjectFields : List (Json.Field StripeObject) :=
  [Json.stringField "id" fun v o => { o with id := v },
    Json.stringField "customer" fun v o => { o with customer := v },
    Json.stringField "subscription" fun v o => { o with subscription := v },
    Json.stringField "client_reference_id" fun v o => { o with clientReferenceID := v },
    Json.intField "amount_paid" fun v o => { o with amountPaid := v },
    Json.stringField "currency" fun v o => { o with currency := v },
    Json.stringField "hosted_invoice_url" fun v o => { o with hostedInvoiceURL := v },
    Json.stringMapField "metadata" (·.metadata) fun v o => { o with metadata := v }]

def stripeEventFields : List (Json.Field StripeEvent) :=
  [Json.stringField "type" fun v e => { e with type := v },
    Json.structField "data" [Json.structField "object" stripeObjectFields id fun v _ => v] (·.object)
      fun v e => { e with object := v }]

def stripeEvent (body : String) : StripeEvent × Bool := Json.unmarshal stripeEventFields body {}

/-- The last entry of a map under a name, or the empty string. -/
def entry (m : List (String × String)) (name : String) : String :=
  ((m.reverse.find? fun q => decide (q.1 = name)).map (·.2)).getD ""

/-- The org that a billing event is about. -/
def eventOrg (o : StripeObject) : Cmd Id :=
  if entry o.metadata "org_id" ≠ "" then pure (entry o.metadata "org_id")
  else if o.clientReferenceID ≠ "" then pure o.clientReferenceID
  else do
    match ← DB.orgByStripeCustomer o.customer with
    | .ok org => pure org
    | .error _ => pure ""

def defCur (c : String) : String := if c = "" then "usd" else c

def graceSec : Int := if a.dunningGraceSec ≤ 0 then 7 * 24 * 3600 else a.dunningGraceSec

/-- What a billing event does to its org. -/
def applyEvent (org : Id) (ev : StripeEvent) : Cmd Unit := do
  let o := ev.object
  if ev.type = "checkout.session.completed" then do
    let plan := entry o.metadata "plan"
    let _ ← DB.upsertSubscription org (if plan = "" then "pro" else plan) o.customer o.subscription
  else if ev.type = "invoice.payment_failed" then do
    let now ← timeNow
    let _ ← DB.setSubscriptionPastDue org (now + a.graceSec * second)
  else if ev.type = "invoice.payment_succeeded" then do
    let _ ← DB.setSubscriptionActive org
    let _ ← DB.createInvoice org o.id o.amountPaid (defCur o.currency) "paid" o.hostedInvoiceURL
  else if ev.type = "customer.subscription.deleted" then do
    let _ ← DB.downgradeToFree org

def webhook : Cmd Response := do
  let now ← timeNow
  match Stripe.verifyWebhook a.hmac (Utf8.encode r.body) r.signature a.stripeWebhookSecret (300 * second) now with
  | .error msg => pure (fail 400 "bad_signature" msg)
  | .ok () => do
      let (ev, ok) := stripeEvent r.body
      if !ok then pure (fail 400 "bad_request" "evento inválido")
      else do
        let org ← eventOrg ev.object
        if org = "" then pure (writeJSON 200 (.obj [("received", .bool true), ("ignored", .str "sem org")]))
        else do
          a.applyEvent org ev
          pure (writeJSON 200 (.obj [("received", .bool true), ("type", .str ev.type)]))

/-! ## Devices -/

def deviceRevoke : OrgM DB.deviceTables u.orgID Response :=
  match idBetween r.path "/v1/devices/" "/revoke" with
  | none => pure (fail 404 "not_found" "use POST /v1/devices/\x7bid\x7d/revoke")
  | some id =>
      if r.method ≠ "POST" then pure (fail 404 "not_found" "use POST /v1/devices/\x7bid\x7d/revoke")
      else guarded u "manage" do
        let res ← DB.revokeDevice id
        answer u res fun _ => do
          recordAudit u "device.revoke" "device" id
          pure (writeJSON 200 (.obj [("id", .str id), ("revoked", .bool true)]))

end API

end Apifor
