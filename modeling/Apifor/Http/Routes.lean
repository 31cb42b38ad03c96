import Apifor.Http.Admin

/-!
# The REST server

The mux of `api.go` and the middleware around it: authentication, the rate limit of an org's plan,
CORS. A handler either acts within its caller's org, which its type says, or is free to do anything.
-/

namespace Apifor

namespace API

variable (a : API)

inductive Handler
  | own (T : Tbl → Bool) (h : (u : Caller) → Request → OrgM T u.orgID Response)
  | free (h : Caller → Request → Cmd Response)

def Handler.run (h : Handler) (u : Caller) (r : Request) : Cmd Response :=
  match h with
  | .own _ h => (h u r).cmd a.server.rls
  | .free h => h u r

def health : Response :=
  writeJSON 200 (.obj [("service", .str "cerebro"), ("status", .str "ok"), ("milestone", .str "M3.2a")])

def globalCounts (s : Store) : List (String × Val) :=
  [("orgs", .int (s .org).rows.length), ("users", .int (s .appUser).rows.length),
    ("tasks", .int (s .task).rows.length), ("tasks_merged", count (fun t => decide (t.status = .merged)) (s .task).rows),
    ("tasks_failed", count (fun t => decide (t.status = .failed)) (s .task).rows),
    ("leases_active", count (fun l => decide (l.endedAt = none)) (s .lease).rows),
    ("pull_requests", .int (s .pullRequest).rows.length),
    ("devices_active", count (fun d => decide (d.revokedAt = none)) (s .device).rows)]

def metricsVal (m : Metrics) : List (String × Val) :=
  [("http_requests_total", .int m.requests), ("http_rate_limited_total", .int m.rateLimited),
    ("http_responses_total 2xx", .int m.status2xx), ("http_responses_total 4xx", .int m.status4xx),
    ("http_responses_total 5xx", .int m.status5xx)]

/-- The lines of `/metrics`, as names and numbers. -/
def metricsHandler : Cmd Response := do
  let m ← (.lift fun w => (w, w.http.metrics) : Cmd Metrics)
  match ← read "GlobalCounts" globalCounts with
  | .ok counts => pure ⟨200, .json (.obj (metricsVal m ++ counts))⟩
  | .error _ => pure ⟨200, .json (.obj (metricsVal m))⟩

/-- A handler that reads its caller's org, or writes its settings. -/
abbrev Screen := (u : Caller) → Request → SettingsM u.orgID Response

/-- The routes of `Routes` that lead to such a handler. -/
def screens : List (String × Screen) :=
  [("/v1/audit", fun u _ => auditList u),
    ("/v1/audit/export", fun u _ => auditExport u),
    ("/v1/members", a.members),
    ("/v1/members/", memberRemove),
    ("/v1/workspaces", workspaces),
    ("/v1/me", fun u _ => me u),
    ("/v1/workers", workers),
    ("/v1/tasks/", taskSteps),
    ("/v1/secrets", secrets),
    ("/v1/repos", repos),
    ("/v1/prs", prs),
    ("/v1/interventions", interventions),
    ("/v1/memories", memories),
    ("/v1/memories/", memoryDelete),
    ("/v1/kb-documents", kbDocs),
    ("/v1/routines", routines),
    ("/v1/ci", ci),
    ("/v1/logs", logs),
    ("/v1/pool", pool),
    ("/v1/connections", connections),
    ("/v1/connections/claude/", a.claudeAuth),
    ("/v1/connections/anthropic/test", anthropicTest),
    ("/v1/connections/git", gitConnect),
    ("/v1/connections/git/test", gitTest),
    ("/v1/connections/code/repos", codeRemoteRepos),
    ("/v1/repos/clone-url", codeCloneURL),
    ("/v1/repos/", repoByID),
    ("/v1/connections/git/github/device", githubDeviceStart),
    ("/v1/connections/git/github/device/status", fun u _ => githubDeviceStatus u),
    ("/v1/connections/git/github/oauth/start", a.githubOAuthStart),
    ("/v1/connections/tasks", tasksConnect),
    ("/v1/connections/tasks/test", tasksTest),
    ("/v1/connections/integration", integrationConnect),
    ("/v1/connections/integration/test", integrationTest),
    ("/v1/connections/reuse", reuseConnection),
    ("/v1/pinned-workers", pinnedWorkers),
    ("/v1/pinned-workers/bulk", pinnedWorkersBulk),
    ("/v1/pinned-workers/", pinnedWorkerByID),
    ("/v1/qa", qa),
    ("/v1/telemetry", fun u _ => telemetry u),
    ("/v1/usage", fun u _ => a.usage u),
    ("/v1/devices", fun u _ => devices u),
    ("/v1/billing/checkout", a.checkout),
    ("/v1/billing/portal", a.portal),
    ("/v1/subscription", fun u _ => subscription u),
    ("/v1/invoices", fun u _ => invoices u),
    ("/v1/notifications", notifications),
    ("/v1/notifications/stream", fun u _ => notifStream u),
    ("/v1/workers/stream", fun u _ => stream u)]

/-- `Routes`; the order of the patterns does not matter to the mux. -/
def routes : List (String × Handler) :=
  a.screens.map (fun e => (e.1, .own settings e.2)) ++
  [("/healthz", .free fun _ _ => pure health),
    ("/metrics", .free fun _ _ => metricsHandler),
    ("/v1/ca", .free fun _ _ => pure ⟨200, .raw a.caCertPEM⟩),
    ("/v1/auth/login", .free fun _ r => a.login r),
    ("/v1/auth/register", .free fun _ r => a.register r),
    ("/v1/tasks", .free a.tasks),
    ("/v1/interventions/", .free a.interventionAnswer),
    ("/v1/routines/", .free a.routineAction),
    ("/v1/connections/git/github/oauth/callback", .free fun _ r => a.githubOAuthCallback r),
    ("/v1/devices/", .own DB.deviceTables deviceRevoke),
    ("/v1/billing/plan", .own DB.planTables setPlan),
    ("/v1/billing/webhook", .free fun _ r => a.webhook r),
    ("/v1/admin/stats", .free fun u _ => adminStats u),
    ("/v1/admin/orgs", .free fun u _ => adminOrgs u),
    ("/v1/admin/orgs/", .free a.adminOrgAction),
    ("/v1/admin/users", .free fun u _ => adminUsers u),
    ("/v1/admin/users/", .free a.adminUserAction),
    ("/v1/admin/audit", .free adminAudit),
    ("/v1/admin/plans", .free fun u _ => adminPlans u)]

/-! ## The mux -/

/-- A pattern that ends in a slash matches the paths below it. -/
def matchesPath (path pattern : String) : Bool :=
  decide (pattern = path) || (Text.hasSuffix pattern "/" && Text.hasPrefix path pattern)

/-- The longest pattern that matches. -/
def longest : List (String × Handler) → Option (String × Handler)
  | [] => none
  | e :: es =>
      match longest es with
      | none => some e
      | some e' => if e'.1.length < e.1.length then some e else some e'

/-- The elements of a cleaned path. -/
def cleanElems : List String → List String → List String
  | acc, [] => acc.reverse
  | acc, e :: es =>
      if e = "" ∨ e = "." then cleanElems acc es
      else if e = ".." then cleanElems acc.tail es
      else cleanElems (e :: acc) es

/-- `cleanPath`: a slash at the end is kept. -/
def cleanPath (path : String) : String :=
  let elems := cleanElems [] (Text.split path '/')
  let clean := "/" ++ Text.join "/" elems
  if Text.hasSuffix path "/" ∧ elems ≠ [] then clean ++ "/" else clean

def notFound : Response := ⟨404, .raw "404 page not found\n"⟩

/-- A path that is not clean, or misses the slash of a subtree, is redirected. -/
def mux (u : Caller) (r : Request) : Cmd Response :=
  let clean := cleanPath r.path
  match longest (a.routes.filter fun e => matchesPath clean e.1) with
  | some e => if clean = r.path then e.2.run a u r else pure ⟨301, .redirect clean⟩
  | none =>
      if a.routes.any fun e => decide (e.1 = clean ++ "/") then pure ⟨301, .redirect (clean ++ "/")⟩
      else if clean = r.path then pure notFound
      else pure ⟨301, .redirect clean⟩

def cors (u : Caller) (r : Request) : Cmd Response :=
  if r.method = "OPTIONS" then pure ⟨204, .empty⟩ else a.mux u r

/-! ## The rate limit -/

/-- 0 is no limit. -/
def rpmForPlan (plan : OrgPlan) : Int :=
  match plan with
  | .free => 240
  | .pro => 600
  | .team => 2000
  | .enterprise => 0

def getOrgPlan (orgID : Id) : Cmd OrgPlan := do
  match ← query "GetOrgPlan" fun _ s => row (DB.planOf s orgID) with
  | .ok p => pure p
  | .error _ => pure .free

/-- A step of the REST side's memory. -/
def httpStep {α : Type} (f : Time → HttpMemory → HttpMemory × α) : Cmd α :=
  .lift fun w => ({ w with http := (f w.now w.http).1 }, (f w.now w.http).2)

/-- `time.Now().Unix()`. -/
def unixNow : Cmd Int := .lift fun w => (w, w.now / second)

/-- The cached limit, if it has not expired. -/
def cachedRpm (org : Id) (unix : Int) (m : HttpMemory) : Option Int :=
  (m.plan org).bind fun c => if c.exp > unix then some c.rpm else none

/-- The clock is read before the lock is taken. -/
def rpm (org : Id) : Cmd Int := do
  let unix ← unixNow
  match ← httpStep fun _ m => (m, cachedRpm org unix m) with
  | some n => pure n
  | none => do
      let p ← getOrgPlan org
      httpStep fun _ m =>
        let entry : PlanCache := { rpm := rpmForPlan p, exp := unix + 30 }
        ({ m with plan := Function.update m.plan org (some entry) }, rpmForPlan p)

/-- The window of a minute, one request further. -/
def hit (org : Id) (minute : Int) (m : HttpMemory) : CounterWin :=
  match m.win org with
  | some c => if c.minute = minute then { c with count := c.count + 1 } else { minute := minute, count := 1 }
  | none => { minute := minute, count := 1 }

/-- What `allow` does under the lock, for the minute it has read before. -/
def enter (org : Id) (limit minute : Int) : Cmd Bool :=
  httpStep fun _ m =>
    ({ m with win := Function.update m.win org (some (hit org minute m)) }, decide ((hit org minute m).count ≤ limit))

def allow (org : Id) : Cmd Bool := do
  let limit ← rpm org
  if limit ≤ 0 then pure true
  else do
    let unix ← unixNow
    enter org limit (unix / 60)

def rateLimitable (path : String) : Bool :=
  if path = "/healthz" ∨ path = "/v1/ca" ∨ path = "/metrics" then false else !Text.hasSuffix path "/stream"

def publicPath (path : String) : Bool :=
  ["/healthz", "/metrics", "/v1/ca", "/v1/auth/login", "/v1/auth/register", "/v1/billing/webhook"].contains path

def recordStatus (code : Nat) : Cmd Unit :=
  httpStep fun _ m =>
    let k := m.metrics
    let k := if code ≥ 500 then { k with status5xx := k.status5xx + 1 }
      else if code ≥ 400 then { k with status4xx := k.status4xx + 1 }
      else { k with status2xx := k.status2xx + 1 }
    ({ m with metrics := k }, ())

def countMetric (f : Metrics → Metrics) : Cmd Unit := httpStep fun _ m => ({ m with metrics := f m.metrics }, ())

/-- The answer of the middleware, or `none` when the request may pass. -/
def refuse (u : Caller) (r : Request) : Cmd (Option Response) :=
  if a.requireAuth ∧ r.method ≠ "OPTIONS" ∧ publicPath r.path = false ∧ u.userID = "" then
    pure (some (fail 401 "unauthorized" "autenticação obrigatória"))
  else if r.method ≠ "OPTIONS" ∧ rateLimitable r.path then do
    let ok ← allow u.orgID
    if ok then pure none
    else do
      countMetric fun k => { k with rateLimited := k.rateLimited + 1 }
      pure (some (fail 429 "rate_limit" "limite de requisições por minuto do plano excedido"))
  else pure none

/-- `instrument(cors(mux))`. -/
def serve (r : Request) : Cmd Response := do
  countMetric fun k => { k with requests := k.requests + 1 }
  let u := a.authz r
  match ← a.refuse u r with
  | some resp => do
      recordStatus resp.code
      pure resp
  | none => do
      let resp ← a.cors u r
      recordStatus resp.code
      pure resp

end API

end Apifor
