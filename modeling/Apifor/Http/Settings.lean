import Apifor.Http.Core
import Apifor.Lib.Csv

/-!
# The configuration screens

The handlers of `api.go` that read the caller's org or change its settings. Their type says that
they write nothing but settings, and nothing of another org.
-/

namespace Apifor

namespace API

variable (a : API) (u : Caller) (r : Request)

/-- A list endpoint: the rows, or the error. -/
def listing (name : String) (f : Time → View → Except DbErr (List Val)) : SettingsM u.orgID Response := do
  match ← OrgM.view name f with
  | .ok rows => pure (dataOf rows)
  | .error e => pure (internal e)

/-- What a handler answers to the outcome of its statement. -/
def answer {α : Type} {T : Tbl → Bool} (x : Except DbErr α) (ok : α → OrgM T u.orgID Response) :
    OrgM T u.orgID Response :=
  match x with
  | .ok v => ok v
  | .error e => pure (internal e)

def recordAudit {T : Tbl → Bool} (action targetType targetID : String) (ht : T .auditLog = true := by rfl) :
    OrgM T u.orgID Unit := DB.writeAudit u.userID action targetType targetID ht

def firstWorkspace : SettingsM u.orgID Id :=
  OrgM.ofRead (DB.firstWorkspace u.orgID) (DB.readOnly_firstWorkspace u.orgID)

def me : SettingsM u.orgID Response :=
  pure (writeJSON 200 (.obj [("user_id", .str u.userID), ("org_id", .str u.orgID), ("role", .str u.role)]))

/-! ## Audit -/

def auditList : SettingsM u.orgID Response :=
  guarded u "manage" (listing u "ListAudit" fun _ v => .ok (DB.listAudit 200 v))

def auditExport : SettingsM u.orgID Response :=
  guarded u "manage" do
    match ← OrgM.view "ListAudit" fun _ v => .ok (DB.listAudit 1000 v) with
    | .ok rows => pure ⟨200, .csv rows⟩
    | .error e => pure (internal e)

def csvColumns : List String := ["when", "actor_type", "actor_id", "action", "target_type", "target_id"]

/-- `fmt.Sprintf("%v", x[col])`: the columns of the trail are texts; one that is missing prints as `<nil>`.
`toChar` is how the database formats a timestamp. -/
def cellOf (toChar : String → Time → String) (x : Val) (col : String) : String :=
  match x with
  | .obj fields =>
      match fields.lookup col with
      | some (.str s) => s
      | some (.time fmt t) => toChar fmt t
      | _ => "<nil>"
  | _ => "<nil>"

def isFormula (s : String) : Bool :=
  match s.toList with
  | c :: _ => ['=', '+', '-', '@'].contains c
  | [] => false

def csvField (s : String) : String := Csv.quote (if isFormula s then "'" ++ s else s)

/-- The text of a body of rows. -/
def csvText (toChar : String → Time → String) (rows : List Val) : String :=
  String.ofList ((Csv.line csvColumns).toList ++
    rows.flatMap fun x => (Csv.line (csvColumns.map fun col => csvField (cellOf toChar x col))).toList)

/-! ## Members and workspaces -/

structure MemberBody where
  email : String := ""
  password : String := ""
  name : String := ""
  role : String := ""

def memberFields : List (Json.Field MemberBody) :=
  [Json.stringField "Email" fun v b => { b with email := v },
    Json.stringField "Password" fun v b => { b with password := v },
    Json.stringField "Name" fun v b => { b with name := v },
    Json.stringField "Role" fun v b => { b with role := v }]

/-- The roles that `POST /v1/members` accepts: no owner is made there. -/
def memberRole (role : String) : Option PermissionTier :=
  match (PgEnum.ofText? role : Option PermissionTier) with
  | some .owner => none
  | t => t

def members : SettingsM u.orgID Response :=
  if r.method = "POST" then
    guarded u "manage" do
      let (b, ok) := Json.decodeFirst memberFields r.body {}
      if !ok ∨ b.email = "" ∨ b.password = "" then
        pure (fail 400 "bad_request" "email e password obrigatórios")
      else
        match memberRole b.role with
        | none => pure (fail 400 "bad_request" "role: admin|member|billing|viewer")
        | some role => do
            let res ← DB.addMember b.email b.name (a.hashPassword b.password) role
            answer u res fun id => do
              recordAudit u "member.add" "user" (b.email ++ " (" ++ b.role ++ ")")
              pure (writeJSON 201 (.obj [("user_id", .str id), ("role", .str b.role)]))
  else listing u "ListMembers" fun _ v => .ok (DB.listMembers v)

def memberRemove : SettingsM u.orgID Response :=
  if r.method ≠ "DELETE" then pure (fail 405 "method" "use DELETE")
  else guarded u "manage" do
    let id := Text.trimPrefix r.path "/v1/members/"
    let res ← DB.removeMember id
    answer u res fun _ => pure (writeJSON 200 (.obj [("id", .str id), ("removed", .bool true)]))

structure NameBody where
  name : String := ""

def workspaces : SettingsM u.orgID Response :=
  if r.method = "POST" then
    guarded u "manage" do
      let (b, ok) := Json.decodeFirst [Json.stringField "Name" fun v _ => NameBody.mk v] r.body {}
      if !ok ∨ b.name = "" then pure (fail 400 "bad_request" "name obrigatório")
      else do
        let res ← DB.createWorkspace b.name
        answer u res fun id => pure (created id)
  else listing u "ListWorkspaces" fun _ v => .ok (DB.listWorkspaces v)

/-! ## Secrets, memories, documents -/

structure SecretBody where
  name : String := ""
  type : String := ""
  fingerprint : String := ""

def secrets : SettingsM u.orgID Response :=
  if r.method = "POST" then
    guarded u "write" do
      let (b, ok) := Json.decodeFirst
        [Json.stringField "Name" fun v b => { b with name := v },
          Json.stringField "Type" fun v b => { b with type := v },
          Json.stringField "Fingerprint" fun v b => { b with fingerprint := v }] r.body ({} : SecretBody)
      if !ok ∨ b.name = "" then pure (fail 400 "bad_request" "name obrigatório")
      else do
        let res ← DB.createSecretRef b.name b.type b.fingerprint
        answer u res fun id => pure (created id)
  else listing u "ListSecrets" fun _ v => .ok (DB.listSecrets v)

structure MemoryBody where
  scope : String := ""
  repoID : String := ""
  instruction : String := ""

def memories : SettingsM u.orgID Response :=
  if r.method = "POST" then
    guarded u "write" do
      let (b, ok) := Json.decodeFirst
        [Json.stringField "scope" fun v b => { b with scope := v },
          Json.stringField "repo_id" fun v b => { b with repoID := v },
          Json.stringField "instruction" fun v b => { b with instruction := v }] r.body ({} : MemoryBody)
      if !ok ∨ b.instruction = "" then pure (fail 400 "bad_request" "instruction obrigatória")
      else do
        let wsp ← firstWorkspace u
        let res ← DB.createMemory wsp b.scope b.repoID b.instruction .manual
        answer u res fun id => pure (created id)
  else listing u "ListMemories" fun _ v => .ok (DB.listMemories r.workspace v)

def memoryDelete : SettingsM u.orgID Response :=
  if r.method ≠ "DELETE" then pure (fail 405 "method" "use DELETE")
  else guarded u "write" do
    let id := Text.trimPrefix r.path "/v1/memories/"
    let _ ← DB.deleteMemory id
    pure (writeJSON 200 (.obj [("id", .str id), ("removed", .bool true)]))

structure KBBody where
  name : String := ""
  category : String := ""
  fileRef : String := ""

def kbDocs : SettingsM u.orgID Response :=
  if r.method = "POST" then
    guarded u "write" do
      let (b, ok) := Json.decodeFirst
        [Json.stringField "name" fun v b => { b with name := v },
          Json.stringField "category" fun v b => { b with category := v },
          Json.stringField "file_ref" fun v b => { b with fileRef := v }] r.body ({} : KBBody)
      if !ok ∨ b.name = "" then pure (fail 400 "bad_request" "name obrigatório")
      else do
        let wsp ← firstWorkspace u
        let res ← DB.createKBDoc wsp b.name b.category b.fileRef
        answer u res fun id => pure (created id)
  else listing u "ListKBDocs" fun _ v => .ok (DB.listKBDocs r.workspace v)

/-! ## Repositories -/

structure RepoBody where
  name : String := ""
  cloneURL : String := ""
  defaultBranch : String := ""
  provider : String := ""
  localDir : String := ""

def repoFields : List (Json.Field RepoBody) :=
  [Json.stringField "name" fun v b => { b with name := v },
    Json.stringField "clone_url" fun v b => { b with cloneURL := v },
    Json.stringField "default_branch" fun v b => { b with defaultBranch := v },
    Json.stringField "provider" fun v b => { b with provider := v },
    Json.stringField "local_dir" fun v b => { b with localDir := v }]

def repos : SettingsM u.orgID Response :=
  if r.method = "POST" then do
    let (b, ok) := Json.decodeFirst repoFields r.body {}
    if !ok ∨ b.name = "" ∨ b.cloneURL = "" then
      pure (fail 400 "bad_request" "name e clone_url obrigatórios")
    else guarded u "manage" do
      let branch := if b.defaultBranch = "" then "main" else b.defaultBranch
      let wsp ← firstWorkspace u
      let res ← DB.createRepoFrom wsp b.name b.cloneURL branch b.provider (Text.trimSpace b.localDir)
      answer u res fun id => do
        recordAudit u "repo.create" "repository" b.name
        pure (created id)
  else listing u "ListRepos" fun _ v => .ok (DB.listRepos r.workspace v)

def hasSlash (s : String) : Bool := s.toList.contains '/'

def repoByID : SettingsM u.orgID Response :=
  guarded u "manage" do
    let id := Text.trimPrefix r.path "/v1/repos/"
    if id = "" ∨ hasSlash id then pure (fail 404 "not_found" "repositório inválido")
    else if r.method = "DELETE" then do
      match ← DB.deleteRepo id with
      | .error e =>
          pure (writeJSON 409 (.obj [("error", .obj [("code", .str "conflict"), ("message", .err e)])]))
      | .ok () => do
          recordAudit u "repo.delete" "repository" id
          pure okTrue
    else if r.method = "PATCH" ∨ r.method = "POST" ∨ r.method = "PUT" then do
      let (b, _) := Json.decodeFirst
        [Json.stringField "name" fun v b => { b with name := v },
          Json.stringField "default_branch" fun v b => { b with defaultBranch := v }] r.body ({} : RepoBody)
      let name := Text.trimSpace b.name
      let branch := Text.trimSpace b.defaultBranch
      if name = "" then pure (fail 400 "bad_request" "nome obrigatório")
      else do
        let res ← DB.updateRepo id name (if branch = "" then "main" else branch)
        answer u res fun _ => do
          recordAudit u "repo.update" "repository" id
          pure okTrue
    else pure (fail 405 "method" "use PATCH ou DELETE")

/-! ## The pool and the pinned workers -/

def poolFields : List (Json.Field DB.PoolCfg) :=
  [Json.stringField "mode" fun v c => { c with mode := v },
    Json.intField "parallel_workers" fun v c => { c with parallelWorkers := v },
    Json.intField "timeout_min" fun v c => { c with timeoutMin := v },
    Json.intField "retries" fun v c => { c with retries := v },
    Json.boolField "paused" fun v c => { c with paused := v },
    Json.boolField "auto_merge" fun v c => { c with autoMerge := v },
    Json.boolField "isolamento" fun v c => { c with isolamento := v }]

def poolVal (c : DB.PoolCfg) : Val :=
  .obj [("mode", .str c.mode), ("parallel_workers", .int c.parallelWorkers), ("timeout_min", .int c.timeoutMin),
    ("retries", .int c.retries), ("paused", .bool c.paused), ("auto_merge", .bool c.autoMerge),
    ("isolamento", .bool c.isolamento)]

def pool : SettingsM u.orgID Response :=
  if r.method = "POST" then
    guarded u "manage" do
      let (c, ok) := Json.decodeFirst poolFields r.body {}
      if !ok then pure badJSON
      else do
        let res ← DB.updatePoolConfig c
        answer u res fun _ => do
          recordAudit u "pool.update" "pool" ""
          pure okTrue
  else do
    let res ← DB.getPoolConfig
    answer u res fun c => pure (writeJSON 200 (poolVal c))

structure Capabilities where
  openPR : Option Bool := none
  runTests : Option Bool := none
  autoMerge : Option Bool := none

structure PinnedWorkerBody where
  focus : String := ""
  repoID : String := ""
  model : String := ""
  concurrency : Int := 0
  rules : String := ""
  enabled : Option Bool := none
  capabilities : Capabilities := {}

/-- A `*bool`: `null` is `nil`. -/
def boolPtrField {S : Type} (name : String) (put : Option Bool → S → S) : Json.Field S where
  name := name
  set
    | .bool v, s => (put (some v) s, true)
    | .null, s => (put none s, true)
    | _, s => (s, false)

def capabilityFields : List (Json.Field Capabilities) :=
  [boolPtrField "open_pr" fun v c => { c with openPR := v },
    boolPtrField "run_tests" fun v c => { c with runTests := v },
    boolPtrField "auto_merge" fun v c => { c with autoMerge := v }]

def pinnedFields : List (Json.Field PinnedWorkerBody) :=
  [Json.stringField "focus" fun v b => { b with focus := v },
    Json.stringField "repo_id" fun v b => { b with repoID := v },
    Json.stringField "model" fun v b => { b with model := v },
    Json.intField "concurrency" fun v b => { b with concurrency := v },
    Json.stringField "rules" fun v b => { b with rules := v },
    boolPtrField "enabled" fun v b => { b with enabled := v },
    Json.structField "capabilities" capabilityFields (·.capabilities) fun v b => { b with capabilities := v }]

def pinnedSettings (b : PinnedWorkerBody) : PinnedSettings where
  model := some (if b.model = "" then "claude_opus" else b.model)
  rules := some (Text.trimSpace b.rules)
  enabled := some (b.enabled.getD true)
  capOpenPR := some (b.capabilities.openPR.getD true)
  capRunTests := some (b.capabilities.runTests.getD true)
  capAutoMerge := some (b.capabilities.autoMerge.getD false)

def pinnedWorkers : SettingsM u.orgID Response :=
  if r.method = "POST" then
    guarded u "manage" do
      let (b, ok) := Json.decodeFirst pinnedFields r.body {}
      if !ok then pure badJSON
      else do
        let res ← DB.createPinnedWorker b.focus b.repoID b.concurrency (pinnedSettings b)
        answer u res fun id => do
          recordAudit u "pinned.create" "pinned_worker" id
          pure (writeJSON 200 (.obj [("id", .str id)]))
  else listing u "ListPinnedWorkers" fun _ v => .ok (DB.listPinnedWorkers r.workspace v)

structure EnabledBody where
  enabled : Bool := false

def pinnedWorkersBulk : SettingsM u.orgID Response :=
  if r.method ≠ "POST" then pure (fail 405 "method" "use POST")
  else guarded u "manage" do
    let (b, ok) := Json.decodeFirst [Json.boolField "enabled" fun v _ => EnabledBody.mk v] r.body {}
    if !ok then pure badJSON
    else do
      let res ← DB.setAllPinnedEnabled b.enabled
      answer u res fun n => do
        recordAudit u "pinned.bulk" "pinned_worker"
          ("enabled=" ++ (if b.enabled then "true" else "false") ++ " n=" ++ toString n)
        pure (writeJSON 200 (.obj [("updated", .int n), ("enabled", .bool b.enabled)]))

def pinnedWorkerByID : SettingsM u.orgID Response := do
  let id := Text.trimPrefix r.path "/v1/pinned-workers/"
  if id = "" ∨ hasSlash id then pure (fail 404 "not_found" "worker inválido")
  else guarded u "manage" do
    if r.method = "DELETE" then do
      let res ← DB.deletePinnedWorker id
      answer u res fun _ => do
        recordAudit u "pinned.delete" "pinned_worker" id
        pure (writeJSON 200 (.obj [("id", .str id), ("deleted", .bool true)]))
    else if r.method = "PATCH" ∨ r.method = "POST" ∨ r.method = "PUT" then do
      let (b, ok) := Json.decodeFirst pinnedFields r.body {}
      if !ok then pure badJSON
      else do
        let res ← DB.updatePinnedWorker id b.focus b.repoID b.concurrency (pinnedSettings b)
        answer u res fun _ => do
          recordAudit u "pinned.update" "pinned_worker" id
          pure (writeJSON 200 (.obj [("id", .str id), ("updated", .bool true)]))
    else pure (fail 405 "method" "use PATCH ou DELETE")

/-! ## Routines -/

structure RoutineBody where
  name : String := ""
  trigger : String := ""
  intervalSec : Int := 0
  title : String := ""
  prompt : String := ""
  refs : Json.Slice String := {}
  repoID : String := ""

def routineFields : List (Json.Field RoutineBody) :=
  [Json.stringField "name" fun v b => { b with name := v },
    Json.stringField "trigger" fun v b => { b with trigger := v },
    Json.intField "interval_sec" fun v b => { b with intervalSec := v },
    Json.stringField "title" fun v b => { b with title := v },
    Json.stringField "prompt" fun v b => { b with prompt := v },
    Json.stringsField "refs" (·.refs) fun v b => { b with refs := v },
    Json.stringField "repo_id" fun v b => { b with repoID := v }]

def routines : SettingsM u.orgID Response :=
  if r.method = "POST" then
    guarded u "write" do
      let (b, ok) := Json.decodeFirst routineFields r.body {}
      let trigger := if b.trigger = "" then "manual" else b.trigger
      if !ok ∨ b.name = "" ∨ b.prompt = "" then pure (fail 400 "bad_request" "name e prompt obrigatórios")
      else if trigger = "schedule" ∧ b.intervalSec ≤ 0 then
        pure (fail 400 "bad_request" "schedule exige interval_sec > 0")
      else do
        let wsp ← firstWorkspace u
        let res ← DB.createRoutine wsp b.name trigger b.intervalSec
          { title := if b.title = "" then b.name else b.title, prompt := b.prompt, refs := b.refs.toList, repoId := b.repoID }
        answer u res fun id => pure (created id)
  else listing u "ListRoutines" fun _ v => DB.listRoutines r.workspace v

/-! ## Lists -/

def workers : SettingsM u.orgID Response := listing u "ListWorkers" fun _ v => .ok (DB.listWorkers r.workspace v)

def listTasks : SettingsM u.orgID Response := listing u "ListTasks" fun _ v => .ok (DB.listTasks r.workspace v)

def prs : SettingsM u.orgID Response := listing u "ListPRs" fun _ v => .ok (DB.listPRs r.workspace v)

def interventions : SettingsM u.orgID Response :=
  listing u "ListInterventions" fun _ v => .ok (DB.listInterventions r.workspace v)

def ci : SettingsM u.orgID Response := listing u "ListCI" fun _ v => .ok (DB.listCI r.workspace v)

def logs : SettingsM u.orgID Response := listing u "ListLogs" fun now v => .ok (DB.listLogs r.workspace now v)

def qa : SettingsM u.orgID Response := listing u "ListQA" fun _ v => .ok (DB.listQA r.workspace v)

/-- A read on the privileged pool. -/
def pooled {α : Type} (name : String) (f : Time → Store → α) (ok : α → Response) : SettingsM u.orgID Response := do
  match ← OrgM.query name fun now s => .ok (f now s) with
  | .ok v => pure (ok v)
  | .error e => pure (internal e)

/-- The id between `pre` and `suf` in a path; `none` is a path without the suffix, or an empty id. -/
def idBetween (path pre suf : String) : Option String :=
  let rest := Text.trimPrefix path pre
  let id := Text.trimSuffix rest suf
  if id = "" ∨ id = rest then none else some id

def taskSteps : SettingsM u.orgID Response :=
  match idBetween r.path "/v1/tasks/" "/steps" with
  | none => pure (fail 404 "not_found" "rota inválida")
  | some id => pooled u "ListSteps" (fun _ s => DB.listSteps s id) dataOf

def telemetry : SettingsM u.orgID Response :=
  pooled u "Telemetry" (fun now s => DB.telemetryOf s now u.orgID) (writeJSON 200)

def devices : SettingsM u.orgID Response := pooled u "ListDevices" (fun _ s => DB.listDevices s u.orgID) dataOf

def invoices : SettingsM u.orgID Response := pooled u "ListInvoices" (fun _ s => DB.listInvoices s u.orgID) dataOf

def subscriptionVal : Option Subscription → Val
  | none => .obj [("plan", .str "free"), ("status", .str "none")]
  | some b =>
      .obj ([("plan", .enum b.plan), ("status", .enum b.status), ("stripe_customer_id", .text b.stripeCustomerId)] ++
        (b.graceUntil.map fun t => ("grace_until", Val.time "RFC3339" t)).toList)

def subscription : SettingsM u.orgID Response :=
  pooled u "GetSubscription" (fun _ s => DB.subscriptionOf s u.orgID) fun b => writeJSON 200 (subscriptionVal b)

/-- `PlanLimits` with the override of the server, as `usage` shows them. -/
def capOr (limit : Option Int) (override factor : Int) : Int :=
  match limit with
  | none => 0
  | some n => if override > 0 then override else n * factor

def usageVal (pl : DB.PlanLimits) (active used : Int) : Val :=
  .obj [("plan", .enum pl.plan), ("active_workers", .int active), ("week_seconds_used", .int used),
    ("week_cap_seconds", .int (capOr pl.weeklyHours a.hoursCapOverrideSec 3600)),
    ("lease_ttl_seconds", .int (capOr pl.leaseTTLMin a.leaseTTLOverrideSec 60)),
    ("max_workers", (pl.maxWorkers.map Val.int).getD .null)]

def usage : SettingsM u.orgID Response :=
  pooled u "usage"
    (fun now s => (DB.planLimits s u.orgID).map fun pl =>
      (pl, ((DB.activeLeases s u.orgID).length : Int), DB.weekSeconds s now u.orgID))
    fun
      | none => fail 500 "internal" "sem plano"
      | some (pl, active, used) => writeJSON 200 (a.usageVal pl active used)

def notifications : SettingsM u.orgID Response :=
  if r.method = "POST" then do
    let _ ← DB.markNotificationsRead
    pure (writeJSON 200 (.obj [("read", .bool true)]))
  else do
    let res ← OrgM.view "ListNotifications" fun _ v => .ok (DB.listNotifications v)
    answer u res fun rows =>
      pooled u "UnreadCount" (fun _ s => DB.unreadCount s u.orgID) fun n =>
        writeJSON 200 (.obj [("data", .arr rows), ("unread", .int n)])

/-- One tick of `GET /v1/notifications/stream`. -/
def notifStream : SettingsM u.orgID Response := do
  let rows ← OrgM.view "ListNotifications" fun _ v => .ok (DB.listNotifications v)
  pooled u "UnreadCount" (fun _ s => DB.unreadCount s u.orgID) fun n =>
    ⟨200, .event (.obj [("notifications", .arr (rows.toOption.getD [])), ("unread", .int n)])⟩

/-- One tick of `GET /v1/workers/stream`. -/
def stream : SettingsM u.orgID Response := do
  let ws ← OrgM.view "ListWorkers" fun _ v => .ok (DB.listWorkers "" v)
  let ts ← OrgM.view "ListTasks" fun _ v => .ok (DB.listTasks "" v)
  pure ⟨200, .event (.obj [("workers", .arr (ws.toOption.getD [])), ("tasks", .arr (ts.toOption.getD []))])⟩

end API

end Apifor
