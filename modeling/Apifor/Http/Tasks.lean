import Apifor.Http.Connections

/-!
# Tasks, interventions and routines

The handlers that make an executor work: a new task, an answer to an intervention, a routine run by
hand. They write in the caller's scope, but look tasks and routines up on the privileged pool and
push to whatever org the row belongs to.
-/

namespace Apifor

namespace API

variable (a : API) (u : Caller) (r : Request)

/-- The worker's rules follow the prompt. -/
def withRules (prompt : String) : Option DB.PinnedRepoCfg → String
  | some cfg =>
      if cfg.rules = "" then prompt
      else prompt ++ "\n\nRegras do worker (siga estritamente):\n" ++ cfg.rules
  | none => prompt

/-- The task's id, and whether an executor took the plan's request. -/
def createAndPlan (org title prompt : String) (refs : List String) (repoID : String) :
    Cmd (Except DbErr (Id × Bool)) := do
  let wsp ← DB.firstWorkspace org
  let (taskID, created) ← DB.createRealTask (withOrg a.server.rls org) org wsp title prompt repoID
  match created with
  | .error e => pure (.error e)
  | .ok () => do
      let (planPrompt, _) ← DB.promptWithMemory org repoID prompt
      let cfg ← DB.pinnedWorkerForRepo org repoID
      let dispatched ← hubSend org (Server.requestPlan taskID (withRules planPrompt cfg) refs)
      if dispatched then do
        let _ ← DB.setTaskStatus taskID "planning"
      pure (.ok (taskID, dispatched))

structure TaskBody where
  title : String := ""
  prompt : String := ""
  refs : Json.Slice String := {}
  repoID : String := ""

def taskBodyFields : List (Json.Field TaskBody) :=
  [Json.stringField "title" fun v b => { b with title := v },
    Json.stringField "prompt" fun v b => { b with prompt := v },
    Json.stringsField "refs" (·.refs) fun v b => { b with refs := v },
    Json.stringField "repo_id" fun v b => { b with repoID := v }]

def createTask : Cmd Response :=
  let (b, ok) := Json.decodeFirst taskBodyFields r.body {}
  if !ok ∨ b.title = "" then pure (fail 400 "bad_request" "title e prompt obrigatórios")
  else guarded u "write" do
    match ← a.createAndPlan u.orgID b.title b.prompt b.refs.toList b.repoID with
    | .error e => pure (internal e)
    | .ok (taskID, dispatched) => do
        (recordAudit (T := settings) u "task.create" "task" taskID settings_auditLog).cmd a.server.rls
        pure (writeJSON 201 (.obj [("id", .str taskID), ("dispatched", .bool dispatched)]))

def tasks : Cmd Response := if r.method = "POST" then a.createTask u r else (listTasks u r).cmd a.server.rls

/-! ## Interventions -/

/-- The instructions of a merge: a map, so its keys come in order. -/
def mergeBlob (tr : DB.TaskRepo) (taskID : Id) : String :=
  "\x7b\"base_branch\":" ++ Json.quote tr.defaultBranch ++ ",\"branch\":" ++ Json.quote ("apifor/" ++ taskID) ++
    ",\"change_request\":" ++ Json.quote tr.prompt ++ ",\"repo_url\":" ++ Json.quote tr.cloneURL ++ "\x7d"

def dispatchMerge (taskID : Id) : Cmd Unit := do
  match ← DB.getTaskRepo taskID with
  | .ok (some tr) =>
      if tr.cloneURL = "" then pure ()
      else do
        let stepID ← newID "stp"
        let _ ← hubSend tr.orgID (Server.stepEnvelope stepID taskID .MERGE (mergeBlob tr taskID))
  | _ => pure ()

structure AnswerBody where
  decision : String := ""
  note : String := ""
  saveMemory : Bool := false
  deriving DecidableEq

def answerFields : List (Json.Field AnswerBody) :=
  [Json.stringField "Decision" fun v b => { b with decision := v },
    Json.stringField "Note" fun v b => { b with note := v },
    Json.boolField "save_memory" fun v b => { b with saveMemory := v }]

/-- The memory that an answer may leave. -/
def rememberAnswer (b : AnswerBody) : SettingsM u.orgID Unit :=
  if b.saveMemory ∧ b.note ≠ "" then do
    let wsp ← firstWorkspace u
    let _ ← DB.createMemory wsp "global" "" b.note .intervention
  else pure ()

def decided (taskID : Id) (decision : String) (rest : List (String × Val)) : Response :=
  writeJSON 200 (.obj ([("task_id", .str taskID), ("decision", .str decision)] ++ rest))

def approveAnswer (taskID : Id) : Cmd Response := do
  match ← (DB.approveHumanReview (B := u.orgID) taskID).cmd a.server.rls with
  | .error e => pure (internal e)
  | .ok () => do
      dispatchMerge taskID
      pure (decided taskID "approve" [("merging", .bool true)])

def rejectAnswer (taskID : Id) (note : String) : OrgM DB.reviews u.orgID Response := do
  let res ← DB.rejectHumanReview taskID note
  answer u res fun _ => pure (decided taskID "reject" [])

/-- The body of `interventionAnswer` once the route and the role are right. -/
def answerTask (taskID : Id) : Cmd Response := do
  let (b, _) := Json.decodeFirst answerFields r.body {}
  (rememberAnswer u b).cmd a.server.rls
  if b.decision = "approve" then a.approveAnswer u taskID
  else if b.decision = "reject" then (rejectAnswer u taskID b.note).cmd a.server.rls
  else pure (fail 400 "bad_request" "decision: approve|reject")

def interventionAnswer : Cmd Response :=
  match idBetween r.path "/v1/interventions/" "/answer" with
  | none => pure (fail 404 "not_found" "use POST /v1/interventions/\x7btaskID\x7d/answer")
  | some taskID =>
      if r.method ≠ "POST" then pure (fail 404 "not_found" "use POST /v1/interventions/\x7btaskID\x7d/answer")
      else guarded u "write" (a.answerTask u r taskID)

/-! ## Routines -/

/-- `GetRoutineAction` asks the privileged pool for a routine of any org. -/
def getRoutineAction (id : Id) : Cmd (Except DbErr (Id × Id × RoutineAction)) :=
  query "GetRoutineAction" fun _ s =>
    row (((s .routine).get? (id, 0)).map fun q => (q.orgId, q.workspaceId, q.action))

/-- The action `run` of `routineAction`; the task goes to the routine's org. -/
def runRoutine (id : Id) : Cmd Response := do
  match ← getRoutineAction id with
  | .error _ => pure (fail 404 "not_found" "rotina não encontrada")
  | .ok (o, _, act) => do
      let (taskID, dispatched) ← (do
        match ← a.createAndPlan o act.title act.prompt act.refs act.repoId with
        | .ok res => pure res
        | .error _ => pure ("", false))
      DB.createNotification o "routine" "Rotina disparada" act.title "/routines"
      pure (writeJSON 200 (.obj [("task_id", .str taskID), ("dispatched", .bool dispatched)]))

def setRoutine (id : Id) (enabled : Bool) : SettingsM u.orgID Response := do
  let _ ← DB.setRoutineEnabled id enabled
  pure (writeJSON 200 (.obj [("id", .str id), ("enabled", .bool enabled)]))

def dropRoutine (id : Id) : SettingsM u.orgID Response :=
  guarded u "write" do
    let _ ← DB.deleteRoutine id
    pure (writeJSON 200 (.obj [("id", .str id), ("deleted", .bool true)]))

/-- The id and the action of a path; `none` is a path with one part. -/
def splitAction (rest : String) : String × Option String :=
  match Text.cut rest '/' with
  | none => (rest, none)
  | some (id, action) => (id, some action)

def routineAction : Cmd Response :=
  let (id, action) := splitAction (Text.trimPrefix r.path "/v1/routines/")
  if id = "" then pure (fail 404 "not_found" "rota inválida")
  else if r.method = "DELETE" then (dropRoutine u id).cmd a.server.rls
  else
    match action with
    | none => pure (fail 404 "not_found" "use POST /v1/routines/\x7bid\x7d/\x7brun|enable|disable\x7d")
    | some action =>
        if r.method ≠ "POST" then
          pure (fail 404 "not_found" "use POST /v1/routines/\x7bid\x7d/\x7brun|enable|disable\x7d")
        else guarded u "write" <|
          if action = "run" then a.runRoutine id
          else if action = "enable" then (setRoutine u id true).cmd a.server.rls
          else if action = "disable" then (setRoutine u id false).cmd a.server.rls
          else pure (fail 404 "not_found" "ação inválida")

end API

end Apifor
