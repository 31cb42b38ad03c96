import Apifor.Db.Lease

/-!
# The pipeline

The task side of `server.go`: the gates, `advancePipeline` and `reconcileTask`, and the dispatch of
the next step to the executor of the task's org.
-/

namespace Apifor

structure EnforceConfig where
  leaseTTLOverrideSec : Int := 0
  hoursCapOverrideSec : Int := 0
  reaperTickSec : Int := 30
  graceSec : Int := 300
  deriving DecidableEq

/-- `rls` says that `DB.App` is a pool of its own, whose role is subject to row-level security. -/
structure Server where
  cfg : EnforceConfig := {}
  mergeRequireHuman : Bool := true
  rls : Bool := true

namespace Server

/-! ## Instructions and results -/

structure ExecInstructions where
  repoURL : String
  baseBranch : String
  branch : String
  changeReq : String
  targetFiles : List String := []
  model : String := ""
  openPR : Bool := false

/-- `json.Marshal`; `target_files` and `model` are left out when empty. -/
def ExecInstructions.blob (i : ExecInstructions) : String :=
  let fields :=
    ["\"repo_url\":" ++ Json.quote i.repoURL, "\"base_branch\":" ++ Json.quote i.baseBranch,
      "\"branch\":" ++ Json.quote i.branch, "\"change_request\":" ++ Json.quote i.changeReq] ++
    (if i.targetFiles.isEmpty then [] else ["\"target_files\":" ++ Json.quoteList i.targetFiles]) ++
    (if i.model = "" then [] else ["\"model\":" ++ Json.quote i.model]) ++
    ["\"open_pr\":" ++ (if i.openPR then "true" else "false")]
  "\x7b" ++ Text.join "," fields ++ "\x7d"

structure StepResult where
  kind : String := ""
  branch : String := ""
  url : String := ""
  summary : String := ""
  comments : String := ""
  passed : Bool := false
  approved : Bool := false
  merged : Bool := false
  deriving DecidableEq

def stepResultFields : List (Json.Field StepResult) :=
  [Json.stringField "kind" fun v r => { r with kind := v },
    Json.stringField "branch" fun v r => { r with branch := v },
    Json.stringField "url" fun v r => { r with url := v },
    Json.stringField "summary" fun v r => { r with summary := v },
    Json.stringField "comments" fun v r => { r with comments := v },
    Json.boolField "passed" fun v r => { r with passed := v },
    Json.boolField "approved" fun v r => { r with approved := v },
    Json.boolField "merged" fun v r => { r with merged := v }]

/-- The result a `STEP_COMPLETED` output carries; `none` is the output of the first kind of step,
which is not a JSON object with a `kind`. -/
def parseResult (output : String) : Option StepResult :=
  let out := Text.trimSpace output
  if Text.hasPrefix out "\x7b" then
    let r := Json.unmarshal stepResultFields out {}
    if r.2 ∧ r.1.kind ≠ "" then some r.1 else none
  else none

/-! ## Helpers of the pipeline -/

def stepEnvelope (stepID taskID : Id) (kind : StepKind) (blob : String) : Envelope where
  type := .DISPATCH_STEP
  payload := .dispatchStep { stepId := stepID, taskId := taskID, kind := kind, instructions := blob }

def dispatchStep (taskID : Id) (kind : StepKind) (model : String) : Cmd Unit := do
  match ← DB.getTaskRepo taskID with
  | .ok (some tr) =>
      if tr.cloneURL = "" then pure ()
      else do
        let instr : ExecInstructions :=
          { repoURL := tr.cloneURL, baseBranch := tr.defaultBranch, branch := "apifor/" ++ taskID,
            changeReq := tr.prompt, model := model }
        let stepID ← newID "stp"
        let _ ← hubSend tr.orgID (stepEnvelope stepID taskID kind instr.blob)
  | _ => pure ()

def taskOrg (taskID : Id) : Cmd Id := do
  match ← DB.getTaskRepo taskID with
  | .ok (some tr) => pure (if tr.orgID = "" then demoOrgID else tr.orgID)
  | _ => pure demoOrgID

def taskRepoID (taskID : Id) : Cmd Id := do
  match ← DB.getTaskRepo taskID with
  | .ok (some tr) => pure tr.repoID
  | _ => pure ""

variable (s : Server)

/-- The merge needs a human: the repository's worker has auto-merge off, or the server asks for a
human and the org's pool does not merge by itself. -/
def mergeGate (taskID : Id) : Cmd Bool := do
  let org ← taskOrg taskID
  let repo ← taskRepoID taskID
  let decided ← (do
    match ← DB.pinnedWorkerForRepo org repo with
    | some cfg => pure (!cfg.autoMerge)
    | none => pure false)
  if decided then pure true
  else if !s.mergeRequireHuman then pure false
  else do
    let auto ← DB.poolAutoMerge org
    pure (!auto)

def coderModel (tr : DB.TaskRepo) : Cmd String := do
  let mode ← DB.poolMode tr.orgID
  if mode = "pinned" then do
    let m ← DB.pinnedModelForRepo tr.orgID tr.repoID
    if m = "" then DB.getAgentModel "coder" else pure m
  else DB.getAgentModel "coder"

def dispatchReview (taskID : Id) : Cmd Unit := do
  let model ← DB.getAgentModel "reviewer"
  dispatchStep taskID .REVIEW model

/-- The log line `pipeline: testes pulados`, for the task's latest pull request. -/
def logTestsSkipped (taskID : Id) : Cmd Unit :=
  .lift fun w => ({ w with testsSkipped := ((w.db.latestPR taskID).map (·.id)).toList ++ w.testsSkipped }, ())

/-! ## The steps' results -/

/-- Case `exec` of `advancePipeline`. -/
def advanceExec (org taskID : Id) (r : StepResult) : Cmd Unit := do
  let _ ← DB.saveExecResult taskID r.branch r.url
  DB.recordStepOutput taskID "exec" "done" ("PR " ++ r.branch)
  DB.createNotification org "pr" "PR aberto" ("branch " ++ r.branch) "/prs"
  let repo ← taskRepoID taskID
  match ← DB.pinnedWorkerForRepo org repo with
  | some cfg =>
      if cfg.runTests then dispatchStep taskID .TEST ""
      else do
        DB.recordStepOutput taskID "test" "skipped" "testes desligados no worker"
        logTestsSkipped taskID
        dispatchReview taskID
  | none => dispatchStep taskID .TEST ""

/-- Case `test`. -/
def advanceTest (org taskID : Id) (r : StepResult) : Cmd Unit := do
  let _ ← DB.setCIResult taskID r.passed r.summary
  DB.createQAReport taskID r.passed r.summary
  if r.passed then do
    DB.recordStepOutput taskID "test" "done" r.summary
    dispatchReview taskID
  else do
    DB.recordStepOutput taskID "test" "failed" r.summary
    let _ ← DB.failTask taskID "gate: testes falharam"
    DB.createNotification org "fail" "Tarefa falhou" "testes vermelhos" "/tasks"

def boolStatus (ok : Bool) : String := if ok then "done" else "failed"

/-- Case `review`. -/
def advanceReview (org taskID : Id) (r : StepResult) : Cmd Unit := do
  let _ ← DB.setAIReview taskID r.approved
  DB.recordStepOutput taskID "review" (boolStatus r.approved) r.comments
  if !r.approved then do
    let _ ← DB.failTask taskID "gate: revisão IA pediu mudanças"
    DB.createNotification org "fail" "Tarefa falhou" "revisão IA pediu mudanças" "/tasks"
  else do
    let gate ← s.mergeGate taskID
    let approved ← (if gate then DB.humanApproved taskID else pure true)
    if approved then dispatchStep taskID .MERGE ""
    else do
      let _ ← DB.setTaskBlocked taskID "human_review"
      DB.createNotification org "intervention" "Revisão humana pendente" "uma tarefa aguarda aprovação" "/interventions"

/-- Case `merge`. -/
def advanceMerge (org taskID : Id) (r : StepResult) : Cmd Unit := do
  let _ ← DB.markMerged taskID r.url
  DB.createNotification org "merge" "Tarefa concluída" "merge realizado" "/prs"

def advancePipeline (taskID : Id) (r : StepResult) : Cmd Unit := do
  let org ← taskOrg taskID
  if r.kind = "exec" then advanceExec org taskID r
  else if r.kind = "test" then advanceTest org taskID r
  else if r.kind = "review" then s.advanceReview org taskID r
  else if r.kind = "merge" then advanceMerge org taskID r
  else pure ()

/-! ## Reconciliation -/

def isTerminal : TaskStatus → Bool
  | .merged | .failed | .canceled => true
  | _ => false

def reconcileTask (taskID : Id) : Cmd Unit := do
  match ← DB.getTaskPipelineState taskID with
  | .ok (some ps) =>
      if isTerminal ps.status then pure ()
      else
        match ps.pr with
        | none => pure ()
        | some (ci, ai, hu) =>
            if ci = .none then dispatchStep taskID .TEST ""
            else if ci = .passed ∧ ai = .none then dispatchReview taskID
            else if ai = .approved then do
              let gate ← s.mergeGate taskID
              if gate ∧ hu ≠ .approved then do
                let _ ← DB.setTaskBlocked taskID "human_review"
              else dispatchStep taskID .MERGE ""
            else pure ()
  | _ => pure ()

end Server

end Apifor
