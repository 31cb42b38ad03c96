import Apifor.Grpc.Reaper

/-!
# The executor's stream and the scheduler

`Enroll`, the opening of a stream by a device, one turn of its receive loop, and `scheduler.go`.
-/

namespace Apifor

namespace Server

variable (s : Server)

/-! ## The receive loop -/

def stepKindToType : StepKind → String
  | .PLAN => "plan"
  | .EXEC => "exec"
  | .TEST => "test"
  | .REVIEW => "review"
  | .MERGE => "merge"
  | .QUESTION => "question"
  | .STEP_UNSPECIFIED => "plan"

def onLeaseRequest (st : Stream) : Cmd Unit := do
  match ← s.tryGrant st.org demoWspID with
  | .error reason => streamSend st { type := .LEASE_DENIED, payload := .leaseDenied reason }
  | .ok g => streamSend st { type := .LEASE_GRANTED, payload := .leaseGranted g }

def onStepCompleted (ev : StepEvent) : Cmd Unit :=
  match parseResult ev.output with
  | some r => s.advancePipeline ev.taskId r
  | none => do
      let _ ← DB.completeTask ev.taskId

/-- The `EXEC` step of a planned task whose repository has a clone URL. -/
def dispatchExec (st : Stream) (pr : PlanResult) (tr : DB.TaskRepo) : Cmd Unit := do
  let org ← taskOrg pr.taskId
  let cfg ← DB.pinnedWorkerForRepo org tr.repoID
  let model ← coderModel tr
  let instr : ExecInstructions :=
    { repoURL := tr.cloneURL, baseBranch := tr.defaultBranch, branch := "apifor/" ++ pr.taskId,
      changeReq := tr.prompt, targetFiles := pr.targetFiles, model := model,
      openPR := (cfg.map (·.openPR)).getD true }
  let stepID ← newID "stp"
  streamSend st (stepEnvelope stepID pr.taskId .EXEC instr.blob)
  let _ ← DB.setTaskStatus pr.taskId "running"

def onPlanResult (st : Stream) (pr : PlanResult) : Cmd Unit := do
  let steps := pr.steps.map fun p => { idx := p.idx, type := stepKindToType p.kind, label := p.label : DB.PlanStepIn }
  match ← DB.savePlan pr.taskId steps pr.tokensUsed with
  | .error _ => pure ()
  | .ok () => do
      match ← DB.getTaskRepo pr.taskId with
      | .ok (some tr) => if tr.cloneURL = "" then pure () else dispatchExec st pr tr
      | _ => pure ()

/-- One message received on a stream. -/
def onMessage (st : Stream) (env : Envelope) : Cmd Unit :=
  match env.type, env.payload with
  | .HEARTBEAT, _ => DB.touchDevice st.device
  | .LEASE_REQUEST, _ => s.onLeaseRequest st
  | .STEP_COMPLETED, .stepEvent ev => s.onStepCompleted ev
  | .STEP_FAILED, .stepEvent ev => do
      let _ ← DB.failTask ev.taskId ev.error
  | .TASK_STATE_SNAPSHOT, .taskStateSnapshot snap => s.reconcileTask snap.taskId
  | .PLAN_RESULT, .planResult pr => onPlanResult st pr
  | _, _ => pure ()

/-! ## Opening and enrolling -/

/-- The start of `Stream`: the certificate's serial must be that of a device that is not revoked. -/
def openStream (serial : String) : Cmd Unit := do
  match ← DB.findDeviceBySerial serial with
  | .ok (some dev) =>
      .lift fun w =>
        let r := w.hub.register dev.orgId
        ({ w with hub := r.1, streams := w.streams ++ [{ device := dev.id, org := dev.orgId, out := r.2 }] }, ())
  | _ => pure ()

/-- `Enroll` with the claims of a valid token and the serial of the certificate the CA signed. -/
def enroll (orgID userID serial : String) : Cmd Unit := do
  let devID ← newID "dev"
  let _ ← DB.createDeviceCert orgID userID devID serial

/-! ## Planning and the scheduler -/

def requestPlan (taskID prompt : String) (refs : List String) : Envelope where
  type := .REQUEST_PLAN
  payload := .requestPlan { taskId := taskID, promptTemplate := prompt, contextRefs := refs }

def fireRoutine (orgID wspID : Id) (a : RoutineAction) : Cmd Unit := do
  let wsp ← (if wspID = "" then DB.firstWorkspace orgID else pure wspID)
  let (taskID, created) ← DB.createRealTask (withOrg s.rls orgID) orgID wsp a.title a.prompt a.repoId
  match created with
  | .error _ => pure ()
  | .ok () => do
      let (planPrompt, _) ← DB.promptWithMemory orgID a.repoId a.prompt
      let sent ← hubSend orgID (requestPlan taskID planPrompt a.refs)
      if sent then do
        let _ ← DB.setTaskStatus taskID "planning"
      DB.createNotification orgID "routine" "Rotina disparada" a.title "/routines"

def fireAll : List DB.RoutineDue → Cmd Unit
  | [] => pure ()
  | r :: rs => do
      s.fireRoutine r.orgID r.wspID r.action
      let _ ← DB.markRoutineRan r.id r.intervalSec
      fireAll rs

/-- One tick of the scheduler. -/
def schedule : Cmd Unit := do
  match ← DB.dueRoutines with
  | .ok due => s.fireAll due
  | .error _ => pure ()

end Server

end Apifor
