import Apifor.World
import Mathlib.Algebra.Ring.Int.Defs

/-!
# Tasks, plans and pull requests

The functions of `db.go` that the pipeline uses: what it reads of a task, its repository, its pull
request and the configuration of its org, and the statements by which it moves a task along. They
run on the pool that bypasses row-level security, except where a scope is given.
-/

namespace Apifor

def demoUserID : Id := "usr_demo"
def demoOrgID : Id := "org_demo"
def demoWspID : Id := "wsp_demo"

/-- `QueryRow(...).Scan`: the first row, or `pgx.ErrNoRows`. -/
def row {α : Type} : Option α → Except DbErr α
  | some a => .ok a
  | none => .error .noRows

/-- A query that only its own text can make fail. -/
def read {α : Type} (name : String) (f : Store → α) : Cmd (Except DbErr α) := query name fun _ s => .ok (f s)

/-- `ORDER BY created_at LIMIT 1`. -/
def oldest {α : Type} (p : α → Bool) (rows : List α) : Option α := rows.reverse.find? p

/-! ## What a store says about a task -/

namespace Store

def getTask (s : Store) (id : Id) : Option Task := (s .task).get? (id, 0)

def getRepo (s : Store) (id : Id) : Option Repository := (s .repository).get? (id, 0)

/-- `ORDER BY created_at DESC LIMIT 1` on the pull requests of a task. -/
def latestPR (s : Store) (taskID : Id) : Option PullRequest :=
  (s .pullRequest).rows.find? fun p => decide (p.taskId = some taskID)

def firstWorkspace (s : Store) (org : Id) : Id :=
  ((oldest (fun w => decide (w.orgId = org)) (s .workspace).rows).map (·.id)).getD demoWspID

def poolConfig (s : Store) (org : Id) : Option PoolConfig :=
  (s .poolConfig).rows.find? fun c => decide (c.workspaceId = s.firstWorkspace org)

def pinnedFor (s : Store) (org repo : Id) : Option PinnedWorker :=
  (s .pinnedWorker).rows.find? fun p => decide (p.orgId = org ∧ p.repoId = some repo)

theorem key_task {f : Task → Task} (hf : ∀ t, (f t).id = t.id) (r : Row .task) : key .task (f r) = key .task r :=
  congrArg (·, (0 : Int)) (hf r)

theorem key_pr {f : PullRequest → PullRequest} (hf : ∀ p, (f p).id = p.id) (r : Row .pullRequest) :
    key .pullRequest (f r) = key .pullRequest r := congrArg (·, (0 : Int)) (hf r)

def setTask (s : Store) (id : Id) (f : Task → Task) (hf : ∀ t, (f t).id = t.id := by intro; rfl) : Store :=
  s.set .task ((s .task).update (fun t => decide (t.id = id)) f (key_task hf))

theorem id_inReview (t : Task) : ({ t with status := .in_review } : Task).id = t.id := rfl

def setPR (s : Store) (id : Id) (f : PullRequest → PullRequest)
    (hf : ∀ p, (f p).id = p.id := by intro; rfl) : Store :=
  s.set .pullRequest ((s .pullRequest).update (fun p => decide (p.id = id)) f (key_pr hf))

section

variable {s : Store} {id : Id} {f : Task → Task} {g : PullRequest → PullRequest} {hf : ∀ t, (f t).id = t.id}
  {hg : ∀ p, (g p).id = p.id}

@[simp] theorem setTask_task :
    s.setTask id f hf .task = (s .task).update (fun t => decide (t.id = id)) f (key_task hf) := Store.set_same _ _ _

@[simp] theorem setPR_pr :
    s.setPR id g hg .pullRequest = (s .pullRequest).update (fun p => decide (p.id = id)) g (key_pr hg) :=
  Store.set_same _ _ _

theorem setTask_other {t : Tbl} (ht : t ≠ .task) : s.setTask id f hf t = s t := Store.set_of_ne s _ ht

theorem setPR_other {t : Tbl} (ht : t ≠ .pullRequest) : s.setPR id g hg t = s t := Store.set_of_ne s _ ht

end

end Store

namespace DB

structure TaskRepo where
  cloneURL : String
  defaultBranch : String
  prompt : String
  orgID : Id
  repoID : String
  deriving DecidableEq

def taskRepo (s : Store) (taskID : Id) : Option TaskRepo :=
  (s.getTask taskID).map fun t =>
    let r := t.repoId.bind s.getRepo
    { cloneURL := (r.bind (·.cloneUrl)).getD "", defaultBranch := (r.map (·.defaultBranch)).getD "main",
      prompt := t.description.getD "", orgID := t.orgId, repoID := t.repoId.getD "" }

/-- `none` is the `nil` of an unknown task. -/
def getTaskRepo (taskID : Id) : Cmd (Except DbErr (Option TaskRepo)) :=
  read "GetTaskRepo" fun s => taskRepo s taskID

structure PipelineState where
  status : TaskStatus
  pr : Option (CIStatus × ReviewStatus × ReviewStatus)
  deriving DecidableEq

def pipelineState (s : Store) (taskID : Id) : Option PipelineState :=
  (s.getTask taskID).map fun t =>
    { status := t.status,
      pr := (s.latestPR taskID).map fun p => (p.ciStatus, p.aiReviewStatus, p.humanReviewStatus) }

def getTaskPipelineState (taskID : Id) : Cmd (Except DbErr (Option PipelineState)) :=
  read "GetTaskPipelineState" fun s => pipelineState s taskID

/-- The id and the org of a task's latest pull request. -/
def prIDByTask (taskID : Id) : Cmd (Except DbErr (Id × Id)) :=
  query "prIDByTask" fun _ s => row ((s.latestPR taskID).map fun p => (p.id, p.orgId))

def humanApproved (taskID : Id) : Cmd Bool := do
  match ← query "HumanApproved" fun _ s => row ((s.latestPR taskID).map (·.humanReviewStatus)) with
  | .ok st => pure (st = .approved)
  | .error _ => pure false

/-! ## Configuration -/

def firstWorkspace (orgID : Id) : Cmd Id := do
  match ← query "FirstWorkspace" fun _ s =>
      row ((oldest (fun w => decide (w.orgId = orgID)) (s .workspace).rows).map (·.id)) with
  | .ok id => pure id
  | .error _ => pure demoWspID

/-- The pool configuration of a workspace. -/
def poolRow (s : Store) (wsp : Id) : Option PoolConfig :=
  (s .poolConfig).rows.find? fun c => decide (c.workspaceId = wsp)

def poolFlag (orgID : Id) (flag : PoolBehavior → Option Bool) : Cmd Bool := do
  let wsp ← firstWorkspace orgID
  match ← query "poolFlag" fun _ s => row ((poolRow s wsp).map fun c => (flag c.behavior).getD false) with
  | .ok v => pure v
  | .error _ => pure false

def poolPaused (orgID : Id) : Cmd Bool := poolFlag orgID (·.paused)
def poolAutoMerge (orgID : Id) : Cmd Bool := poolFlag orgID (·.autoMerge)

/-- `COALESCE(NULLIF(behavior->>'mode',''),'pool')`. -/
def modeText (c : PoolConfig) : String :=
  match c.behavior.mode with
  | some m => if m = "" then "pool" else m
  | none => "pool"

def poolMode (orgID : Id) : Cmd String := do
  let wsp ← firstWorkspace orgID
  match ← query "PoolMode" fun _ s => row ((poolRow s wsp).map modeText) with
  | .ok v => pure (if v = "" then "pool" else v)
  | .error _ => pure "pool"

structure PinnedRepoCfg where
  rules : String
  enabled : Bool
  openPR : Bool
  runTests : Bool
  autoMerge : Bool
  deriving DecidableEq

def pinnedCfg (p : PinnedSettings) : PinnedRepoCfg where
  rules := p.rules.getD ""
  enabled := p.enabled.getD true
  openPR := p.capOpenPR.getD true
  runTests := p.capRunTests.getD true
  autoMerge := p.capAutoMerge.getD false

/-- `none` is `ok = false`. -/
def pinnedWorkerForRepo (orgID repoID : Id) : Cmd (Option PinnedRepoCfg) :=
  if repoID = "" then pure none
  else do
    match ← query "PinnedWorkerForRepo" fun _ s => row ((s.pinnedFor orgID repoID).map fun p => pinnedCfg p.settings) with
    | .ok cfg => pure (some cfg)
    | .error _ => pure none

def pinnedConcurrency (orgID : Id) : Cmd Int := do
  let wsp ← firstWorkspace orgID
  match ← read "PinnedConcurrency" fun s =>
      (((s .pinnedWorker).rows.filter fun p => decide (p.workspaceId = wsp) && p.settings.enabled.getD true).map
        (·.concurrency)).sum with
  | .ok n => pure n
  | .error _ => pure 0

/-- The query has no `ORDER BY`; the model takes the newest row. -/
def pinnedModelForRepo (orgID repoID : Id) : Cmd String :=
  if repoID = "" then pure ""
  else do
    let wsp ← firstWorkspace orgID
    match ← query "PinnedModelForRepo" fun _ s =>
        row (((s .pinnedWorker).rows.find? fun p => decide (p.workspaceId = wsp ∧ p.repoId = some repoID)).map
          fun p => p.settings.model.getD "") with
    | .ok m => pure m
    | .error _ => pure ""

/-- `modelID`. -/
def modelID : AgentModel → String
  | .claude_opus => "claude-opus-4-8"
  | .claude_sonnet => "claude-sonnet-4-6"
  | .claude_haiku => "claude-haiku-4-5"

def getAgentModel (k : String) : Cmd String := do
  match ← query "GetAgentModel" fun _ s =>
      row ((oldest (fun a => decide (a.key = k ∧ a.orgId = none)) (s .agentProfile).rows).map (·.model)) with
  | .ok m => pure (modelID m)
  | .error _ => pure "claude-opus-4-8"

def memoriesFor (s : Store) (orgID repoID : Id) : List String :=
  ((s .memory).rows.reverse.filter fun m =>
    decide (m.orgId = orgID ∧ (m.scope = .global ∨ (m.scope = .repo ∧ m.repoId = some repoID)))).map (·.instruction)

/-- `PromptWithMemory`: the memories of the org and the repository before the request. -/
def withMemory (mems : List String) (prompt : String) : String :=
  if mems.isEmpty then prompt
  else "MEMÓRIA DA ORG (siga estas instruções):\n" ++ String.join (mems.map fun m => "- " ++ m ++ "\n") ++
    "\nPEDIDO:\n" ++ prompt

def promptWithMemory (orgID repoID prompt : String) : Cmd (String × Nat) := do
  match ← read "MemoriesForTask" fun s => memoriesFor s orgID repoID with
  | .ok mems => pure (withMemory mems prompt, mems.length)
  | .error _ => pure (prompt, 0)

/-! ## Writing -/

/-- `UPDATE task SET … WHERE id=$1`. -/
def updateTask (name : String) (taskID : Id) (f : Task → Task) (hf : ∀ t, (f t).id = t.id := by intro; rfl) :
    Cmd (Except DbErr Unit) :=
  exec name fun _ s =>
    (update .all .task (fun t => decide (t.id = taskID)) f s (Store.key_task hf)).map
      fun r => (r.1, ())

/-- `UPDATE pull_request SET … WHERE id=$1`. -/
def updatePR (name : String) (prID : Id) (f : PullRequest → PullRequest)
    (hf : ∀ p, (f p).id = p.id := by intro; rfl) : Cmd (Except DbErr Unit) :=
  exec name fun _ s =>
    (update .all .pullRequest (fun p => decide (p.id = prID)) f s (Store.key_pr hf)).map
      fun r => (r.1, ())

/-- `INSERT INTO t`. -/
def insertRow (name : String) (t : Tbl) (r : Time → Row t) : Cmd (Except DbErr Unit) :=
  exec name fun now s => (insert .all t (r now) s).map fun s => (s, ())

def createNotification (orgID ntype title body link : String) : Cmd Unit := do
  let owner ← query "org owner" fun _ s => row (((s .org).get? (orgID, 0)).map (·.ownerUserId))
  let id ← newID "ntf"
  let _ ← insertRow "CreateNotification" .notification fun now =>
    { id := id, orgId := orgID, userId := (owner.toOption).getD demoUserID, type := some ntype,
      title := some title, body := some body, link := some link, createdAt := now }

def failTask (taskID reason : String) : Cmd (Except DbErr Unit) :=
  updateTask "FailTask" taskID fun t => { t with status := .failed, blockedReason := some reason }

def setTaskBlocked (taskID reason : String) : Cmd (Except DbErr Unit) :=
  updateTask "SetTaskBlocked" taskID fun t => { t with status := .blocked, blockedReason := some reason }

/-- The arguments reach the statement in the wrong order: it sets the status to `taskID` on the task
whose id is `status`. -/
def setTaskStatus (taskID status : String) : Cmd (Except DbErr Unit) :=
  match (PgEnum.ofText? taskID : Option TaskStatus) with
  | none => query "SetTaskStatus" fun _ _ => .error .cast
  | some st => updateTask "SetTaskStatus" status fun t => { t with status := st }

/-- The worker of a task is idle again. -/
def releaseWorker (taskID : Id) : Cmd (Except DbErr Unit) :=
  exec "CompleteTask (worker)" fun _ s =>
    (update .all .workerInstance (fun w => decide (w.currentTaskId = some taskID))
      (fun w => { w with status := .idle, currentTaskId := none, currentStep := none }) s).map fun r => (r.1, ())

def completeTask (taskID : Id) : Cmd (Except DbErr Unit) := do
  match ← updateTask "CompleteTask" taskID fun t => { t with status := .merged } with
  | .error e => pure (.error e)
  | .ok () => do
      let _ ← releaseWorker taskID
      pure (.ok ())

/-- `jsonb` has no U+0000. -/
def jsonbText (s : String) : Bool := !s.toList.contains '\x00'

/-- `RecordStepOutput` gets the step's type and status as text; the output is cast to `jsonb`. -/
def recordStepOutput (taskID stepType status output : String) : Cmd Unit := do
  let _ ← exec "RecordStepOutput" fun now s =>
    match (PgEnum.ofText? stepType : Option StepType), (PgEnum.ofText? status : Option StepStatus), jsonbText output with
    | some ty, some st, true =>
        (update .all .step (fun p => decide (p.taskId = taskID ∧ p.type = ty))
          (fun p => { p with status := st, output := some output, endedAt := some now }) s).map fun r => (r.1, ())
    | _, _, _ => .error .cast

def saveExecResult (taskID branch url : String) : Cmd (Except DbErr Unit) := do
  match ← query "SaveExecResult (task)" fun _ s => row ((s.getTask taskID).map fun t => (t.orgId, t.repoId)) with
  | .error e => pure (.error e)
  | .ok (orgID, repoID) => do
      let id ← newID "pr"
      match ← insertRow "SaveExecResult (pull_request)" .pullRequest fun now =>
          { id := id, orgId := orgID, taskId := some taskID, repoId := if repoID = some "" then none else repoID,
            url := some url, branch := some branch, createdAt := now } with
      | .error e => pure (.error e)
      | .ok () => updateTask "SaveExecResult" taskID fun t => { t with status := .in_review }

def setCIResult (taskID : Id) (passed : Bool) (summary : String) : Cmd (Except DbErr Unit) := do
  match ← prIDByTask taskID with
  | .error e => pure (.error e)
  | .ok (prID, _) => do
      match ← updatePR "SetCIResult" prID fun p => { p with ciStatus := if passed then .passed else .failed } with
      | .error e => pure (.error e)
      | .ok () => do
          let id ← newID "ci"
          insertRow "SetCIResult (ci_run)" .ciRun fun now =>
            { id := id, prId := prID, provider := some "apifor", status := if passed then .passed else .failed,
              startedAt := some now, finishedAt := some now, summary := summary }

def createQAReport (taskID : Id) (passed : Bool) (summary : String) : Cmd Unit := do
  match ← prIDByTask taskID with
  | .error _ => pure ()
  | .ok (prID, orgID) => do
      let id ← newID "qa"
      let _ ← insertRow "CreateQAReport" .qaReport fun now =>
        { id := id, orgId := orgID, taskId := some taskID, prId := some prID,
          status := some (if passed then "passed" else "failed"), testsTotal := some 1,
          testsPassed := some (if passed then 1 else 0), summary := some summary, createdAt := now }

def setAIReview (taskID : Id) (approved : Bool) : Cmd (Except DbErr Unit) := do
  match ← prIDByTask taskID with
  | .error e => pure (.error e)
  | .ok (prID, _) =>
      updatePR "SetAIReview" prID fun p => { p with aiReviewStatus := if approved then .approved else .changes }

def markMerged (taskID url : String) : Cmd (Except DbErr Unit) := do
  match ← prIDByTask taskID with
  | .error _ => pure ()
  | .ok (prID, _) => do
      let now ← timeNow
      let _ ← updatePR "MarkMerged (pull_request)" prID fun p =>
        { p with status := .merged, mergedAt := some now, url := some url }
  updateTask "MarkMerged" taskID fun t => { t with status := .merged }

structure PlanStepIn where
  idx : Int
  type : String
  label : String

/-- `INSERT … ON CONFLICT (task_id,idx) DO UPDATE SET type, label`. -/
def upsertStep (id taskID : Id) (st : PlanStepIn) (s : Store) : Except DbErr (Store × Unit) :=
  match (PgEnum.ofText? st.type : Option StepType) with
  | none => .error .cast
  | some ty =>
      if (s .step).rows.any fun p => decide (p.taskId = taskID ∧ p.idx = st.idx) then
        (update .all .step (fun p => decide (p.taskId = taskID ∧ p.idx = st.idx))
          (fun p => { p with type := ty, label := some st.label }) s).map fun r => (r.1, ())
      else
        (insert .all .step { id := id, taskId := taskID, idx := st.idx, type := ty, label := some st.label } s).map
          fun s => (s, ())

def savePlanSteps (taskID : Id) : List PlanStepIn → Cmd (Except DbErr Unit)
  | [] => pure (.ok ())
  | st :: sts => do
      let id ← newID "stp"
      match ← exec "SavePlan (step)" fun _ s => upsertStep id taskID st s with
      | .error e => pure (.error e)
      | .ok () => savePlanSteps taskID sts

def savePlan (taskID : Id) (steps : List PlanStepIn) (tokens : Int) : Cmd (Except DbErr Unit) := do
  match ← savePlanSteps taskID steps with
  | .error e => pure (.error e)
  | .ok () => updateTask "SavePlan" taskID fun t => { t with status := .in_review, tokensUsed := tokens }

/-- `CreateRealTask`, in the scope of the pool that `withOrg` uses; the result is the id drawn. -/
def createRealTask (sc : Scope) (orgID wspID title desc repoID : String) : Cmd (Id × Except DbErr Unit) := do
  let id ← newID "tsk"
  let r ← exec "CreateRealTask" fun now s =>
    (insert sc .task
      { id := id, orgId := orgID, workspaceId := wspID, repoId := if repoID = "" then none else some repoID,
        title := title, description := some desc, status := .queued, createdAt := now } s).map fun s => (s, ())
  pure (id, r)

/-! ## What the functions compute

One equation for each function; the proofs above this layer use these and never unfold the code. -/

section Specs

variable {w : World}

@[simp] theorem run_read {α : Type} (n : String) (f : Store → α) : (read n f).run w = (w, some (.ok (f w.db))) := by
  rw [read, run_query]

theorem run_getTaskRepo (id : Id) : (getTaskRepo id).run w = (w, some (.ok (taskRepo w.db id))) := run_read _ _

theorem run_getTaskPipelineState (id : Id) :
    (getTaskPipelineState id).run w = (w, some (.ok (pipelineState w.db id))) := run_read _ _

theorem run_humanApproved (id : Id) :
    (humanApproved id).run w =
      (w, some ((w.db.latestPR id).map (fun p => decide (p.humanReviewStatus = .approved))|>.getD false)) := by
  simp only [humanApproved, Prog.bind_def, Prog.run_bind, run_query]
  cases w.db.latestPR id <;> rfl

theorem run_firstWorkspace (org : Id) : (firstWorkspace org).run w = (w, some (w.db.firstWorkspace org)) := by
  simp only [firstWorkspace, Prog.bind_def, Prog.run_bind, run_query, Store.firstWorkspace]
  cases oldest (fun v => decide (v.orgId = org)) (w.db .workspace).rows <;> rfl

/-- A flag of the pool configuration of an org. -/
def flagOf (s : Store) (org : Id) (flag : PoolBehavior → Option Bool) : Bool :=
  ((s.poolConfig org).map fun c => (flag c.behavior).getD false).getD false

theorem run_poolFlag (org : Id) (flag : PoolBehavior → Option Bool) :
    (poolFlag org flag).run w = (w, some (flagOf w.db org flag)) := by
  simp only [poolFlag, Prog.bind_def, Prog.run_bind, run_firstWorkspace, run_query, flagOf, Store.poolConfig,
    poolRow]
  cases (w.db .poolConfig).rows.find? fun c => decide (c.workspaceId = w.db.firstWorkspace org) <;> rfl

/-- The pool's mode of an org. -/
def modeOf (s : Store) (org : Id) : String := ((s.poolConfig org).map modeText).getD "pool"

theorem modeText_ne (c : PoolConfig) : modeText c ≠ "" := by
  unfold modeText
  split
  · split
    · decide
    · assumption
  · decide

theorem run_poolMode (org : Id) : (poolMode org).run w = (w, some (modeOf w.db org)) := by
  simp only [poolMode, Prog.bind_def, Prog.run_bind, run_firstWorkspace, run_query, modeOf, Store.poolConfig,
    poolRow]
  cases (w.db .poolConfig).rows.find? fun c => decide (c.workspaceId = w.db.firstWorkspace org) with
  | none => rfl
  | some c => simp [row, modeText_ne]

/-- The configuration of the worker pinned to a repository. -/
def pinnedOf (s : Store) (org repo : Id) : Option PinnedRepoCfg :=
  if repo = "" then none else (s.pinnedFor org repo).map fun p => pinnedCfg p.settings

theorem run_pinnedWorkerForRepo (org repo : Id) :
    (pinnedWorkerForRepo org repo).run w = (w, some (pinnedOf w.db org repo)) := by
  unfold pinnedWorkerForRepo pinnedOf
  split
  · rfl
  · simp only [Prog.bind_def, Prog.run_bind, run_query]
    cases w.db.pinnedFor org repo <;> rfl

/-- The summed concurrency of the enabled workers of an org's first workspace. -/
def concurrencyOf (s : Store) (org : Id) : Int :=
  (((s .pinnedWorker).rows.filter fun p =>
    decide (p.workspaceId = s.firstWorkspace org) && p.settings.enabled.getD true).map (·.concurrency)).sum

theorem run_pinnedConcurrency (org : Id) :
    (pinnedConcurrency org).run w = (w, some (concurrencyOf w.db org)) := by
  simp only [pinnedConcurrency, Prog.bind_def, Prog.run_bind, run_firstWorkspace, run_read]
  rfl

/-- The program reads the store and changes nothing. -/
structure ReadOnly {α : Type} (p : Cmd α) : Prop where
  steps : Prog.Each Eq p
  ends : Prog.NoCrash p

theorem ReadOnly.run {α : Type} {p : Cmd α} (h : ReadOnly p) (w : World) : ∃ a, p.run w = (w, some a) := by
  obtain ⟨a, ha⟩ := h.ends w
  have hw : w = (p.run w).1 := Prog.Each.keeps (fun _ => rfl) (fun _ _ _ h h' => h.trans h') h.steps w
  exact ⟨a, Prod.ext hw.symm ha⟩

theorem ReadOnly.bind {α β : Type} {p : Cmd α} {g : α → Cmd β} (hp : ReadOnly p) (hg : ∀ a, ReadOnly (g a)) :
    ReadOnly (p.bind g) := ⟨.bind hp.steps fun a => (hg a).steps, .bind hp.ends fun a => (hg a).ends⟩

theorem ReadOnly.done {α : Type} (a : α) : ReadOnly (.done a : Cmd α) := ⟨.done a, .done a⟩

theorem ReadOnly.query {α : Type} (n : String) (f : Time → Store → Except DbErr α) : ReadOnly (query n f) := by
  refine ⟨Prog.Each.attempt fun w w' a h => ?_, .attempt _ _⟩
  obtain ⟨r, -, heq⟩ := map_eq_ok h
  cases heq
  rfl

theorem readOnly_firstWorkspace (org : Id) : ReadOnly (firstWorkspace org) := by
  refine ReadOnly.bind (.query _ _) fun r => ?_
  cases r <;> exact .done _

theorem readOnly_poolFlag (org : Id) (flag : PoolBehavior → Option Bool) : ReadOnly (poolFlag org flag) := by
  refine (readOnly_firstWorkspace org).bind fun wsp => ReadOnly.bind (.query _ _) fun r => ?_
  cases r <;> exact .done _

theorem readOnly_poolMode (org : Id) : ReadOnly (poolMode org) := by
  refine (readOnly_firstWorkspace org).bind fun wsp => ReadOnly.bind (.query _ _) fun r => ?_
  cases r <;> exact .done _

theorem readOnly_pinnedWorkerForRepo (org repo : Id) : ReadOnly (pinnedWorkerForRepo org repo) := by
  unfold pinnedWorkerForRepo
  split
  · exact .done _
  · refine ReadOnly.bind (.query _ _) fun r => ?_
    cases r <;> exact .done _

theorem readOnly_pinnedConcurrency (org : Id) : ReadOnly (pinnedConcurrency org) := by
  refine (readOnly_firstWorkspace org).bind fun wsp => ReadOnly.bind (.query _ _) fun r => ?_
  cases r <;> exact .done _

theorem readOnly_promptWithMemory (org repo prompt : String) : ReadOnly (promptWithMemory org repo prompt) := by
  refine ReadOnly.bind (.query _ _) fun r => ?_
  cases r <;> exact .done _

theorem readOnly_humanApproved (task : Id) : ReadOnly (humanApproved task) := by
  refine ReadOnly.bind (.query _ _) fun r => ?_
  cases r <;> exact .done _

theorem ReadOnly.read {α : Type} (n : String) (f : Store → α) : ReadOnly (read n f) := .query _ _

theorem readOnly_getTaskRepo (task : Id) : ReadOnly (getTaskRepo task) := .read _ _

theorem readOnly_getTaskPipelineState (task : Id) : ReadOnly (getTaskPipelineState task) := .read _ _

theorem readOnly_getAgentModel (k : String) : ReadOnly (getAgentModel k) := by
  refine ReadOnly.bind (.query _ _) fun r => ?_
  cases r <;> exact .done _

theorem readOnly_pinnedModelForRepo (org repo : Id) : ReadOnly (pinnedModelForRepo org repo) := by
  unfold pinnedModelForRepo
  split
  · exact .done _
  · refine (readOnly_firstWorkspace org).bind fun wsp => ReadOnly.bind (.query _ _) fun r => ?_
    cases r <;> exact .done _

theorem run_promptWithMemory (org repo prompt : String) :
    (promptWithMemory org repo prompt).run w =
      (w, some (withMemory (memoriesFor w.db org repo) prompt, (memoriesFor w.db org repo).length)) := by
  simp only [promptWithMemory, Prog.bind_def, Prog.run_bind, run_read]
  rfl

/-! ### Writes -/

theorem run_updateTask (n : String) (id : Id) (f : Task → Task) (hf : ∀ t, (f t).id = t.id)
    (hr : ∀ t, refs .task (f t) = refs .task t) :
    (updateTask n id f hf).run w = ({ w with db := w.db.setTask id f hf }, some (.ok ())) := by
  rw [updateTask, run_exec, update_all_eq (fun r q hq => hr r ▸ hq) fun _ => rfl]
  rfl

theorem run_updatePR (n : String) (id : Id) (f : PullRequest → PullRequest) (hf : ∀ p, (f p).id = p.id)
    (hr : ∀ p, refs .pullRequest (f p) = refs .pullRequest p) :
    (updatePR n id f hf).run w = ({ w with db := w.db.setPR id f hf }, some (.ok ())) := by
  rw [updatePR, run_exec, update_all_eq (fun r q hq => hr r ▸ hq) fun _ => rfl]
  rfl

theorem run_prIDByTask (id : Id) :
    (prIDByTask id).run w = (w, some (row ((w.db.latestPR id).map fun p => (p.id, p.orgId)))) := run_query _ _ _

theorem run_setAIReview (id : Id) (approved : Bool) :
    (setAIReview id approved).run w =
      match w.db.latestPR id with
      | none => (w, some (.error .noRows))
      | some p =>
          ({ w with db := w.db.setPR p.id fun p => { p with aiReviewStatus := if approved then .approved else .changes } },
            some (.ok ())) := by
  simp only [setAIReview, Prog.bind_def, Prog.run_bind, run_prIDByTask]
  cases w.db.latestPR id with
  | none => rfl
  | some p => exact run_updatePR _ _ _ _ fun _ => rfl

end Specs

end DB

end Apifor
