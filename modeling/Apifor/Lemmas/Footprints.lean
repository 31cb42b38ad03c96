import Apifor.System

/-!
# What each function writes and pushes

One footprint for each function of the store and of the gRPC side, from the statements up to the
handlers. The tables are hypotheses, so that a proof that cares about some of them can leave the rest
open; `K` is what the envelopes pushed must satisfy.
-/

namespace Apifor

variable {T : Tbl → Bool} {K : Id → Envelope → Prop}

theorem Within.ofReadOnly {α : Type} {c : Cmd α} (h : DB.ReadOnly c) : Within T K c :=
  h.steps.mono fun w _ heq => heq ▸ Pace.refl w

theorem OrgM.within {B : Id} {α : Type} (x : OrgM T B α) (rls : Bool) : Within T K (x.cmd rls) :=
  (x.frame rls).mono fun _ _ => Frame.pace

/-! ## Statements -/

namespace DB

theorem updateTask_within (ht : T .task = true) {n : String} {id : Id} {f : Task → Task} {hf : ∀ t, (f t).id = t.id} :
    Within T K (updateTask n id f hf) :=
  Within.execUpdate (t := .task) (p := fun _ t => decide (t.id = id)) (f := fun _ => f) (fun _ => Store.key_task hf) ht

theorem updatePR_within (ht : T .pullRequest = true) {n : String} {id : Id} {f : PullRequest → PullRequest}
    {hf : ∀ p, (f p).id = p.id} : Within T K (updatePR n id f hf) :=
  Within.execUpdate (t := .pullRequest) (p := fun _ p => decide (p.id = id)) (f := fun _ => f) (fun _ => Store.key_pr hf) ht

theorem insertRow_within {t : Tbl} (ht : T t = true) {n : String} {r : Time → Row t} :
    Within T K (insertRow n t r) := Within.execInsert ht

theorem createNotification_within (ht : T .notification = true) {org ntype title body link : String} :
    Within T K (createNotification org ntype title body link) := by
  refine Within.bind (.query _ _) fun owner => Within.bind (.newID _) fun id => ?_
  exact Within.bind (insertRow_within ht) fun _ => .done _

theorem failTask_within (ht : T .task = true) {id reason : String} : Within T K (failTask id reason) :=
  updateTask_within ht

theorem setTaskBlocked_within (ht : T .task = true) {id reason : String} : Within T K (setTaskBlocked id reason) :=
  updateTask_within ht

theorem setTaskStatus_within (ht : T .task = true) {id status : String} : Within T K (setTaskStatus id status) := by
  unfold setTaskStatus
  split
  · exact .query _ _
  · exact updateTask_within ht

theorem releaseWorker_within (ht : T .workerInstance = true) {id : String} : Within T K (releaseWorker id) :=
  Within.execUpdate (t := .workerInstance) (p := fun _ w => decide (w.currentTaskId = some id)) (f := fun _ w =>
    { w with status := .idle, currentTaskId := none, currentStep := none }) (fun _ _ => rfl) ht

theorem completeTask_within (ht : T .task = true) (hw : T .workerInstance = true) {id : String} :
    Within T K (completeTask id) := by
  refine Within.bind (updateTask_within ht) fun r => ?_
  cases r with
  | error e => exact .done _
  | ok _ => exact Within.bind (releaseWorker_within hw) fun _ => .done _

theorem recordStepOutput_within (ht : T .step = true) {id ty st out : String} :
    Within T K (recordStepOutput id ty st out) := by
  refine Within.bind (Within.exec fun now s s' a h => ?_) fun _ => .done _
  split at h
  · next ty st _ _ _ =>
      cases hu : update .all .step (fun p => decide (p.taskId = id ∧ p.type = ty))
          (fun p => { p with status := st, output := some out, endedAt := some now }) s (fun _ => rfl) with
      | error e => rw [hu] at h; cases h
      | ok r => rw [hu] at h; cases h; exact Touches.update ht hu
  · cases h

theorem saveExecResult_within (ht : T .task = true) (hp : T .pullRequest = true) {id branch url : String} :
    Within T K (saveExecResult id branch url) := by
  refine Within.bind (.query _ _) fun r => ?_
  cases r with
  | error e => exact .done _
  | ok v =>
      refine Within.bind (.newID _) fun i => Within.bind (insertRow_within hp) fun r => ?_
      cases r with
      | error e => exact .done _
      | ok _ => exact updateTask_within ht

theorem prIDByTask_within {id : Id} : Within T K (prIDByTask id) := .query _ _

theorem setCIResult_within (hp : T .pullRequest = true) (hc : T .ciRun = true) {id summary : String} {passed : Bool} :
    Within T K (setCIResult id passed summary) := by
  refine Within.bind prIDByTask_within fun r => ?_
  cases r with
  | error e => exact .done _
  | ok v =>
      refine Within.bind (updatePR_within hp) fun r => ?_
      cases r with
      | error e => exact .done _
      | ok _ => exact Within.bind (.newID _) fun _ => insertRow_within hc

theorem createQAReport_within (hq : T .qaReport = true) {id summary : String} {passed : Bool} :
    Within T K (createQAReport id passed summary) := by
  refine Within.bind prIDByTask_within fun r => ?_
  cases r with
  | error e => exact .done _
  | ok v => exact Within.bind (.newID _) fun _ => Within.bind (insertRow_within hq) fun _ => .done _

theorem setAIReview_within (hp : T .pullRequest = true) {id : String} {approved : Bool} :
    Within T K (setAIReview id approved) := by
  refine Within.bind prIDByTask_within fun r => ?_
  cases r with
  | error e => exact .done _
  | ok v => exact updatePR_within hp

theorem markMerged_within (ht : T .task = true) (hp : T .pullRequest = true) {id url : String} :
    Within T K (markMerged id url) := by
  refine Within.bind prIDByTask_within fun r => ?_
  cases r with
  | error e => exact updateTask_within ht
  | ok v =>
      exact Within.bind .timeNow fun _ => Within.bind (updatePR_within hp) fun _ => updateTask_within ht

theorem upsertStep_touches (ht : T .step = true) {id task : Id} {st : PlanStepIn} {s s' : Store} {a : Unit}
    (h : upsertStep id task st s = .ok (s', a)) : Touches T s s' := by
  unfold upsertStep at h
  split at h
  · cases h
  · next ty _ =>
      split at h
      · cases hu : update .all .step (fun p => decide (p.taskId = task ∧ p.idx = st.idx))
            (fun p => { p with type := ty, label := some st.label }) s (fun _ => rfl) with
        | error e => rw [hu] at h; cases h
        | ok r => rw [hu] at h; cases h; exact Touches.update ht hu
      · cases hi : insert .all .step
            { id := id, taskId := task, idx := st.idx, type := ty, label := some st.label } s with
        | error e => rw [hi] at h; cases h
        | ok s1 => rw [hi] at h; cases h; exact Touches.insert ht hi

theorem savePlanSteps_within (ht : T .step = true) {id : Id} (sts : List PlanStepIn) :
    Within T K (savePlanSteps id sts) := by
  induction sts with
  | nil => exact .done _
  | cons st sts ih =>
      refine Within.bind (.newID _) fun i => Within.bind (Within.exec fun _ _ _ _ => upsertStep_touches ht) fun r => ?_
      cases r with
      | error e => exact .done _
      | ok _ => exact ih

theorem savePlan_within (ht : T .task = true) (hs : T .step = true) {id : Id} {sts : List PlanStepIn} {n : Int} :
    Within T K (savePlan id sts n) := by
  refine Within.bind (savePlanSteps_within hs sts) fun r => ?_
  cases r with
  | error e => exact .done _
  | ok _ => exact updateTask_within ht

theorem createRealTask_within (ht : T .task = true) {sc : Scope} {org wsp title desc repo : String} :
    Within T K (createRealTask sc org wsp title desc repo) :=
  Within.bind (.newID _) fun _ => Within.bind (Within.execInsert ht) fun _ => .done _

/-! ## Leases and devices -/

theorem touchDevice_within (ht : T .device = true) {id : Id} : Within T K (touchDevice id) :=
  Within.bind (Within.execUpdate (t := .device) (p := fun _ d => decide (d.id = id))
    (f := fun now d => { d with lastSeenAt := some now }) (fun _ _ => rfl) ht) fun _ => .done _

theorem createDeviceCert_within (ht : T .device = true) {org user dev serial : String} :
    Within T K (createDeviceCert org user dev serial) := insertRow_within ht

theorem recordUsage_within (ht : T .usageEvent = true) {org worker lease : Id} {ty : UsageEventType} :
    Within T K (recordUsage org worker lease ty) := Within.bind (.newID _) fun _ => insertRow_within ht

theorem grantLease_within (hw : T .workerInstance = true) (hl : T .lease = true) {org wsp : Id} {ttl : Int}
    {autoRenew : Bool} : Within T K (grantLease org wsp ttl autoRenew) := by
  refine Within.bind (.newID _) fun worker => Within.bind (insertRow_within hw) fun r => ?_
  cases r with
  | error e => exact .done _
  | ok _ =>
      refine Within.bind (.newID _) fun lease => Within.bind .timeNow fun now => ?_
      refine Within.bind (insertRow_within hl) fun r => ?_
      cases r with
      | error e => exact .done _
      | ok _ =>
          refine Within.bind (Within.execUpdate (t := .workerInstance) (p := fun _ w => decide (w.id = worker))
            (f := fun _ w => { w with leaseId := some lease }) (fun _ _ => rfl) hw) fun r => ?_
          cases r <;> exact .done _

theorem endLease_within (hl : T .lease = true) {id : Id} {reason : LeaseEndReason} :
    Within T K (endLease id reason) :=
  Within.execUpdate (t := .lease) (p := fun _ l => decide (l.id = id ∧ l.endedAt = none))
    (f := fun now l => { l with endedAt := some now, endReason := some reason }) (fun _ _ => rfl) hl

theorem renewLease_within (hl : T .lease = true) {id : Id} {ttl : Int} : Within T K (renewLease id ttl) :=
  Within.bind .timeNow fun now => Within.execUpdate (t := .lease) (p := fun _ l => decide (l.id = id))
    (f := fun _ l => { l with expiresAt := some (now + ttl * second) }) (fun _ _ => rfl) hl

theorem pauseWorker_within (hw : T .workerInstance = true) {id : Id} : Within T K (pauseWorker id) :=
  Within.execUpdate (t := .workerInstance) (p := fun _ w => decide (w.id = id ∧ w.status ≠ .stopped))
    (f := fun _ w => { w with status := .paused }) (fun _ _ => rfl) hw

theorem stopWorker_within (hw : T .workerInstance = true) {id : Id} : Within T K (stopWorker id) :=
  Within.execUpdate (t := .workerInstance) (p := fun _ w => decide (w.id = id)) (f := fun _ w =>
    { w with status := .stopped, currentTaskId := none, currentStep := none, leaseId := none })
    (fun _ _ => rfl) hw

theorem addWorkerSeconds_within (hc : T .workerHoursCounter = true) {org : Id} {sec : Int} :
    Within T K (addWorkerSeconds org sec) := by
  refine Within.exec fun now s s' a h => ?_
  split at h
  · cases hu : update .all .workerHoursCounter (fun c => decide (c.orgId = org ∧ c.weekStart = weekStart now))
        (fun c => { c with secondsUsed := c.secondsUsed + sec }) s (fun _ => rfl) with
    | error e => rw [hu] at h; cases h
    | ok r => rw [hu] at h; cases h; exact Touches.update hc hu
  · cases hi : insert .all .workerHoursCounter { orgId := org, weekStart := weekStart now, secondsUsed := sec } s with
    | error e => rw [hi] at h; cases h
    | ok s1 => rw [hi] at h; cases h; exact Touches.insert hc hi

theorem setOrgPlan_touches (ho : T .org = true) {org : Id} {p : OrgPlan} {s s' : Store}
    (h : setOrgPlan org p s = .ok s') : Touches T s s' := by
  unfold setOrgPlan at h
  cases hu : update .all .org (fun o => decide (o.id = org)) (fun o => { o with plan := p }) s (fun _ => rfl) with
  | error e => rw [hu] at h; cases h
  | ok r => rw [hu] at h; cases h; exact Touches.update ho hu

/-- A statement that sets an org's plan. -/
theorem execPlan_within (ho : T .org = true) {α : Type} {n : String} {org : Id} {p : OrgPlan} {a : α} :
    Within T K (exec n fun _ s => (setOrgPlan org p s).map fun s => (s, a)) :=
  Within.exec fun _ s s' _ h => by
    cases hs : setOrgPlan org p s with
    | error e => rw [hs] at h; cases h
    | ok s1 => rw [hs] at h; cases h; exact setOrgPlan_touches ho hs

theorem downgradeToFree_within (ho : T .org = true) (hb : T .subscription = true) {org : Id} :
    Within T K (downgradeToFree org) := by
  refine Within.bind (execPlan_within ho) fun r => ?_
  cases r with
  | error e => exact .done _
  | ok _ =>
      exact Within.execUpdate (t := .subscription) (p := fun _ b => decide (b.orgId = org)) (f := fun _ b =>
        { b with plan := .free, status := .canceled, graceUntil := none }) (fun _ _ => rfl) hb

theorem markRoutineRan_within (hr : T .routine = true) {id : Id} {n : Int} : Within T K (markRoutineRan id n) :=
  Within.bind .timeNow fun t =>
    Within.execUpdate (t := .routine) (p := fun _ r => decide (r.id = id)) (f := fun now r =>
      { r with lastRunAt := some now, nextRunAt := if n > 0 then some (t + n * second) else none })
      (fun _ _ => rfl) hr

end DB

/-! ## The pipeline -/

namespace Server

/-- What the pipeline writes. -/
def pipelineTables : Tbl → Bool
  | .task | .step | .pullRequest | .ciRun | .qaReport | .notification | .workerInstance => true
  | _ => false

theorem readOnly_taskOrg (task : Id) : DB.ReadOnly (taskOrg task) := by
  refine DB.ReadOnly.bind (DB.readOnly_getTaskRepo task) fun r => ?_
  rcases r with e | tr
  · exact .done _
  · cases tr <;> exact .done _

theorem readOnly_taskRepoID (task : Id) : DB.ReadOnly (taskRepoID task) := by
  refine DB.ReadOnly.bind (DB.readOnly_getTaskRepo task) fun r => ?_
  rcases r with e | tr
  · exact .done _
  · cases tr <;> exact .done _

theorem readOnly_coderModel (tr : DB.TaskRepo) : DB.ReadOnly (coderModel tr) := by
  refine DB.ReadOnly.bind (DB.readOnly_poolMode _) fun mode => ?_
  split
  · refine DB.ReadOnly.bind (DB.readOnly_pinnedModelForRepo _ _) fun m => ?_
    split
    · exact DB.readOnly_getAgentModel _
    · exact .done _
  · exact DB.readOnly_getAgentModel _

variable {task : Id}

theorem dispatchStep_within {kind : StepKind} {model : String}
    (hK : ∀ o i b, K o (stepEnvelope i task kind b)) : Within T K (dispatchStep task kind model) := by
  refine Within.bind (.ofReadOnly (DB.readOnly_getTaskRepo task)) fun r => ?_
  rcases r with e | tr
  · exact .done _
  · cases tr with
    | none => exact .done _
    | some tr =>
        dsimp only
        split
        · exact .done _
        · exact Within.bind (.newID _) fun i => Within.bind (.hubSend (hK _ _ _)) fun _ => .done _

theorem logTestsSkipped_within : Within T K (logTestsSkipped task) := .lift fun w =>
  ⟨⟨Touches.refl _, rfl, rfl, rfl, fun _ h => List.mem_append_right _ h, [], rfl, fun _ hp => by cases hp⟩, ⟨rfl, rfl⟩,
    .of_same rfl rfl rfl⟩

section

variable (hR : ∀ o i b, K o (stepEnvelope i task .REVIEW b))

include hR

theorem dispatchReview_within : Within T K (dispatchReview task) :=
  Within.bind (.ofReadOnly (DB.readOnly_getAgentModel _)) fun _ => dispatchStep_within hR

theorem advanceExec_within (hT : ∀ o i b, K o (stepEnvelope i task .TEST b)) (org : Id) (r : StepResult) :
    Within pipelineTables K (advanceExec org task r) := by
  refine Within.bind (DB.saveExecResult_within rfl rfl) fun _ => ?_
  refine Within.bind (DB.recordStepOutput_within rfl) fun _ => ?_
  refine Within.bind (DB.createNotification_within rfl) fun _ => ?_
  refine Within.bind (.ofReadOnly (readOnly_taskRepoID _)) fun repo => ?_
  refine Within.bind (.ofReadOnly (DB.readOnly_pinnedWorkerForRepo _ _)) fun cfg => ?_
  cases cfg with
  | none => exact dispatchStep_within hT
  | some cfg =>
      dsimp only
      split
      · exact dispatchStep_within hT
      · exact Within.bind (DB.recordStepOutput_within rfl) fun _ =>
          Within.bind logTestsSkipped_within fun _ => dispatchReview_within hR

theorem advanceTest_within (org : Id) (r : StepResult) : Within pipelineTables K (advanceTest org task r) := by
  refine Within.bind (DB.setCIResult_within rfl rfl) fun _ => ?_
  refine Within.bind (DB.createQAReport_within rfl) fun _ => ?_
  split
  · exact Within.bind (DB.recordStepOutput_within rfl) fun _ => dispatchReview_within hR
  · exact Within.bind (DB.recordStepOutput_within rfl) fun _ =>
      Within.bind (DB.failTask_within rfl) fun _ => DB.createNotification_within rfl

end

theorem advanceMerge_within (org : Id) (r : StepResult) : Within pipelineTables K (advanceMerge org task r) :=
  Within.bind (DB.markMerged_within rfl rfl) fun _ => DB.createNotification_within rfl

theorem readOnly_mergeGate (s : Server) (task : Id) : DB.ReadOnly (s.mergeGate task) := by
  refine DB.ReadOnly.bind (readOnly_taskOrg _) fun org => DB.ReadOnly.bind (readOnly_taskRepoID _) fun repo => ?_
  refine DB.ReadOnly.bind (DB.ReadOnly.bind (DB.readOnly_pinnedWorkerForRepo _ _) fun cfg => ?_) fun decided => ?_
  · cases cfg <;> exact .done _
  · split
    · exact .done _
    · split
      · exact .done _
      · exact DB.ReadOnly.bind (DB.readOnly_poolFlag _ _) fun _ => .done _

theorem advanceReview_within (s : Server) (hM : ∀ o i b, K o (stepEnvelope i task .MERGE b)) (org : Id) (r : StepResult) :
    Within pipelineTables K (s.advanceReview org task r) := by
  refine Within.bind (DB.setAIReview_within rfl) fun _ => Within.bind (DB.recordStepOutput_within rfl) fun _ => ?_
  split
  · exact Within.bind (DB.failTask_within rfl) fun _ => DB.createNotification_within rfl
  · refine Within.bind (.ofReadOnly (readOnly_mergeGate s task)) fun gate => ?_
    refine Within.bind (Within.ofReadOnly ?_) fun approved => ?_
    · split
      · exact DB.readOnly_humanApproved task
      · exact .done _
    · split
      · exact dispatchStep_within hM
      · exact Within.bind (DB.setTaskBlocked_within rfl) fun _ => DB.createNotification_within rfl

/-- The kinds of step that a result may prompt. -/
def prompted (kind : String) : List StepKind :=
  if kind = "exec" then [.TEST, .REVIEW]
  else if kind = "test" then [.REVIEW]
  else if kind = "review" then [.MERGE]
  else []

theorem advancePipeline_prompts (s : Server) (r : StepResult)
    (hK : ∀ k ∈ prompted r.kind, ∀ o i b, K o (stepEnvelope i task k b)) :
    Within pipelineTables K (s.advancePipeline task r) := by
  refine Within.bind (.ofReadOnly (readOnly_taskOrg _)) fun org => ?_
  unfold prompted at hK
  split
  · next hexec =>
      rw [if_pos hexec] at hK
      exact advanceExec_within (hK .REVIEW (by simp)) (hK .TEST (by simp)) org r
  · next hexec =>
      rw [if_neg hexec] at hK
      split
      · next htest =>
          rw [if_pos htest] at hK
          exact advanceTest_within (hK .REVIEW (by simp)) org r
      · next htest =>
          rw [if_neg htest] at hK
          split
          · next hreview =>
              rw [if_pos hreview] at hK
              exact advanceReview_within s (hK .MERGE (by simp)) org r
          · split
            · exact advanceMerge_within org r
            · exact .done _

variable (hM : ∀ o i kind b, K o (stepEnvelope i task kind b))

include hM

theorem advancePipeline_within (s : Server) (r : StepResult) :
    Within pipelineTables K (s.advancePipeline task r) :=
  advancePipeline_prompts s r fun k _ o i b => hM o i k b

theorem reconcileTask_within (s : Server) : Within pipelineTables K (s.reconcileTask task) := by
  refine Within.bind (.ofReadOnly (DB.readOnly_getTaskPipelineState task)) fun r => ?_
  rcases r with e | ps
  · exact .done _
  · cases ps with
    | none => exact .done _
    | some ps =>
        dsimp only
        split
        · exact .done _
        · split
          · exact .done _
          · split
            · exact dispatchStep_within fun o i b => hM o i _ b
            · split
              · exact dispatchReview_within fun o i b => hM o i .REVIEW b
              · split
                · refine Within.bind (.ofReadOnly (readOnly_mergeGate s task)) fun gate => ?_
                  split
                  · exact Within.bind (DB.setTaskBlocked_within rfl) fun _ => .done _
                  · exact dispatchStep_within fun o i b => hM o i _ b
                · exact .done _

omit hM

end Server

end Apifor
