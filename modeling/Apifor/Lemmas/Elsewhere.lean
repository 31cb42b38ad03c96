import Apifor.Lemmas.Spares
import Apifor.Lemmas.Handlers

/-!
# The handlers and a foreign org

What the handlers of a stream and the passes of the reaper and the scheduler leave of the rows and the
pushes of an org that the message, the lease or the routine is not of.
-/

namespace Apifor

variable {A : Id} {P : Store → Prop} {s : Store} {w w' : World} {α β : Type} {k : Id}

/-- What is known once a row was inserted: `A` has none under its id. -/
theorem Sparing.inserted (hP : Stable A P) {n : String} {t : Tbl} {r : Time → Row t} {i : Id}
    {g : Except DbErr Unit → Cmd β} (hk : ∀ q : Row t, key t q = ((key t q).1, 0)) (hi : ∀ now, (key t (r now)).1 = i)
    (ho : ∀ now s s', owns A s t (r now) = false ∧ owns A s' t (r now) = false)
    (he : ∀ e, Sparing A P (g (.error e)))
    (hg : Sparing A (fun s => P s ∧ Lacks A t i s) (g (.ok ()))) :
    Sparing A P ((DB.insertRow n t r).bind g) := fun w hp => by
  have hrun : (DB.insertRow n t r).run w = _ := run_exec _ _ w
  cases hins : Apifor.insert .all t (r w.now) w.db with
  | error e =>
      rw [hins] at hrun
      rw [Prog.run_bind_of_eq hrun]
      exact he e w hp
  | ok s1 =>
      rw [hins] at hrun
      rw [Prog.run_bind_of_eq hrun]
      have hsame : SameRows A w.db s1 := sameRows_insert hins (ho _ _ w.db).1
      refine (Untouched.of_rows hsame).trans (hg _ ⟨hP _ _ hsame hp, ?_⟩)
      have hmem : r w.now ∈ (s1 t).rows := by
        rw [insert_rows hins]
        exact List.mem_cons_self
      have hl := lacks_of_mem hmem (ho w.now _ s1).1 fun q => by rw [hk q, hk (r w.now)]
      rwa [hi] at hl

namespace Server

/-- `A` refers to no other org's rows, and its tasks have the ids that the cérebro gives: `SetTaskStatus`, which takes a
status for a task's id, finds none of them. -/
structure Tenant (A : Id) (s : Store) : Prop where
  contained : SelfContained A s
  issued : ∀ t ∈ rowsOf A s .task, IssuedId t.id

theorem stable_tenant : Stable A (Tenant A) := fun _ _ h ht => ⟨ht.contained.congr h, fun t hr => ht.issued t (h .task ▸ hr)⟩

theorem Tenant.lacks (h : Tenant A s) {i : Id} (hi : ¬ IssuedId i) : Lacks A .task i s := fun t ht heq =>
  hi (heq ▸ h.issued t ht)

/-! ## The pipeline -/

theorem dispatchStep_sparing {kind : StepKind} {model : String} :
    Sparing A (Foreign A k) (dispatchStep k kind model) := by
  unfold dispatchStep DB.getTaskRepo read
  refine Sparing.query fun _ s hs => ⟨Foreign A k, hs, ?_⟩
  dsimp only
  cases htr : DB.taskRepo s k with
  | none => exact .done _
  | some tr =>
      dsimp only
      split
      · exact .done _
      · refine Sparing.bind (stable_foreign k) (.newID _) fun i => ?_
        exact Sparing.bind (stable_foreign k) (hubSend_sparing (hs.taskRepo htr)) fun _ => .done _

theorem dispatchReview_sparing : Sparing A (Foreign A k) (dispatchReview k) :=
  Sparing.bind (stable_foreign k) (.readOnly (DB.readOnly_getAgentModel _)) fun _ => dispatchStep_sparing

theorem logTestsSkipped_sparing : Sparing A P (logTestsSkipped k) := fun _ _ => ⟨SameRows.refl _ _, rfl, rfl, rfl⟩

theorem advanceExec_sparing {o : Id} {r : StepResult} (ho : o ≠ A) : Sparing A (Foreign A k) (advanceExec o k r) := by
  have hP := stable_foreign (A := A) k
  refine Sparing.bind hP DB.saveExecResult_sparing fun _ => ?_
  refine Sparing.bind hP DB.recordStepOutput_sparing fun _ => ?_
  refine Sparing.bind hP (DB.createNotification_sparing hP ho) fun _ => ?_
  refine Sparing.bind hP (.readOnly (readOnly_taskRepoID _)) fun repo => ?_
  refine Sparing.bind hP (.readOnly (DB.readOnly_pinnedWorkerForRepo _ _)) fun cfg => ?_
  cases cfg with
  | none => exact dispatchStep_sparing
  | some cfg =>
      dsimp only
      split
      · exact dispatchStep_sparing
      · refine Sparing.bind hP DB.recordStepOutput_sparing fun _ => ?_
        exact Sparing.bind hP logTestsSkipped_sparing fun _ => dispatchReview_sparing

theorem advanceTest_sparing {o : Id} {r : StepResult} (ho : o ≠ A) : Sparing A (Foreign A k) (advanceTest o k r) := by
  have hP := stable_foreign (A := A) k
  refine Sparing.bind hP DB.setCIResult_sparing fun _ => Sparing.bind hP DB.createQAReport_sparing fun _ => ?_
  split
  · exact Sparing.bind hP DB.recordStepOutput_sparing fun _ => dispatchReview_sparing
  · refine Sparing.bind hP DB.recordStepOutput_sparing fun _ => ?_
    exact Sparing.bind hP DB.failTask_sparing fun _ => DB.createNotification_sparing hP ho

theorem advanceReview_sparing (sv : Server) {o : Id} {r : StepResult} (ho : o ≠ A) :
    Sparing A (Foreign A k) (sv.advanceReview o k r) := by
  have hP := stable_foreign (A := A) k
  refine Sparing.bind hP DB.setAIReview_sparing fun _ => Sparing.bind hP DB.recordStepOutput_sparing fun _ => ?_
  split
  · exact Sparing.bind hP DB.failTask_sparing fun _ => DB.createNotification_sparing hP ho
  · refine Sparing.bind hP (.readOnly (readOnly_mergeGate sv k)) fun gate => ?_
    refine Sparing.bind hP (.readOnly ?_) fun approved => ?_
    · split
      · exact DB.readOnly_humanApproved k
      · exact .done _
    · split
      · exact dispatchStep_sparing
      · exact Sparing.bind hP DB.setTaskBlocked_sparing fun _ => DB.createNotification_sparing hP ho

theorem advanceMerge_sparing {o : Id} {r : StepResult} (ho : o ≠ A) : Sparing A (Foreign A k) (advanceMerge o k r) :=
  Sparing.bind (stable_foreign k) DB.markMerged_sparing fun _ => DB.createNotification_sparing (stable_foreign k) ho

/-- The result of a task that is not `A`'s; its notifications go to the task's org. -/
theorem advancePipeline_spares (sv : Server) {r : StepResult} (hk : Foreign A k w.db) (ho : orgOf w.db k ≠ A) :
    Untouched A w ((sv.advancePipeline k r).run w).1 := by
  simp only [advancePipeline, Prog.bind_def, Prog.run_bind_of_eq (run_taskOrg k)]
  split_ifs
  · exact advanceExec_sparing ho w hk
  · exact advanceTest_sparing ho w hk
  · exact advanceReview_sparing sv ho w hk
  · exact advanceMerge_sparing ho w hk
  · exact Untouched.refl A w

theorem reconcileTask_sparing (sv : Server) : Sparing A (Foreign A k) (sv.reconcileTask k) := by
  have hP := stable_foreign (A := A) k
  refine Sparing.bind hP (.readOnly (DB.readOnly_getTaskPipelineState k)) fun res => ?_
  rcases res with e | ps
  · exact .done _
  · cases ps with
    | none => exact .done _
    | some ps =>
        dsimp only
        split
        · exact .done _
        split
        · exact .done _
        split
        · exact dispatchStep_sparing
        split
        · exact dispatchReview_sparing
        split
        · refine Sparing.bind hP (.readOnly (readOnly_mergeGate sv k)) fun gate => ?_
          split
          · exact Sparing.bind hP DB.setTaskBlocked_sparing fun _ => .done _
          · exact dispatchStep_sparing
        · exact .done _

/-! ## Plans -/

theorem dispatchExec_sparing {st : Stream} {pr : PlanResult} {tr : DB.TaskRepo} (ho : st.org ≠ A) :
    Sparing A (Tenant A) (dispatchExec st pr tr) := by
  have hP := stable_tenant (A := A)
  refine Sparing.bind hP (.readOnly (readOnly_taskOrg _)) fun org => ?_
  refine Sparing.bind hP (.readOnly (DB.readOnly_pinnedWorkerForRepo _ _)) fun cfg => ?_
  refine Sparing.bind hP (.readOnly (readOnly_coderModel _)) fun model => Sparing.bind hP (.newID _) fun i => ?_
  refine Sparing.bind hP (streamSend_sparing ho) fun _ => ?_
  exact Sparing.bind hP (DB.setTaskStatus_sparing fun _ h => h.lacks DB.notIssued_running) fun _ => .done _

theorem onPlanResult_sparing {st : Stream} {pr : PlanResult} (ho : st.org ≠ A) :
    Sparing A (fun s => Foreign A pr.taskId s ∧ Tenant A s) (onPlanResult st pr) := by
  have hP := (stable_foreign (A := A) pr.taskId).and stable_tenant
  refine Sparing.bind hP (DB.savePlan_sparing.mono fun _ h => h.1) fun res => ?_
  cases res with
  | error e => exact .done _
  | ok _ =>
      refine Sparing.bind hP (.readOnly (DB.readOnly_getTaskRepo _)) fun tr => ?_
      rcases tr with e | tr
      · exact .done _
      · cases tr with
        | none => exact .done _
        | some tr =>
            dsimp only
            split
            · exact .done _
            · exact (dispatchExec_sparing ho).mono fun _ h => h.2

/-! ## Leases -/

theorem grantLease_sparing (hP : Stable A P) {o wsp : Id} {ttl : Int} {renews : Bool} (ho : o ≠ A) :
    Sparing A P (DB.grantLease o wsp ttl renews) := by
  refine Sparing.bind hP (.newID _) fun v => ?_
  have hnew := hP.and (stable_lacks (A := A) .workerInstance v)
  refine Sparing.inserted hP (i := v) (fun _ => rfl) (fun _ => rfl)
    (fun _ _ _ => ⟨decide_eq_false ho, decide_eq_false ho⟩) (fun _ => .done _) ?_
  refine Sparing.bind hnew (.newID _) fun l => Sparing.bind hnew .timeNow fun now => ?_
  refine Sparing.bind hnew (.insertRow fun _ _ _ => decide_eq_false ho) fun res => ?_
  cases res with
  | error e => exact .done _
  | ok _ =>
      refine Sparing.bind hnew ?_ fun res => by cases res <;> exact .done _
      refine Sparing.update (t := .workerInstance) (p := fun _ x => decide (x.id = v))
        (f := fun _ x => { x with leaseId := some l }) (fun _ _ => rfl) fun _ s hs x hx hit => ?_
      have hown : owns A s .workerInstance x = false := hs.2.owns hx (of_decide_eq_true hit)
      exact ⟨hown, hown⟩

theorem grant_sparing (hP : Stable A P) (sv : Server) {o wsp : Id} {pl : DB.PlanLimits} (ho : o ≠ A) :
    Sparing A P (sv.grant o wsp pl) := by
  refine Sparing.bind hP (grantLease_sparing hP ho) fun res => ?_
  cases res with
  | error e => exact .done _
  | ok g =>
      refine Sparing.bind hP (DB.recordUsage_sparing hP ho) fun _ => ?_
      exact Sparing.bind hP (DB.recordUsage_sparing hP ho) fun _ => .done _

theorem grantInHours_sparing (hP : Stable A P) (sv : Server) {o wsp : Id} {pl : DB.PlanLimits} (ho : o ≠ A) :
    Sparing A P (sv.grantInHours o wsp pl) := by
  unfold grantInHours
  dsimp only
  split
  · refine Sparing.bind hP (.readOnly (readOnly_weekSecondsUsed _)) fun used => ?_
    split
    · exact .done _
    · exact grant_sparing hP sv ho
  · exact grant_sparing hP sv ho

theorem tryGrant_sparing (hP : Stable A P) (sv : Server) {o wsp : Id} (ho : o ≠ A) :
    Sparing A P (sv.tryGrant o wsp) := by
  refine Sparing.bind hP (.readOnly (DB.readOnly_poolFlag _ _)) fun paused => ?_
  split
  · exact .done _
  · refine Sparing.bind hP (.readOnly (readOnly_getPlanLimits _)) fun pl => ?_
    rcases pl with e | pl
    · exact .done _
    · cases pl with
      | none => exact .done _
      | some pl =>
          refine Sparing.bind hP (.readOnly (readOnly_effectiveCap _ _)) fun cap => ?_
          split
          · refine Sparing.bind hP (.readOnly (readOnly_activeLeaseCount _)) fun n => ?_
            split
            · exact .done _
            · exact grantInHours_sparing hP sv ho
          · exact grantInHours_sparing hP sv ho

theorem onLeaseRequest_sparing (hP : Stable A P) (sv : Server) {st : Stream} (ho : st.org ≠ A) :
    Sparing A P (sv.onLeaseRequest st) := by
  refine Sparing.bind hP (tryGrant_sparing hP sv ho) fun res => ?_
  cases res with
  | error e => exact streamSend_sparing ho
  | ok g => exact streamSend_sparing ho

/-! ## The reaper -/

/-- A lease of another org, whose worker is not `A`'s either. -/
structure Strange (A : Id) (l : DB.ActiveLease) (s : Store) : Prop where
  org : l.orgID ≠ A
  lease : Lacks A .lease l.leaseID s
  worker : Lacks A .workerInstance l.workerID s

theorem stable_strange (l : DB.ActiveLease) : Stable A (Strange A l) := fun s s' h hs =>
  ⟨hs.org, stable_lacks _ _ s s' h hs.lease, stable_lacks _ _ s s' h hs.worker⟩

section

variable {l : DB.ActiveLease}

/-- A worker's row that a statement finds by the lease. -/
theorem workerUpdate_sparing {n : String} {p : WorkerInstance → Bool} {f : WorkerInstance → WorkerInstance}
    (hf : ∀ v, (f v).id = v.id) (ho : ∀ v, (f v).orgId = v.orgId) (hp : ∀ v, p v = true → v.id = l.workerID) :
    Sparing A (Strange A l) (exec n fun _ s =>
      (update .all .workerInstance p f s fun v => congrArg (·, (0 : Int)) (hf v)).map fun q => (q.1, ())) :=
  Sparing.update (t := .workerInstance) (p := fun _ => p) (f := fun _ => f) (fun _ v => congrArg (·, (0 : Int)) (hf v))
    fun _ s hs v hv hit => by
      have hown : owns A s .workerInstance v = false := hs.worker.owns hv (hp v hit)
      refine ⟨hown, ?_⟩
      simp only [owns] at hown ⊢
      rwa [ho]

/-- A lease's row that a statement finds by its id. -/
theorem leaseUpdate_sparing {n : String} {p : Lease → Bool} {f : Time → Lease → Lease} (hf : ∀ now x, (f now x).id = x.id)
    (ho : ∀ now x, (f now x).orgId = x.orgId) (hp : ∀ x, p x = true → x.id = l.leaseID) :
    Sparing A (Strange A l) (exec n fun now s =>
      (update .all .lease p (f now) s fun x => congrArg (·, (0 : Int)) (hf now x)).map fun q => (q.1, ())) :=
  Sparing.update (t := .lease) (p := fun _ => p) (f := f) (fun now x => congrArg (·, (0 : Int)) (hf now x))
    fun now s hs x hx hit => by
      have hown : owns A s .lease x = false := hs.lease.owns hx (hp x hit)
      refine ⟨hown, ?_⟩
      simp only [owns] at hown ⊢
      rwa [ho]

theorem endLease_sparing {reason : LeaseEndReason} : Sparing A (Strange A l) (DB.endLease l.leaseID reason) :=
  leaseUpdate_sparing (f := fun now x => { x with endedAt := some now, endReason := some reason }) (fun _ _ => rfl)
    (fun _ _ => rfl) fun _ h => (of_decide_eq_true h).1

theorem renewLease_sparing {ttl : Int} : Sparing A (Strange A l) (DB.renewLease l.leaseID ttl) := by
  refine Sparing.bind (stable_strange l) .timeNow fun now => ?_
  exact leaseUpdate_sparing (f := fun _ x => { x with expiresAt := some (now + ttl * second) }) (fun _ _ => rfl)
    (fun _ _ => rfl) fun _ h => of_decide_eq_true h

theorem stop_sparing {reason : LeaseEndReason} : Sparing A (Strange A l)
    (if reason = .expired then DB.pauseWorker l.workerID else DB.stopWorker l.workerID) := by
  split
  · exact workerUpdate_sparing (f := fun v => { v with status := .paused }) (fun _ => rfl) (fun _ => rfl)
      fun _ h => (of_decide_eq_true h).1
  · exact workerUpdate_sparing
      (f := fun v => { v with status := .stopped, currentTaskId := none, currentStep := none, leaseId := none })
      (fun _ => rfl) (fun _ => rfl) fun _ h => of_decide_eq_true h

theorem revoke_sparing {reason : LeaseEndReason} (ho : l.orgID ≠ A) : Sparing A (Strange A l) (revoke l reason) := by
  have hP := stable_strange (A := A) l
  refine Sparing.bind hP endLease_sparing fun _ => Sparing.bind hP stop_sparing fun _ => ?_
  refine Sparing.bind hP (DB.recordUsage_sparing hP ho) fun _ => Sparing.bind hP (DB.recordUsage_sparing hP ho) fun _ => ?_
  refine Sparing.bind hP (hubSend_sparing ho) fun _ => Sparing.bind hP (hubSend_sparing ho) fun _ => ?_
  exact DB.createNotification_sparing hP ho

theorem reapTTL_sparing (sv : Server) {pl : Option DB.PlanLimits} (ho : l.orgID ≠ A) :
    Sparing A (Strange A l) (sv.reapTTL l pl) := by
  have hP := stable_strange (A := A) l
  unfold reapTTL
  split
  · exact .done _
  · refine Sparing.bind hP .timeNow fun now => ?_
    split
    · split
      · exact Sparing.bind hP renewLease_sparing fun _ => .done _
      · exact revoke_sparing ho
    · exact .done _

theorem addWorkerSeconds_sparing {o : Id} {sec : Int} (ho : o ≠ A) : Sparing A P (DB.addWorkerSeconds o sec) :=
  Sparing.exec fun now s s' a _ hs => by
    split at hs
    · obtain ⟨⟨s1, m⟩, hu, heq⟩ := map_eq_ok hs
      cases heq
      refine sameRows_update hu fun c _ hit => ?_
      simp only [Scope.writes, Bool.true_and, decide_eq_true_eq] at hit
      have hc : c.orgId ≠ A := fun hc => ho (hit.1.symm.trans hc)
      exact ⟨decide_eq_false hc, decide_eq_false hc⟩
    · obtain ⟨s1, hi, heq⟩ := map_eq_ok hs
      cases heq
      exact sameRows_insert hi (decide_eq_false ho)

theorem reapLease_sparing (sv : Server) (ho : l.orgID ≠ A) : Sparing A (Strange A l) (sv.reapLease l) := by
  have hP := stable_strange (A := A) l
  refine Sparing.bind hP (addWorkerSeconds_sparing ho) fun _ => ?_
  refine Sparing.bind hP (.readOnly (DB.ReadOnly.bind (.query _ _) fun res => by cases res <;> exact .done _))
    fun revoked => ?_
  split
  · exact revoke_sparing ho
  · refine Sparing.bind hP (.readOnly (readOnly_getPlanLimits _)) fun pl => ?_
    dsimp only
    split
    · refine Sparing.bind hP (.readOnly (readOnly_weekSecondsUsed _)) fun used => ?_
      split
      · exact revoke_sparing ho
      · exact reapTTL_sparing sv ho
    · exact reapTTL_sparing sv ho

end

theorem reapLeases_sparing (sv : Server) (ls : List DB.ActiveLease) :
    Sparing A (fun s => ∀ l ∈ ls, Strange A l s) (sv.reapLeases ls) := by
  induction ls with
  | nil => exact .done _
  | cons l ls ih =>
      have hP : Stable A fun s => ∀ x ∈ l :: ls, Strange A x s := fun s s' h hs x hx => stable_strange x s s' h (hs x hx)
      refine Sparing.bind hP (fun w hw => ?_) fun _ => ih.mono fun s hs x hx => hs x (List.mem_cons_of_mem _ hx)
      have hl := hw l List.mem_cons_self
      exact reapLease_sparing sv hl.org w hl

theorem setOrgPlan_spares {o : Id} {p : OrgPlan} {s s' : Store} (ho : o ≠ A) (h : DB.setOrgPlan o p s = .ok s') :
    SameRows A s s' := by
  unfold DB.setOrgPlan at h
  obtain ⟨⟨s1, m⟩, hu, heq⟩ := map_eq_ok h
  cases heq
  refine sameRows_update hu fun x _ hit => ?_
  simp only [Scope.writes, Bool.true_and, decide_eq_true_eq] at hit
  have hx : x.id ≠ A := fun hx => ho (hit.symm.trans hx)
  exact ⟨decide_eq_false hx, decide_eq_false hx⟩

/-- A statement about the subscriptions of another org. -/
theorem subsUpdate_sparing {n : String} {o : Id} {f : Subscription → Subscription} (hf : ∀ b, (f b).id = b.id)
    (hof : ∀ b, (f b).orgId = b.orgId) (ho : o ≠ A) :
    Sparing A P (exec n fun _ s => (update .all .subscription (fun b => decide (b.orgId = o)) f s
      fun b => congrArg (·, (0 : Int)) (hf b)).map fun q => (q.1, ())) :=
  Sparing.update (t := .subscription) (p := fun _ b => decide (b.orgId = o)) (f := fun _ => f)
    (fun _ b => congrArg (·, (0 : Int)) (hf b)) fun _ s _ b _ hit => by
      have hb : b.orgId ≠ A := fun hb => ho ((of_decide_eq_true hit).symm.trans hb)
      refine ⟨decide_eq_false hb, decide_eq_false ?_⟩
      rwa [hof]

theorem downgradeToFree_sparing (hP : Stable A P) {o : Id} (ho : o ≠ A) : Sparing A P (DB.downgradeToFree o) := by
  refine Sparing.bind hP (Sparing.exec fun _ s s' _ _ hs => ?_) fun res => ?_
  · obtain ⟨s1, hplan, heq⟩ := map_eq_ok hs
    cases heq
    exact setOrgPlan_spares ho hplan
  · cases res with
    | error e => exact .done _
    | ok _ =>
        exact subsUpdate_sparing (f := fun b => { b with plan := .free, status := .canceled, graceUntil := none })
          (fun _ => rfl) (fun _ => rfl) ho

theorem downgradeAll_sparing (hP : Stable A P) {orgs : List Id} (ho : ∀ o ∈ orgs, o ≠ A) :
    Sparing A P (downgradeAll orgs) := by
  induction orgs with
  | nil => exact .done _
  | cons o orgs ih =>
      refine Sparing.bind hP (downgradeToFree_sparing hP (ho o List.mem_cons_self)) fun _ => ?_
      exact ih fun x hx => ho x (List.mem_cons_of_mem _ hx)

/-- The reaper has nothing to do for `A`: no lease of it is active, no active lease has a worker of it, and no grace of
it is over. -/
structure Unreaped (A : Id) (now : Time) (s : Store) : Prop where
  leases : ∀ l ∈ (s .lease).rows, l.endedAt = none → l.orgId ≠ A ∧ Lacks A .workerInstance l.workerInstanceId s
  grace : ∀ b ∈ (s .subscription).rows, b.status = .past_due → ∀ g, b.graceUntil = some g → g < now → b.orgId ≠ A

theorem dunning_spares (h : Unreaped A w.now w.db) : Untouched A w ((dunning).run w).1 := by
  unfold dunning DB.pastDueExpired
  simp only [Prog.bind_def, Prog.run_bind, run_query]
  refine downgradeAll_sparing (P := fun _ => True) (fun _ _ _ h => h) (fun o ho => ?_) w trivial
  obtain ⟨b, hb, rfl⟩ := List.mem_map.1 ho
  obtain ⟨hmem, hdue⟩ := List.mem_filter.1 hb
  simp only [Bool.and_eq_true, decide_eq_true_eq] at hdue
  cases hg : b.graceUntil with
  | none => rw [hg] at hdue; exact absurd hdue.2 (by simp)
  | some g =>
      rw [hg] at hdue
      exact h.grace b (List.mem_reverse.1 hmem) hdue.1 g hg (by simpa using hdue.2)

theorem reapOnce_spares (sv : Server) (h : Unreaped A w.now w.db) : Untouched A w (sv.reapOnce.run w).1 := by
  have hd := dunning_spares h
  have hfoot : Foot dunningTables (fun _ _ => True) w (dunning.run w).1 := (dunning_within.run w).foot
  have hleases : ((dunning.run w).1.db .lease).rows = (w.db .lease).rows := hfoot.db.rows_eq rfl fun _ => rfl
  unfold reapOnce
  rw [Prog.bind_def, Prog.run_bind]
  split
  · refine hd.trans ?_
    simp only [DB.allActiveLeases, Prog.bind_def, Prog.run_bind, DB.run_read]
    refine reapLeases_sparing sv _ _ fun x hx => ?_
    obtain ⟨l, hl, rfl⟩ := List.mem_map.1 hx
    obtain ⟨hmem, hactive⟩ := List.mem_filter.1 hl
    have hmem' := List.mem_reverse.1 hmem
    rw [hleases] at hmem'
    obtain ⟨ho, hw⟩ := h.leases l hmem' (of_decide_eq_true hactive)
    have hlease : Lacks A .lease l.id (dunning.run w).1.db :=
      lacks_of_mem (t := .lease) (List.mem_reverse.1 hmem) (decide_eq_false ho) fun _ => rfl
    exact ⟨ho, hlease, stable_lacks _ _ _ _ hd.rows hw⟩
  · exact hd

/-! ## The scheduler -/

theorem createRealTask_sparing (hP : Stable A P) {sc : Scope} {o wsp title desc repo : Id} (ho : o ≠ A) :
    Sparing A P (DB.createRealTask sc o wsp title desc repo) := by
  refine Sparing.bind hP (.newID _) fun i => Sparing.bind hP (Sparing.exec fun _ _ _ _ _ hs => ?_) fun _ => .done _
  obtain ⟨s1, hi, heq⟩ := map_eq_ok hs
  cases heq
  exact sameRows_insert hi (decide_eq_false ho)

theorem fireRoutine_sparing (sv : Server) {o wsp : Id} {act : RoutineAction} (ho : o ≠ A) :
    Sparing A (Tenant A) (sv.fireRoutine o wsp act) := by
  have hP := stable_tenant (A := A)
  refine Sparing.bind hP (.readOnly ?_) fun wsp => Sparing.bind hP (createRealTask_sparing hP ho) fun res => ?_
  · split
    · exact DB.readOnly_firstWorkspace _
    · exact .done _
  · obtain ⟨task, created⟩ := res
    cases created with
    | error e => exact .done _
    | ok _ =>
        refine Sparing.bind hP (.readOnly (DB.readOnly_promptWithMemory _ _ _)) fun p => ?_
        refine Sparing.bind hP (hubSend_sparing ho) fun sent => ?_
        cases sent with
        | true =>
            refine Sparing.bind hP (DB.setTaskStatus_sparing fun _ h => h.lacks DB.notIssued_planning) fun _ => ?_
            exact DB.createNotification_sparing hP ho
        | false => exact DB.createNotification_sparing hP ho

/-- The routine is not `A`'s. -/
def Away (A : Id) (q : DB.RoutineDue) (s : Store) : Prop := q.orgID ≠ A ∧ Lacks A .routine q.id s

theorem markRoutineRan_sparing {i : Id} {n : Int} (h : ∀ s, P s → Lacks A .routine i s) (hP : Stable A P) :
    Sparing A P (DB.markRoutineRan i n) := by
  refine Sparing.bind hP .timeNow fun now => ?_
  refine Sparing.update (t := .routine) (p := fun _ q => decide (q.id = i))
    (f := fun later q => { q with lastRunAt := some later, nextRunAt := if n > 0 then some (now + n * second) else none })
    (fun _ _ => rfl) fun _ s hs q hq hit => ?_
  have hown : owns A s .routine q = false := (h s hs).owns hq (of_decide_eq_true hit)
  exact ⟨hown, hown⟩

theorem fireAll_sparing (sv : Server) (due : List DB.RoutineDue) :
    Sparing A (fun s => Tenant A s ∧ ∀ q ∈ due, Away A q s) (sv.fireAll due) := by
  induction due with
  | nil => exact .done _
  | cons q due ih =>
      have hP : Stable A fun s => Tenant A s ∧ ∀ x ∈ q :: due, Away A x s := fun s s' h hs =>
        ⟨stable_tenant s s' h hs.1, fun x hx => ⟨(hs.2 x hx).1, stable_lacks _ _ s s' h (hs.2 x hx).2⟩⟩
      refine Sparing.bind hP (fun w hw => ?_) fun _ => Sparing.bind hP (markRoutineRan_sparing (fun s hs => ?_) hP) fun _ => ?_
      · exact fireRoutine_sparing sv (hw.2 q List.mem_cons_self).1 w hw.1
      · exact (hs.2 q List.mem_cons_self).2
      · exact ih.mono fun s hs => ⟨hs.1, fun x hx => hs.2 x (List.mem_cons_of_mem _ hx)⟩

/-- No routine of `A` is due. -/
def Undue (A : Id) (now : Time) (s : Store) : Prop :=
  ∀ q ∈ (s .routine).rows, q.enabled = true → q.triggerType = .schedule → ∀ t, q.nextRunAt = some t → t ≤ now → q.orgId ≠ A

theorem schedule_spares (sv : Server) (ht : Tenant A w.db) (h : Undue A w.now w.db) :
    Untouched A w (sv.schedule.run w).1 := by
  simp only [schedule, DB.dueRoutines, Prog.bind_def, Prog.run_bind, run_query]
  split
  · next due hdue =>
      split at hdue
      · cases hdue
        refine fireAll_sparing sv _ w ⟨ht, fun q hq => ?_⟩
        obtain ⟨x, hx, rfl⟩ := List.mem_map.1 hq
        obtain ⟨hmem, hon⟩ := List.mem_filter.1 hx
        have hmem := List.mem_reverse.1 hmem
        simp only [Bool.and_eq_true, decide_eq_true_eq] at hon
        obtain ⟨⟨hen, hsched⟩, hnext⟩ := hon
        obtain ⟨t, hnt⟩ : ∃ t, x.nextRunAt = some t := by
          cases hx : x.nextRunAt with
          | none => simp [hx] at hnext
          | some t => exact ⟨t, rfl⟩
        have ho : x.orgId ≠ A := h x hmem hen hsched t hnt (by simpa [hnt] using hnext)
        exact ⟨ho, lacks_of_mem (t := .routine) hmem (decide_eq_false ho) fun _ => rfl⟩
      · cases hdue
  · exact Untouched.refl A w

/-! ## Messages -/

/-- The task that the handling of a message is about. -/
def taskOf (env : Envelope) : Option Id :=
  match env.type, env.payload with
  | .STEP_COMPLETED, .stepEvent ev => some ev.taskId
  | .STEP_FAILED, .stepEvent ev => some ev.taskId
  | .TASK_STATE_SNAPSHOT, .taskStateSnapshot snap => some snap.taskId
  | .PLAN_RESULT, .planResult pr => some pr.taskId
  | _, _ => none

/-- A message on a stream of another org, opened by a device that is not `A`'s; the task that it is about is not `A`'s,
nor unknown with `A` as the default org, and `A` has no pull request of it and no worker on it. -/
structure Foreigner (A : Id) (s : Store) (st : Stream) (env : Envelope) : Prop where
  org : st.org ≠ A
  device : Lacks A .device st.device s
  task : ∀ k, taskOf env = some k → Foreign A k s ∧ orgOf s k ≠ A

theorem onMessage_spares (sv : Server) {st : Stream} {env : Envelope} (h : Foreigner A w.db st env) (ht : Tenant A w.db) :
    Untouched A w ((sv.onMessage st env).run w).1 := by
  have hall : Stable A fun _ => True := fun _ _ _ h => h
  unfold onMessage
  split
  · exact DB.touchDevice_sparing (fun _ hl => hl) (stable_lacks _ _) w h.device
  · exact onLeaseRequest_sparing hall sv h.org w trivial
  · next ev hty hpl =>
      obtain ⟨hk, ho⟩ := h.task ev.taskId (by simp [taskOf, hty, hpl])
      unfold onStepCompleted
      split
      · exact advancePipeline_spares sv hk ho
      · exact Sparing.bind (stable_foreign _) DB.completeTask_sparing (fun _ => .done _) w hk
  · next ev hty hpl =>
      obtain ⟨hk, -⟩ := h.task ev.taskId (by simp [taskOf, hty, hpl])
      exact Sparing.bind (stable_foreign _) DB.failTask_sparing (fun _ => .done _) w hk
  · next snap hty hpl =>
      obtain ⟨hk, -⟩ := h.task snap.taskId (by simp [taskOf, hty, hpl])
      exact reconcileTask_sparing sv w hk
  · next pr hty hpl =>
      obtain ⟨hk, -⟩ := h.task pr.taskId (by simp [taskOf, hty, hpl])
      exact onPlanResult_sparing h.org w ⟨hk, ht⟩
  · exact Untouched.refl A w

end Server

end Apifor
