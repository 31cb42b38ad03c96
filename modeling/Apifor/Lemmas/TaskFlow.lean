import Apifor.Lemmas.Footprints

/-!
# How tasks move

Every function adds tasks under ids that `NewID` gives, in status `queued`, and moves old ones: a
task keeps its id and its org, may lose its repository, and changes its status only as `S` says.
`SetTaskStatus`, with its arguments exchanged, moves nothing as long as all ids come from `NewID`.
-/

namespace Apifor

/-- `id` is one that `NewID("tsk")` gives. -/
def IssuedId (id : Id) : Prop := ∃ u, id = "tsk" ++ "_" ++ u

def Issued (w : World) : Prop := ∀ t ∈ (w.db .task).rows, IssuedId t.id

theorem IssuedId.head {id : Id} (h : IssuedId id) : id.toList.take 4 = ['t', 's', 'k', '_'] := by
  obtain ⟨u, rfl⟩ := h
  simp

/-- What may become of a task; `S` says which statuses it may get. -/
structure Moved (S : Id → TaskStatus → Prop) (t t' : Task) : Prop where
  id : t'.id = t.id
  orgId : t'.orgId = t.orgId
  repoId : ∀ r, t'.repoId = some r → t.repoId = some r
  status : t'.status = t.status ∨ S t.id t'.status

/-- A task that was not there. -/
structure Fresh (S : Id → TaskStatus → Prop) (t : Task) : Prop where
  issued : IssuedId t.id
  status : t.status = .queued ∨ S t.id t.status

variable {S : Id → TaskStatus → Prop}

theorem Moved.refl (t : Task) : Moved S t t := ⟨rfl, rfl, fun _ h => h, .inl rfl⟩

theorem Moved.trans {t t' t'' : Task} (h : Moved S t t') (h' : Moved S t' t'') : Moved S t t'' where
  id := h'.id.trans h.id
  orgId := h'.orgId.trans h.orgId
  repoId := fun r hr => h.repoId r (h'.repoId r hr)
  status := by
    rcases h'.status with hs | hs
    · rw [hs]
      exact h.status
    · rw [h.id] at hs
      exact .inr hs

theorem Moved.fresh {t t' : Task} (h : Moved S t t') (hf : Fresh S t) : Fresh S t' where
  issued := by rw [h.id]; exact hf.issued
  status := by
    rcases h.status with hs | hs
    · rw [hs, h.id]
      exact hf.status
    · rw [h.id]
      exact .inr hs

theorem Moved.of_kept {t t' : Task} (h : Kept .task t t') : Moved S t t' := by
  have hcore : ({ t' with repoId := none } : Task) = { t with repoId := none } := h.core
  simp only [Task.mk.injEq] at hcore
  obtain ⟨hid, horg, -, -, -, -, hst, -⟩ := hcore
  refine ⟨hid, horg, fun r hr => ?_, .inl hst⟩
  have hmem : (Tbl.repository, r) ∈ refs .task t := h.refs _ (by simp [refs, hr])
  simpa [refs] using hmem

/-- The tasks of a store become those of another. -/
structure Flows (S : Id → TaskStatus → Prop) (s s' : Store) : Prop where
  source : ∀ t' ∈ (s' .task).rows, (∃ t ∈ (s .task).rows, Moved S t t') ∨ Fresh S t'
  target : ∀ t ∈ (s .task).rows, ∃ t' ∈ (s' .task).rows, Moved S t t'

namespace Flows

theorem refl (s : Store) : Flows S s s :=
  ⟨fun t ht => .inl ⟨t, ht, Moved.refl t⟩, fun t ht => ⟨t, ht, Moved.refl t⟩⟩

theorem trans {s s' s'' : Store} (h : Flows S s s') (h' : Flows S s' s'') : Flows S s s'' where
  source := by
    intro t'' ht''
    rcases h'.source t'' ht'' with ⟨t', ht', hm'⟩ | hf
    · rcases h.source t' ht' with ⟨t, ht, hm⟩ | hf
      · exact .inl ⟨t, ht, hm.trans hm'⟩
      · exact .inr (hm'.fresh hf)
    · exact .inr hf
  target := by
    intro t ht
    obtain ⟨t', ht', hm⟩ := h.target t ht
    obtain ⟨t'', ht'', hm'⟩ := h'.target t' ht'
    exact ⟨t'', ht'', hm.trans hm'⟩

theorem of_touches {T : Tbl → Bool} {s s' : Store} (hT : T .task = false) (h : Touches T s s') : Flows S s s' where
  source := by
    intro t' ht'
    obtain ⟨t, ht, hk⟩ := mem_forall₂ (h .task hT) ht'
    exact .inl ⟨t, ht, Moved.of_kept hk⟩
  target := by
    intro t ht
    obtain ⟨t', ht', hk⟩ := mem_forall₂ (List.Forall₂.flip (R := flip (Kept .task)) (h .task hT)) ht
    exact ⟨t', ht', Moved.of_kept hk⟩

/-- An update whose effect on each selected task `S` allows. -/
theorem update {s : Store} {p : Task → Bool} {f : Task → Task} {hf : ∀ t, key .task (f t) = key .task t}
    (hm : ∀ t ∈ (s .task).rows, p t = true → Moved S t (f t)) :
    Flows S s (s.set .task ((s .task).update p f hf)) := by
  have hrows : ((s.set .task ((s .task).update p f hf)) .task).rows =
      (s .task).rows.map fun t => if p t then f t else t := by rw [Store.set_same, Table.rows_update]
  have hmove : ∀ t ∈ (s .task).rows, Moved S t (if p t then f t else t) := by
    intro t ht
    split
    · next hp => exact hm t ht hp
    · exact Moved.refl t
  refine ⟨fun t' ht' => ?_, fun t ht => ?_⟩
  · rw [hrows] at ht'
    obtain ⟨t, ht, rfl⟩ := List.mem_map.1 ht'
    exact .inl ⟨t, ht, hmove t ht⟩
  · rw [hrows]
    exact ⟨_, List.mem_map_of_mem ht, hmove t ht⟩

theorem insert {s s' : Store} {sc : Scope} {t : Task} (h : insert sc .task t s = .ok s') (hf : Fresh S t) :
    Flows S s s' := by
  have hrows := insert_rows h
  refine ⟨fun t' ht' => ?_, fun t' ht' => ⟨t', by rw [hrows]; exact List.mem_cons_of_mem _ ht', Moved.refl t'⟩⟩
  rw [hrows] at ht'
  rcases List.mem_cons.1 ht' with rfl | ht'
  · exact .inr hf
  · exact .inl ⟨t', ht', Moved.refl t'⟩

theorem issued {w w' : World} (h : Flows S w.db w'.db) (hi : Issued w) : Issued w' := by
  intro t' ht'
  rcases h.source t' ht' with ⟨t, ht, hm⟩ | hf
  · rw [hm.id]
    exact hi t ht
  · exact hf.issued

end Flows

/-- What a function does to the tasks, when the ids of tasks come from `NewID`. -/
abbrev Flow (S : Id → TaskStatus → Prop) : World → World → Prop :=
  Prog.Under Issued fun w w' => Flows S w.db w'.db

namespace Flow

variable {α β : Type}

theorem of_flows {w w' : World} (h : Flows S w.db w'.db) : Flow S w w' := fun hi => ⟨h.issued hi, h⟩

theorem refl (w : World) : Flow S w w := of_flows (Flows.refl _)

theorem trans {w w' w'' : World} (h : Flow S w w') (h' : Flow S w' w'') : Flow S w w'' :=
  Prog.Under.trans (R := fun w w' : World => Flows S w.db w'.db) (fun _ _ _ => Flows.trans) h h'

theorem done (a : α) : Prog.Keeps (Flow S) (.done a : Cmd α) := refl

theorem bind {c : Cmd α} {g : α → Cmd β} (hc : Prog.Keeps (Flow S) c) (hg : ∀ a, Prog.Keeps (Flow S) (g a)) :
    Prog.Keeps (Flow S) (c.bind g) := Prog.Keeps.bind (R := Flow S) (fun _ _ _ => trans) hc hg

/-- A function that does not write tasks. -/
theorem of_within {T : Tbl → Bool} (hT : T .task = false) {c : Cmd α} (h : Within T (fun _ _ => True) c) :
    Prog.Keeps (Flow S) c := fun w => of_flows (Flows.of_touches hT (h w).db)

theorem query (n : String) (f : Time → Store → Except DbErr α) : Prog.Keeps (Flow S) (query n f) :=
  of_within (T := fun _ => false) rfl (.query n f)

theorem ofReadOnly {c : Cmd α} (h : DB.ReadOnly c) : Prog.Keeps (Flow S) c :=
  of_within (T := fun _ => false) rfl (.ofReadOnly h)

theorem newID (pre : String) : Prog.Keeps (Flow S) (newID pre) := of_within (T := fun _ => false) rfl (.newID pre)

theorem hubSend {org : Id} {env : Envelope} : Prog.Keeps (Flow S) (hubSend org env) :=
  of_within (T := fun _ => false) rfl (.hubSend trivial)

end Flow

/-! ## Statements -/

namespace DB

/-- An update that sets the status of a task, and maybe what `S` does not look at. -/
theorem updateTask_flow {n : String} {id : Id} {f : Task → Task} {hf : ∀ t, (f t).id = t.id}
    (hm : ∀ t, t.id = id → Moved S t (f t)) : Prog.Keeps (Flow S) (updateTask n id f hf) := fun w => by
  rw [updateTask, run_exec]
  cases hu : update .all .task (fun t => decide (t.id = id)) f w.db (Store.key_task hf) with
  | error e => exact Flow.refl w
  | ok r =>
      simp only [update] at hu
      split_ifs at hu
      cases hu
      exact Flow.of_flows (Flows.update fun t _ ht => hm t (by simpa [Scope.writes] using ht))

theorem failTask_flow {id reason : String} (h : S id .failed) : Prog.Keeps (Flow S) (failTask id reason) :=
  updateTask_flow fun t ht => ⟨rfl, rfl, fun _ h => h, .inr (by rw [ht]; exact h)⟩

theorem setTaskBlocked_flow {id reason : String} (h : S id .blocked) : Prog.Keeps (Flow S) (setTaskBlocked id reason) :=
  updateTask_flow fun t ht => ⟨rfl, rfl, fun _ h => h, .inr (by rw [ht]; exact h)⟩

/-- The status is the id of no task. -/
theorem setTaskStatus_flow {id status : String} (hs : ¬ IssuedId status) :
    Prog.Keeps (Flow S) (setTaskStatus id status) := fun w hi => by
  unfold setTaskStatus
  cases (PgEnum.ofText? id : Option TaskStatus) with
  | none => exact Flow.query _ _ w hi
  | some st =>
      have hno : Prog.Keeps (Flow fun t s => S t s ∨ t = status)
          (updateTask "SetTaskStatus" status (fun t => { t with status := st }) fun _ => rfl) :=
        updateTask_flow fun t ht => ⟨rfl, rfl, fun _ h => h, .inr (.inr ht)⟩
      have hold : ∀ t ∈ (w.db .task).rows, t.id ≠ status := fun t ht heq => hs (heq ▸ hi t ht)
      obtain ⟨hi', hf⟩ := hno w hi
      refine ⟨hi', fun t' ht' => ?_, fun t ht => ?_⟩
      · rcases hf.source t' ht' with ⟨t, ht, hm⟩ | hf
        · exact .inl ⟨t, ht, hm.id, hm.orgId, hm.repoId, hm.status.imp_right fun h => h.resolve_right (hold t ht)⟩
        · refine .inr ⟨hf.issued, hf.status.imp_right fun h => h.resolve_right fun heq => hs (heq ▸ hf.issued)⟩
      · obtain ⟨t', ht', hm⟩ := hf.target t ht
        exact ⟨t', ht', hm.id, hm.orgId, hm.repoId, hm.status.imp_right fun h => h.resolve_right (hold t ht)⟩

theorem notIssued_planning : ¬ IssuedId "planning" := fun h => by simpa using h.head

theorem notIssued_running : ¬ IssuedId "running" := fun h => by simpa using h.head

theorem createRealTask_flow {sc : Scope} {org wsp title desc repo : String} :
    Prog.Keeps (Flow S) (createRealTask sc org wsp title desc repo) := fun w => by
  simp only [createRealTask, newID, Prog.bind_def, Prog.run_bind, Prog.run_lift, run_exec, Prog.pure_def,
    Prog.run_done]
  cases hi : insert sc .task
      { id := "tsk" ++ "_" ++ w.ulid w.drawn, orgId := org, workspaceId := wsp,
        repoId := if repo = "" then none else some repo, title := title, description := some desc,
        status := .queued, createdAt := w.now } w.db with
  | error e => exact Flow.refl w
  | ok s => exact Flow.of_flows (Flows.insert hi ⟨⟨_, rfl⟩, .inl rfl⟩)

theorem completeTask_flow {id : Id} (h : S id .merged) : Prog.Keeps (Flow S) (completeTask id) := by
  refine Flow.bind (updateTask_flow fun t ht => ⟨rfl, rfl, fun _ h => h, .inr (by rw [ht]; exact h)⟩) fun r => ?_
  cases r with
  | error e => exact Flow.done _
  | ok _ =>
      exact Flow.bind (Flow.of_within (T := fun t => t == .workerInstance) rfl (releaseWorker_within rfl))
        fun _ => Flow.done _

theorem saveExecResult_flow {id branch url : String} (h : S id .in_review) :
    Prog.Keeps (Flow S) (saveExecResult id branch url) := by
  refine Flow.bind (Flow.query _ _) fun r => ?_
  cases r with
  | error e => exact Flow.done _
  | ok v =>
      refine Flow.bind (Flow.newID _) fun i => ?_
      refine Flow.bind (Flow.of_within (T := fun t => t == .pullRequest) rfl (insertRow_within rfl)) fun r => ?_
      cases r with
      | error e => exact Flow.done _
      | ok _ => exact updateTask_flow fun t ht => ⟨rfl, rfl, fun _ h => h, .inr (by rw [ht]; exact h)⟩

theorem markMerged_flow {id url : String} (h : S id .merged) : Prog.Keeps (Flow S) (markMerged id url) := by
  have hset : ∀ n, Prog.Keeps (Flow S) (updateTask n id (fun t => { t with status := .merged }) fun _ => rfl) := fun n =>
    updateTask_flow fun t ht => ⟨rfl, rfl, fun _ h => h, .inr (by rw [ht]; exact h)⟩
  refine Flow.bind (Flow.query _ _) fun r => ?_
  cases r with
  | error e => exact hset _
  | ok v =>
      refine Flow.bind (Flow.of_within (T := fun _ => false) rfl .timeNow) fun now => ?_
      exact Flow.bind (Flow.of_within (T := fun t => t == .pullRequest) rfl (updatePR_within rfl)) fun _ => hset _

theorem savePlan_flow {id : Id} {sts : List PlanStepIn} {n : Int} (h : S id .in_review) :
    Prog.Keeps (Flow S) (savePlan id sts n) := by
  refine Flow.bind (Flow.of_within (T := fun t => t == .step) rfl (savePlanSteps_within rfl sts)) fun r => ?_
  cases r with
  | error e => exact Flow.done _
  | ok _ => exact updateTask_flow fun t ht => ⟨rfl, rfl, fun _ h => h, .inr (by rw [ht]; exact h)⟩

end DB

/-! ## The pipeline -/

namespace Server

/-- What the pipeline writes besides tasks. -/
def stageTables : Tbl → Bool
  | .task => false
  | t => pipelineTables t

variable {task : Id}

theorem dispatchStep_flow {kind : StepKind} {model : String} : Prog.Keeps (Flow S) (dispatchStep task kind model) :=
  Flow.of_within (T := fun _ => false) rfl (dispatchStep_within fun _ _ _ => trivial)

theorem dispatchReview_flow : Prog.Keeps (Flow S) (dispatchReview task) :=
  Flow.of_within (T := fun _ => false) rfl (dispatchReview_within fun _ _ _ => trivial)

theorem createNotification_flow {org ntype title body link : String} :
    Prog.Keeps (Flow S) (DB.createNotification org ntype title body link) :=
  Flow.of_within (T := fun t => t == .notification) rfl (DB.createNotification_within rfl)

theorem recordStepOutput_flow {id ty st out : String} : Prog.Keeps (Flow S) (DB.recordStepOutput id ty st out) :=
  Flow.of_within (T := fun t => t == .step) rfl (DB.recordStepOutput_within rfl)

theorem advanceExec_flow (org : Id) (r : StepResult) (h : S task .in_review) :
    Prog.Keeps (Flow S) (advanceExec org task r) := by
  refine Flow.bind (DB.saveExecResult_flow h) fun _ => Flow.bind recordStepOutput_flow fun _ => ?_
  refine Flow.bind createNotification_flow fun _ => Flow.bind (Flow.ofReadOnly (readOnly_taskRepoID _)) fun repo => ?_
  refine Flow.bind (Flow.ofReadOnly (DB.readOnly_pinnedWorkerForRepo _ _)) fun cfg => ?_
  cases cfg with
  | none => exact dispatchStep_flow
  | some cfg =>
      dsimp only
      split
      · exact dispatchStep_flow
      · exact Flow.bind recordStepOutput_flow fun _ =>
          Flow.bind (Flow.of_within (T := fun _ => false) rfl logTestsSkipped_within) fun _ => dispatchReview_flow

theorem advanceTest_flow (org : Id) (r : StepResult) (h : S task .failed) :
    Prog.Keeps (Flow S) (advanceTest org task r) := by
  refine Flow.bind (Flow.of_within (T := stageTables) rfl (DB.setCIResult_within rfl rfl)) fun _ => ?_
  refine Flow.bind (Flow.of_within (T := stageTables) rfl (DB.createQAReport_within rfl)) fun _ => ?_
  split
  · exact Flow.bind recordStepOutput_flow fun _ => dispatchReview_flow
  · exact Flow.bind recordStepOutput_flow fun _ => Flow.bind (DB.failTask_flow h) fun _ => createNotification_flow

theorem advanceReview_flow (s : Server) (org : Id) (r : StepResult) (hf : S task .failed) (hb : S task .blocked) :
    Prog.Keeps (Flow S) (s.advanceReview org task r) := by
  refine Flow.bind (Flow.of_within (T := stageTables) rfl (DB.setAIReview_within rfl)) fun _ => ?_
  refine Flow.bind recordStepOutput_flow fun _ => ?_
  split
  · exact Flow.bind (DB.failTask_flow hf) fun _ => createNotification_flow
  · refine Flow.bind (Flow.ofReadOnly (readOnly_mergeGate s task)) fun gate => ?_
    refine Flow.bind (Flow.ofReadOnly ?_) fun approved => ?_
    · split
      · exact DB.readOnly_humanApproved task
      · exact .done _
    · split
      · exact dispatchStep_flow
      · exact Flow.bind (DB.setTaskBlocked_flow hb) fun _ => createNotification_flow

theorem advanceMerge_flow (org : Id) (r : StepResult) (h : S task .merged) :
    Prog.Keeps (Flow S) (advanceMerge org task r) :=
  Flow.bind (DB.markMerged_flow h) fun _ => createNotification_flow

/-- Every result but that of a merge leaves a task unmerged; a merge's result is for `hm` to judge. -/
theorem advancePipeline_flow (s : Server) (r : StepResult) (h : ∀ st, st ≠ .merged → st ≠ .planning → S task st)
    (hm : r.kind = "merge" → S task .merged) : Prog.Keeps (Flow S) (s.advancePipeline task r) := by
  refine Flow.bind (Flow.ofReadOnly (readOnly_taskOrg _)) fun org => ?_
  split
  · exact advanceExec_flow org r (h _ (by decide) (by decide))
  · split
    · exact advanceTest_flow org r (h _ (by decide) (by decide))
    · split
      · exact advanceReview_flow s org r (h _ (by decide) (by decide)) (h _ (by decide) (by decide))
      · split
        · next hk => exact advanceMerge_flow org r (hm hk)
        · exact Flow.done _

theorem reconcileTask_flow (s : Server) (h : S task .blocked) : Prog.Keeps (Flow S) (s.reconcileTask task) := by
  refine Flow.bind (Flow.ofReadOnly (DB.readOnly_getTaskPipelineState task)) fun r => ?_
  rcases r with e | ps
  · exact Flow.done _
  · cases ps with
    | none => exact Flow.done _
    | some ps =>
        dsimp only
        split
        · exact Flow.done _
        · split
          · exact Flow.done _
          · split
            · exact dispatchStep_flow
            · split
              · exact dispatchReview_flow
              · split
                · refine Flow.bind (Flow.ofReadOnly (readOnly_mergeGate s task)) fun gate => ?_
                  split
                  · exact Flow.bind (DB.setTaskBlocked_flow h) fun _ => Flow.done _
                  · exact dispatchStep_flow
                · exact Flow.done _

end Server

end Apifor
