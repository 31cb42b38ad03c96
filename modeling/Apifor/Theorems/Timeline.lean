import Apifor.Lemmas.Footprints
import Apifor.Lemmas.Stages
import Apifor.Lib.Runs

/-!
# The timeline of a task

The step rows of a task against the results that its pipeline handled. A run is a list of results,
with anything between them that leaves the step table alone; the state keeps, beside the world, what
was last handled for each task and type of step.
-/

namespace Apifor

namespace Timeline

open Server (StepResult)

variable {α β : Type} {S : Server} {k : Id} {r : StepResult} {w : World} {rows rows' : List Step}

/-! ## The step table -/

/-- The column of the indices is an `integer`. -/
def Indexed (rows : List Step) : Prop := ∀ p ∈ rows, int4 p.idx = true

/-- The statuses of a task's steps of one type. -/
def statuses (rows : List Step) (k : Id) (ty : StepType) : List StepStatus :=
  (rows.filter fun p => decide (p.taskId = k ∧ p.type = ty)).map (·.status)

def marked (k : Id) (ty : StepType) (st : StepStatus) (out : String) (now : Time) (p : Step) : Step :=
  if p.taskId = k ∧ p.type = ty then { p with status := st, output := some out, endedAt := some now } else p

/-- The rows after one of the task's types may have got a status. -/
def Marks (k : Id) (written : Option (StepType × StepStatus)) (rows rows' : List Step) : Prop :=
  match written with
  | none => rows' = rows
  | some (ty, st) => ∃ out now, rows' = rows.map (marked k ty st out now)

theorem idx_marked (ty : StepType) (st : StepStatus) (out : String) (now : Time) (p : Step) :
    (marked k ty st out now p).idx = p.idx := by
  unfold marked
  split <;> rfl

theorem Marks.indexed {x : Option (StepType × StepStatus)} (h : Marks k x rows rows') (hi : Indexed rows) :
    Indexed rows' := by
  cases x with
  | none =>
      rw [show rows' = rows from h]
      exact hi
  | some x =>
      obtain ⟨out, now, rfl⟩ := h
      intro p hp
      obtain ⟨q, hq, rfl⟩ := List.mem_map.1 hp
      rw [idx_marked]
      exact hi q hq

theorem statuses_marked_same (ty : StepType) (st : StepStatus) (out : String) (now : Time) :
    ∀ st' ∈ statuses (rows.map (marked k ty st out now)) k ty, st' = st := by
  intro st' h
  obtain ⟨p, hp, rfl⟩ := List.mem_map.1 h
  obtain ⟨hmem, hkey⟩ := List.mem_filter.1 hp
  obtain ⟨q, -, rfl⟩ := List.mem_map.1 hmem
  unfold marked at hkey ⊢
  split
  · rfl
  · next hne =>
      rw [if_neg hne] at hkey
      exact absurd (of_decide_eq_true hkey) hne

theorem statuses_marked_other (ty : StepType) (st : StepStatus) (out : String) (now : Time) {k' : Id}
    {ty' : StepType} (hne : ¬ (k' = k ∧ ty' = ty)) :
    statuses (rows.map (marked k ty st out now)) k' ty' = statuses rows k' ty' := by
  unfold statuses
  induction rows with
  | nil => rfl
  | cons p rows ih =>
      by_cases hp : p.taskId = k ∧ p.type = ty
      · have hout : ¬ (k = k' ∧ ty = ty') := fun h => hne ⟨h.1.symm, h.2.symm⟩
        simpa [marked, hp, hout] using ih
      · simp only [List.map_cons, marked, if_neg hp]
        by_cases hq : p.taskId = k' ∧ p.type = ty'
        · simpa [hq] using ih
        · simpa [hq] using ih

/-- A type that got a status shows it; every other shows what it did. -/
theorem Marks.statuses {x : Option (StepType × StepStatus)} (h : Marks k x rows rows') (k' : Id) (ty : StepType) :
    (k' = k ∧ ∃ st, x = some (ty, st) ∧ ∀ st' ∈ statuses rows' k' ty, st' = st) ∨
      ((k' ≠ k ∨ ∀ st, x ≠ some (ty, st)) ∧ Timeline.statuses rows' k' ty = Timeline.statuses rows k' ty) := by
  cases x with
  | none =>
      rw [show rows' = rows from h]
      exact .inr ⟨.inr fun st hst => (nomatch hst), rfl⟩
  | some x =>
      obtain ⟨ty', st⟩ := x
      obtain ⟨out, now, rfl⟩ := h
      by_cases hsame : k' = k ∧ ty = ty'
      · obtain ⟨rfl, rfl⟩ := hsame
        exact .inl ⟨rfl, st, rfl, statuses_marked_same ty st out now⟩
      · refine .inr ⟨?_, statuses_marked_other ty' st out now hsame⟩
        by_cases hk : k' = k
        · exact .inr fun st' h => hsame ⟨hk, by cases h; rfl⟩
        · exact .inl hk

/-! ## What a command does to it -/

def noSteps : Tbl → Bool
  | .step => false
  | _ => true

/-- The command returns, and the step table is the same. -/
def Off (c : Cmd α) : Prop := ∀ w, ∃ w' x, c.run w = (w', some x) ∧ (w'.db .step).rows = (w.db .step).rows

/-- The command takes the rows of the step table to rows that `R` allows. -/
def Turns (R : List Step → List Step → Prop) (c : Cmd α) : Prop :=
  ∀ w, Indexed (w.db .step).rows → R (w.db .step).rows ((c.run w).1.db .step).rows

theorem rows_of_within {K : Id → Envelope → Prop} {c : Cmd α} (h : Within noSteps K c) (w : World) :
    ((c.run w).1.db .step).rows = (w.db .step).rows := (h w).db.rows_eq rfl fun _ => rfl

theorem off_of_within {K : Id → Envelope → Prop} {c : Cmd α} (h : Within noSteps K c)
    (hrun : ∀ w, ∃ w' x, c.run w = (w', some x)) : Off c := fun w => by
  obtain ⟨w', x, hx⟩ := hrun w
  refine ⟨w', x, hx, ?_⟩
  rw [← rows_of_within h w, hx]

variable {R : List Step → List Step → Prop}

theorem Turns.after {c : Cmd α} {g : α → Cmd β} (hc : Off c) (hg : ∀ x, Turns R (g x)) : Turns R (c.bind g) := by
  intro w hw
  obtain ⟨w', x, hrun, hrows⟩ := hc w
  rw [Prog.run_bind_of_eq hrun, ← hrows]
  exact hg x w' (by rwa [hrows])

theorem Turns.before {K : Id → Envelope → Prop} {c : Cmd α} {g : α → Cmd β} (hc : Turns R c)
    (hg : ∀ x, Within noSteps K (g x)) : Turns R (c.bind g) := by
  intro w hw
  have h := hc w hw
  rw [Prog.run_bind]
  split
  · next x _ => rwa [rows_of_within (hg x)]
  · exact h

theorem turns_within {K : Id → Envelope → Prop} {c : Cmd α} (h : Within noSteps K c) : Turns (Marks k none) c :=
  fun w _ => rows_of_within h w

/-! ## The statements of the pipeline -/

theorem off_saveExecResult (k : Id) (r : StepResult) : Off (DB.saveExecResult k r.branch r.url) :=
  off_of_within (K := fun _ _ => True) (DB.saveExecResult_within rfl rfl) fun w => by
    obtain ⟨w', x, hrun, -⟩ := At.saveExecResult w k r
    exact ⟨w', x, hrun⟩

theorem off_setCIResult (k : Id) (passed : Bool) (summary : String) : Off (DB.setCIResult k passed summary) :=
  off_of_within (K := fun _ _ => True) (DB.setCIResult_within rfl rfl) fun w => by
    obtain ⟨w', x, hrun, -⟩ := (At.start w).setCIResult (k := k) passed summary
    exact ⟨w', x, hrun⟩

theorem off_createQAReport (k : Id) (passed : Bool) (summary : String) : Off (DB.createQAReport k passed summary) :=
  off_of_within (K := fun _ _ => True) (DB.createQAReport_within rfl) fun w => by
    obtain ⟨w', x, hrun, -⟩ := Aside.createQAReport k passed summary w
    exact ⟨w', x, hrun⟩

theorem off_setAIReview (k : Id) (approved : Bool) : Off (DB.setAIReview k approved) :=
  off_of_within (K := fun _ _ => True) (DB.setAIReview_within rfl) fun w => by
    obtain ⟨w', x, hrun, -⟩ := (At.start w).setAIReview (k := k) approved
    exact ⟨w', x, hrun⟩

/-- A status of the enum and a log that `jsonb` takes reach the rows; anything else leaves them alone. -/
def writes (ty : StepType) (st : StepStatus) (out : String) : Option (StepType × StepStatus) :=
  if DB.jsonbText out then some (ty, st) else none

theorem run_recordStepOutput (k : Id) (ty : StepType) (st : StepStatus) {out : String}
    (hout : DB.jsonbText out = true) (hw : Indexed (w.db .step).rows) :
    (((DB.recordStepOutput k (PgEnum.text ty) (PgEnum.text st) out).run w).1.db .step).rows =
      (w.db .step).rows.map (marked k ty st out w.now) := by
  have hty : (PgEnum.ofText? (PgEnum.text ty) : Option StepType) = some ty := by cases ty <;> rfl
  have hst : (PgEnum.ofText? (PgEnum.text st) : Option StepStatus) = some st := by cases st <;> rfl
  have hup := update_eq_of_inRange .all .step (fun p : Step => decide (p.taskId = k ∧ p.type = ty))
    (fun p => { p with status := st, output := some out, endedAt := some w.now }) w.db (fun _ => rfl)
    (fun _ _ hq => hq) (fun p hp => hw p hp) fun _ _ => rfl
  simp only [DB.recordStepOutput, Prog.bind_def, Prog.run_bind, run_exec, hty, hst, hout, hup, Except.map]
  refine (congrArg Table.rows (Store.set_same ..)).trans (List.map_congr_left fun p _ => ?_)
  simp [marked, Scope.writes]

theorem turns_recordStepOutput (k : Id) (ty : StepType) (st : StepStatus) (out : String) :
    Turns (Marks k (writes ty st out)) (DB.recordStepOutput k (PgEnum.text ty) (PgEnum.text st) out) := by
  intro w hw
  unfold writes
  cases hout : DB.jsonbText out with
  | true => exact ⟨out, w.now, run_recordStepOutput k ty st hout hw⟩
  | false =>
      rw [if_neg (by simp)]
      have hty : (PgEnum.ofText? (PgEnum.text ty) : Option StepType) = some ty := by cases ty <;> rfl
      have hst : (PgEnum.ofText? (PgEnum.text st) : Option StepStatus) = some st := by cases st <;> rfl
      simp only [Marks, DB.recordStepOutput, Prog.bind_def, Prog.run_bind, run_exec, hty, hst, hout]
      rfl

/-- The enum has no status for skipped tests. -/
theorem within_recordSkipped (k : Id) (out : String) :
    Within noSteps (fun _ _ => True) (DB.recordStepOutput k "test" "skipped" out) := by
  have hst : (PgEnum.ofText? "skipped" : Option StepStatus) = none := by decide
  refine Within.bind (Within.exec fun now s s' a h => ?_) fun _ => .done _
  rw [hst] at h
  split at h
  · next heq _ => cases heq
  · cases h

/-! ## The results -/

def verdict : Bool → StepStatus
  | true => .done
  | false => .failed

/-- What the step table gets of a result: nothing of a merge. -/
def written (r : StepResult) : Option (StepType × StepStatus) :=
  if r.kind = "exec" then writes .exec .done ("PR " ++ r.branch)
  else if r.kind = "test" then writes .test (verdict r.passed) r.summary
  else if r.kind = "review" then writes .review (verdict r.approved) r.comments
  else none

variable {K : Id → Envelope → Prop}

theorem within_dispatchStep (kind : StepKind) (model : String) :
    Within noSteps (fun _ _ => True) (Server.dispatchStep k kind model) :=
  Server.dispatchStep_within fun _ _ _ => trivial

theorem within_dispatchReview : Within noSteps (fun _ _ => True) (Server.dispatchReview k) :=
  Server.dispatchReview_within fun _ _ _ => trivial

theorem turns_advanceExec (org : Id) :
    Turns (Marks k (writes .exec .done ("PR " ++ r.branch))) (Server.advanceExec org k r) := by
  refine .after (off_saveExecResult k r) fun _ => ?_
  refine .before (K := fun _ _ => True) (turns_recordStepOutput k .exec .done _) fun _ => ?_
  refine Within.bind (DB.createNotification_within rfl) fun _ => ?_
  refine Within.bind (.ofReadOnly (Server.readOnly_taskRepoID _)) fun repo => ?_
  refine Within.bind (.ofReadOnly (DB.readOnly_pinnedWorkerForRepo _ _)) fun cfg => ?_
  cases cfg with
  | none => exact within_dispatchStep _ _
  | some cfg =>
      dsimp only
      split
      · exact within_dispatchStep _ _
      · exact Within.bind (within_recordSkipped k _) fun _ =>
          Within.bind Server.logTestsSkipped_within fun _ => within_dispatchReview

theorem turns_advanceTest (org : Id) :
    Turns (Marks k (writes .test (verdict r.passed) r.summary)) (Server.advanceTest org k r) := by
  refine .after (off_setCIResult k r.passed r.summary) fun _ => .after (off_createQAReport k r.passed r.summary) fun _ => ?_
  cases r.passed with
  | true => exact .before (turns_recordStepOutput k .test .done _) fun _ => within_dispatchReview
  | false =>
      exact .before (K := fun _ _ => True) (turns_recordStepOutput k .test .failed _) fun _ =>
        Within.bind (DB.failTask_within rfl) fun _ => DB.createNotification_within rfl

theorem turns_advanceReview (S : Server) (org : Id) :
    Turns (Marks k (writes .review (verdict r.approved) r.comments)) (S.advanceReview org k r) := by
  refine .after (off_setAIReview k r.approved) fun _ => ?_
  have hmark : Turns (Marks k (writes .review (verdict r.approved) r.comments))
      (DB.recordStepOutput k "review" (Server.boolStatus r.approved) r.comments) := by
    cases r.approved with
    | true => exact turns_recordStepOutput k .review .done _
    | false => exact turns_recordStepOutput k .review .failed _
  refine .before (K := fun _ _ => True) hmark fun _ => ?_
  split
  · exact Within.bind (DB.failTask_within rfl) fun _ => DB.createNotification_within rfl
  · refine Within.bind (.ofReadOnly (Server.readOnly_mergeGate S k)) fun gate => ?_
    refine Within.bind (Within.ofReadOnly ?_) fun approved => ?_
    · split
      · exact DB.readOnly_humanApproved k
      · exact .done _
    · split
      · exact within_dispatchStep _ _
      · exact Within.bind (DB.setTaskBlocked_within rfl) fun _ => DB.createNotification_within rfl

theorem within_advanceMerge (org : Id) : Within noSteps (fun _ _ => True) (Server.advanceMerge org k r) :=
  Within.bind (DB.markMerged_within rfl rfl) fun _ => DB.createNotification_within rfl

/-- A result marks the steps of at most one type, and touches no other step. -/
theorem turns_advancePipeline (S : Server) (k : Id) (r : StepResult) :
    Turns (Marks k (written r)) (S.advancePipeline k r) := by
  refine .after (fun w => ⟨w, _, Server.run_taskOrg k, rfl⟩) fun org => ?_
  unfold written
  by_cases he : r.kind = "exec"
  · rw [if_pos he, if_pos he]
    exact turns_advanceExec org
  · rw [if_neg he, if_neg he]
    by_cases ht : r.kind = "test"
    · rw [if_pos ht, if_pos ht]
      exact turns_advanceTest org
    · rw [if_neg ht, if_neg ht]
      by_cases hr : r.kind = "review"
      · rw [if_pos hr, if_pos hr]
        exact turns_advanceReview S org
      · rw [if_neg hr, if_neg hr]
        refine turns_within (K := fun _ _ => True) ?_
        split
        · exact within_advanceMerge org
        · exact .done _

/-! ## Stages and their outcomes -/

inductive StageResult | done | failed | skipped
  deriving DecidableEq

/-- The status that shows it; a step cannot show that it was skipped. -/
def StageResult.status? : StageResult → Option StepStatus
  | .done => some .done
  | .failed => some .failed
  | .skipped => none

def StageResult.of : Bool → StageResult
  | true => .done
  | false => .failed

theorem status?_of (b : Bool) : (StageResult.of b).status? = some (verdict b) := by cases b <;> rfl

/-- The stages that a result settles: its own, and the tests that the repository's worker skips. -/
def outcome (db : Store) (k : Id) (r : StepResult) : StepType → Option StageResult
  | .exec => if r.kind = "exec" then some .done else none
  | .test =>
      if r.kind = "test" then some (.of r.passed)
      else if r.kind = "exec" ∧ Server.skipsTests db k = true then some .skipped
      else none
  | .review => if r.kind = "review" then some (.of r.approved) else none
  | .merge => if r.kind = "merge" then some .done else none
  | _ => none

/-- The log that a result leaves on the steps of a type. -/
def log (r : StepResult) : StepType → Option String
  | .exec => if r.kind = "exec" then some ("PR " ++ r.branch) else none
  | .test => if r.kind = "test" then some r.summary else none
  | .review => if r.kind = "review" then some r.comments else none
  | _ => none

/-- The type has a log that the step table takes. -/
def Logged (r : StepResult) (ty : StepType) : Prop := ∃ out, log r ty = some out ∧ DB.jsonbText out = true

theorem written_of_logged {ty : StepType} {o : StageResult} {db : Store} (ho : outcome db k r ty = some o)
    (h : Logged r ty) : ∃ st, written r = some (ty, st) ∧ o.status? = some st := by
  obtain ⟨out, hlog, hout⟩ := h
  cases ty with
  | exec =>
      simp only [log, outcome] at hlog ho
      split_ifs at hlog ho with hk
      cases hlog
      cases ho
      exact ⟨.done, by simp [written, writes, hk, hout], rfl⟩
  | test =>
      simp only [log, outcome] at hlog ho
      split_ifs at hlog with hk
      rw [if_pos hk] at ho
      cases hlog
      cases ho
      exact ⟨_, by simp [written, writes, hk, hout], status?_of r.passed⟩
  | review =>
      simp only [log, outcome] at hlog ho
      split_ifs at hlog ho with hk
      cases hlog
      cases ho
      exact ⟨_, by simp [written, writes, hk, hout], status?_of r.approved⟩
  | plan => cases hlog
  | merge => cases hlog
  | question => cases hlog

theorem logged_of_written {ty : StepType} {st : StepStatus} (h : written r = some (ty, st)) : Logged r ty := by
  unfold written writes at h
  split_ifs at h with he hout ht hout hr hout <;> cases h
  · exact ⟨_, if_pos he, hout⟩
  · exact ⟨_, if_pos ht, hout⟩
  · exact ⟨_, if_pos hr, hout⟩

theorem outcome_of_logged {ty : StepType} (db : Store) (k : Id) (h : Logged r ty) : ∃ o, outcome db k r ty = some o := by
  obtain ⟨out, hlog, -⟩ := h
  cases ty with
  | exec =>
      simp only [log] at hlog
      split_ifs at hlog with hk
      exact ⟨_, if_pos hk⟩
  | test =>
      simp only [log] at hlog
      split_ifs at hlog with hk
      exact ⟨_, if_pos hk⟩
  | review =>
      simp only [log] at hlog
      split_ifs at hlog with hk
      exact ⟨_, if_pos hk⟩
  | plan => cases hlog
  | merge => cases hlog
  | question => cases hlog

/-- A stage that a result settles is logged exactly if its steps are marked. -/
theorem logged_iff {ty : StepType} {o : StageResult} {db : Store} (ho : outcome db k r ty = some o) :
    Logged r ty ↔ ∃ st, written r = some (ty, st) :=
  ⟨fun h => (written_of_logged ho h).imp fun _ => And.left, fun ⟨_, h⟩ => logged_of_written h⟩

/-! ## Runs -/

/-- A world whose plans are stored in columns of their types. -/
structure Stored where
  world : World
  indexed : Indexed (world.db .step).rows

/-- `settled` is the last outcome of each stage of each task. -/
structure State extends Stored where
  settled : Id → StepType → Option StageResult

def State.of (d : Stored) : State := ⟨d, fun _ _ => none⟩

inductive Event
  | result (k : Id) (r : StepResult)
  | elsewhere (f : World → World) (hf : ∀ w, ((f w).db .step).rows = (w.db .step).rows)

def step (S : Server) (t : State) : Event → State
  | .result k r =>
      { world := ((S.advancePipeline k r).run t.world).1
        indexed := (turns_advancePipeline S k r t.world t.indexed).indexed t.indexed
        settled := fun k' ty => if k' = k then (outcome t.world.db k r ty).or (t.settled k' ty) else t.settled k' ty }
  | .elsewhere f hf =>
      { world := f t.world
        indexed := by
          rw [hf]
          exact t.indexed
        settled := t.settled }

variable {ok : StageResult → StepStatus → Prop}

/-- Every step of a type shows the last outcome of its stage, as `ok` reads it. -/
def Shows (ok : StageResult → StepStatus → Prop) (t : State) : Prop :=
  ∀ k ty o, t.settled k ty = some o → ∀ st ∈ statuses (t.world.db .step).rows k ty, ok o st

/-- What a result settles it logs, unless the steps show it already. -/
def Records (ok : StageResult → StepStatus → Prop) (t : State) : Event → Prop
  | .result k r => ∀ ty o, outcome t.world.db k r ty = some o →
      Logged r ty ∨ ∀ st ∈ statuses (t.world.db .step).rows k ty, ok o st
  | .elsewhere _ _ => True

/-- The status is the one of the outcome. -/
def Reflects (o : StageResult) (st : StepStatus) : Prop := o.status? = some st

def NotPending (_ : StageResult) (st : StepStatus) : Prop := st ≠ .pending

/-- An outcome is a result's own, or the one before. -/
theorem settled_step {t : State} {k' : Id} {ty : StepType} {o : StageResult}
    (ho : (step S t (.result k r)).settled k' ty = some o) :
    (k' = k ∧ outcome t.world.db k r ty = some o) ∨
      ((k' = k → outcome t.world.db k r ty = none) ∧ t.settled k' ty = some o) := by
  simp only [step] at ho
  split_ifs at ho with hk
  · rcases Option.or_eq_some_iff.1 ho with hnew | ⟨hnone, hold⟩
    · exact .inl ⟨hk, hnew⟩
    · exact .inr ⟨fun _ => hnone, hold⟩
  · exact .inr ⟨fun h => absurd h hk, ho⟩

theorem shows_step (hok : ∀ o st, o.status? = some st → ok o st) {t : State} {e : Event} (h : Shows ok t)
    (he : Records ok t e) : Shows ok (step S t e) := by
  cases e with
  | elsewhere f hf =>
      intro k ty o ho st hst
      rw [step, hf] at hst
      exact h k ty o ho st hst
  | result k r =>
      intro k' ty o ho st hst
      have hmarks := (turns_advancePipeline S k r t.world t.indexed).statuses k' ty
      rcases settled_step ho with ⟨rfl, hnew⟩ | ⟨hnone, hold⟩
      · rcases hmarks with ⟨-, st', hw, hall⟩ | ⟨hno, hsame⟩
        · obtain ⟨st'', hw', hshows⟩ := written_of_logged hnew (logged_of_written hw)
          rw [hw, Option.some.injEq, Prod.mk.injEq] at hw'
          rw [hall st hst, hw'.2]
          exact hok o _ hshows
        · refine (he ty o hnew).resolve_left (fun hlog => ?_) st (by rwa [← hsame])
          obtain ⟨st', hw⟩ := (logged_iff hnew).1 hlog
          exact hno.elim (fun hne => hne rfl) fun hne => hne st' hw
      · rcases hmarks with ⟨rfl, st', hw, -⟩ | ⟨-, hsame⟩
        · obtain ⟨o', ho'⟩ := outcome_of_logged t.world.db k' (logged_of_written hw)
          rw [hnone rfl] at ho'
          cases ho'
        · exact h k' ty o hold st (by rwa [← hsame])

theorem records_of_shows {t : State} {e : Event} (h : Shows ok (step S t e)) : Records ok t e := by
  cases e with
  | elsewhere f hf => trivial
  | result k r =>
      intro ty o ho
      refine or_iff_not_imp_left.2 fun hlog st hst => ?_
      refine h k ty o (by simp [step, ho]) st ?_
      rcases (turns_advancePipeline S k r t.world t.indexed).statuses k ty with ⟨-, st', hw, -⟩ | ⟨-, hsame⟩
      · exact absurd (logged_of_written hw) hlog
      · exact hsame ▸ hst

/-- For a reading under which the status of an outcome shows it, the timeline follows the pipeline exactly
along the runs whose results are recorded. -/
theorem always_shows_iff (hok : ∀ o st, o.status? = some st → ok o st) (S : Server) (d : Stored) (es : List Event) :
    Runs.Always (step S) (Shows ok) (.of d) es ↔ Runs.Meets (step S) (Records ok) (.of d) es :=
  ⟨Runs.meets_of_always fun _ _ _ => records_of_shows,
    Runs.always_of_meets (P := Shows ok) (fun _ _ => shows_step hok) fun _ _ _ ho => (nomatch ho)⟩

/-- The steps show the outcomes, and none of a settled stage is pending, exactly along the runs whose
results are logged or find steps that need no log. -/
theorem timeline_iff (S : Server) (d : Stored) (es : List Event) :
    (Runs.Always (step S) (Shows Reflects) (.of d) es ↔ Runs.Meets (step S) (Records Reflects) (.of d) es) ∧
      (Runs.Always (step S) (Shows NotPending) (.of d) es ↔ Runs.Meets (step S) (Records NotPending) (.of d) es) := by
  refine ⟨always_shows_iff (fun _ _ h => h) S d es, always_shows_iff (fun o st h => ?_) S d es⟩
  cases o with
  | done =>
      cases h
      exact fun hp => (nomatch hp)
  | failed =>
      cases h
      exact fun hp => (nomatch hp)
  | skipped => cases h

end Timeline

/-! ## A task that was merged -/

namespace Sample

def stepRow (i : Int) (ty : StepType) (id : Id) : (t : Tbl) × Row t :=
  ⟨.step, { id := id, taskId := "tsk_1", idx := i, type := ty, label := none }⟩

/-- A task whose plan has a step of each type. -/
def fullPlan : Timeline.Stored where
  world :=
    { db := Store.ofRows (plans ++ rows ++
        [⟨.task, { id := "tsk_1", orgId := "org_a", workspaceId := "wsp_a", repoId := some "repo_a", title := "t",
                     createdAt := 0 }⟩,
          stepRow 0 .exec "stp_1", stepRow 1 .test "stp_2", stepRow 2 .review "stp_3", stepRow 3 .merge "stp_4"]),
      ulid := fun n => String.ofList (List.replicate n '0') }
  indexed := by
    unfold Timeline.Indexed
    decide +kernel

def wholePipeline : List Timeline.Event :=
  [.result "tsk_1" { kind := "exec", branch := "b", url := "u" },
    .result "tsk_1" { kind := "test", passed := true, summary := "ok" },
    .result "tsk_1" { kind := "review", approved := true, comments := "ok" },
    .result "tsk_1" { kind := "merge", merged := true, url := "u" }]

end Sample

namespace Timeline

/-- Its merge step is still pending. -/
theorem merged_pending :
    ¬ ∀ (S : Server) (d : Stored) (es : List Event), Runs.Always (step S) (Shows NotPending) (.of d) es := by
  intro h
  have hlast := (h {} Sample.fullPlan Sample.wholePipeline).last
  have hmerged : (Runs.exec (step {}) (.of Sample.fullPlan) Sample.wholePipeline).settled "tsk_1" .merge = some .done := by
    decide +kernel
  have hpending : statuses
      ((Runs.exec (step {}) (.of Sample.fullPlan) Sample.wholePipeline).world.db .step).rows "tsk_1" .merge =
        [.pending] := by decide +kernel
  refine hlast "tsk_1" .merge .done hmerged .pending ?_ rfl
  rw [hpending]
  exact List.mem_singleton_self _

end Timeline
end Apifor
