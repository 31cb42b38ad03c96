import Apifor.Lemmas.Steps

/-!
# Who makes a task `merged`

A task of a repository should be `merged` only after the cérebro sent a `MERGE` step for it. The
status follows whatever result the executor reports, so this holds along exactly those runs in which
every result that claims a merge was asked for.
-/

namespace Apifor

variable {a : API} {w : World} {e : Event}

/-! ## What a claimed merge does -/

/-- The program leaves the tasks as they are. -/
abbrev SameTasks (w w' : World) : Prop := w'.db .task = w.db .task

theorem sameTasks_exec {α : Type} {n : String} {f : Time → Store → Except DbErr (Store × α)}
    (h : ∀ now s s' x, f now s = .ok (s', x) → s' .task = s .task) : Prog.Keeps SameTasks (exec n f) := fun w => by
  rw [run_exec]
  cases hf : f w.now w.db with
  | error e => rfl
  | ok r => exact h _ _ _ _ hf

theorem sameTasks_bind {α β : Type} {c : Cmd α} {g : α → Cmd β} (hc : Prog.Keeps SameTasks c)
    (hg : ∀ x, Prog.Keeps SameTasks (g x)) : Prog.Keeps SameTasks (c.bind g) :=
  Prog.Keeps.bind (R := SameTasks) (fun _ _ _ h h' => h'.trans h) hc hg

theorem releaseWorker_sameTasks (task : Id) : Prog.Keeps SameTasks (DB.releaseWorker task) :=
  sameTasks_exec fun _ s s' _ h => by
    obtain ⟨r, hu, hr⟩ := map_eq_ok h
    cases hr
    exact update_other hu (by decide)

theorem createNotification_sameTasks (org ty title body link : String) :
    Prog.Keeps SameTasks (DB.createNotification org ty title body link) := by
  refine sameTasks_bind (fun w => by rw [run_query]) fun owner => sameTasks_bind (fun _ => rfl) fun id => ?_
  refine sameTasks_bind (sameTasks_exec fun now s s' _ h => ?_) fun _ _ => rfl
  obtain ⟨r, hi, hr⟩ := map_eq_ok h
  cases hr
  exact insert_other hi (by decide)

/-- The tasks once a task is `merged`. -/
def mergedTasks (s : Store) (task : Id) : Table (key .task) :=
  (s .task).update (fun t => decide (t.id = task)) (fun t => { t with status := .merged }) fun _ => rfl

theorem rows_mergedTasks (s : Store) (task : Id) :
    (mergedTasks s task).rows =
      (s .task).rows.map fun t => if decide (t.id = task) then { t with status := .merged } else t := rfl

theorem setTask_merged (s : Store) (task : Id) :
    s.setTask task (fun t => { t with status := .merged }) (fun _ => rfl) .task = mergedTasks s task :=
  Store.setTask_task

theorem mergedTasks_congr {s s' : Store} (h : s' .task = s .task) (task : Id) :
    mergedTasks s' task = mergedTasks s task := by rw [mergedTasks, h, mergedTasks]

theorem setMerged_tasks (n : String) (task : Id) (w : World) :
    ((DB.updateTask n task fun t => { t with status := .merged }).run w).1.db .task = mergedTasks w.db task := by
  have hset := DB.run_updateTask (w := w) n task (fun t => { t with status := .merged }) (fun _ => rfl) fun _ => rfl
  rw [hset]
  exact setTask_merged _ _

theorem tail_sameTasks {α β : Type} {g : α → Cmd β} (hg : ∀ x, Prog.Keeps SameTasks (g x)) (c : Cmd α) (w : World) :
    SameTasks (c.run w).1 ((c.bind g).run w).1 := Prog.Keeps.tail (R := SameTasks) (fun _ => rfl) hg c w

theorem completeTask_merged (task : Id) (w : World) :
    ((DB.completeTask task).run w).1.db .task = mergedTasks w.db task := by
  rw [← setMerged_tasks "CompleteTask" task w]
  refine tail_sameTasks (fun r => ?_) _ w
  cases r with
  | error e => exact fun _ => rfl
  | ok _ => exact sameTasks_bind (releaseWorker_sameTasks task) fun _ _ => rfl

theorem run_updatePR_tasks (n : String) (id : Id) (f : PullRequest → PullRequest) (hf : ∀ p, (f p).id = p.id)
    (w : World) : ∃ w' r, (DB.updatePR n id f hf).run w = (w', some r) ∧ SameTasks w w' := by
  rw [DB.updatePR, run_exec]
  cases hu : update .all .pullRequest (fun p => decide (p.id = id)) f w.db (Store.key_pr hf) with
  | error e => exact ⟨w, _, rfl, rfl⟩
  | ok r => exact ⟨_, _, rfl, update_other hu (by decide)⟩

theorem markMerged_merged (task : Id) (url : String) (w : World) :
    ((DB.markMerged task url).run w).1.db .task = mergedTasks w.db task := by
  simp only [DB.markMerged, Prog.bind_def, Prog.run_bind_of_eq (DB.run_prIDByTask task)]
  cases w.db.latestPR task with
  | none => exact setMerged_tasks _ _ _
  | some p =>
      obtain ⟨w', r, hrun, hsame⟩ := run_updatePR_tasks "MarkMerged (pull_request)" p.id
        (fun p => { p with status := .merged, mergedAt := some w.now, url := some url }) (fun _ => rfl) w
      simp only [Option.map, row, timeNow, Prog.run_bind, Prog.run_lift, hrun]
      rw [setMerged_tasks]
      exact mergedTasks_congr hsame task

/-- A result that claims a merge makes its task `merged`. -/
theorem onStepCompleted_merged (s : Server) {ev : StepEvent} (hc : Server.ClaimsMerge ev) (w : World) :
    ((s.onStepCompleted ev).run w).1.db .task = mergedTasks w.db ev.taskId := by
  unfold Server.onStepCompleted
  cases hr : Server.parseResult ev.output with
  | none => exact (tail_sameTasks (fun _ _ => rfl) _ w).trans (completeTask_merged ev.taskId w)
  | some r =>
      obtain ⟨org, horg⟩ := (Server.readOnly_taskOrg ev.taskId).run w
      have hmerge : ((Server.advanceMerge org ev.taskId r).run w).1.db .task = mergedTasks w.db ev.taskId :=
        (tail_sameTasks (fun _ => createNotification_sameTasks _ _ _ _ _) _ w).trans (markMerged_merged _ _ w)
      simpa [Server.advancePipeline, Prog.run_bind_of_eq horg, hc r hr] using hmerge

theorem onStepCompleted_quiet (s : Server) {ev : StepEvent} (hc : Server.ClaimsMerge ev) :
    Within (fun _ => true) (fun _ _ => False) (s.onStepCompleted ev) := by
  unfold Server.onStepCompleted
  cases hr : Server.parseResult ev.output with
  | none => exact Within.bind (DB.completeTask_within rfl rfl) fun _ => .done _
  | some r =>
      refine Within.bind (.ofReadOnly (Server.readOnly_taskOrg _)) fun org => ?_
      simp only [hc r hr, String.reduceEq, if_false, if_true]
      exact (Server.advanceMerge_within org r).mono (fun _ _ => rfl) fun _ _ h => h

/-! ## The law -/

def MergeSent (w : World) (task : Id) : Prop := ∃ p ∈ w.pushed, p.env.dispatches .MERGE task

/-- A task of a repository is `merged` only if its merge was sent. -/
def MergedByCerebro (w : World) : Prop :=
  ∀ t ∈ (w.db .task).rows, t.repoId ≠ none → t.status = .merged → MergeSent w t.id

/-- The message reports the end of a step, and claims that the task is merged. -/
def ReportsMerge (env : Envelope) (ev : StepEvent) : Prop :=
  env.type = .STEP_COMPLETED ∧ env.payload = .stepEvent ev ∧ Server.ClaimsMerge ev

/-- A message that reports the merge of a task of a repository finds that merge sent. -/
def MergeAsked (w : World) (e : Event) : Prop :=
  ∀ st env ev, w.hears e = some (st, env) → ReportsMerge env ev →
    ∀ t ∈ (w.db .task).rows, t.id = ev.taskId → t.repoId ≠ none → MergeSent w t.id

/-- What a message that reports a merge leaves. -/
theorem step_reportsMerge {st : Stream} {env : Envelope} {ev : StepEvent} (he : w.hears e = some (st, env))
    (hr : ReportsMerge env ev) :
    (step a w e).db .task = mergedTasks w.db ev.taskId ∧ (step a w e).pushed = w.pushed := by
  obtain ⟨hty, hpl, hc⟩ := hr
  have hmsg : a.server.onMessage st env = a.server.onStepCompleted ev := by simp only [Server.onMessage, hty, hpl]
  rw [step_of_hears he, hmsg, World.goroutine_db, World.goroutine_pushed]
  refine ⟨onStepCompleted_merged a.server hc w, ?_⟩
  obtain ⟨l, hl, hp⟩ := (onStepCompleted_quiet a.server hc w).pushed
  cases l with
  | nil => exact hl
  | cons p l => exact (hp p List.mem_cons_self).1.elim

theorem MergeSent.step {task : Id} (h : MergeSent w task) : MergeSent (step a w e) task := by
  obtain ⟨p, hp, hd⟩ := h
  exact ⟨p, (step_grows a w e).old hp, hd⟩

theorem mergedByCerebro_step (hi : Issued w) (hm : MergedByCerebro w) (hc : MergeAsked w e) :
    Issued (step a w e) ∧ MergedByCerebro (step a w e) := by
  by_cases hrep : ∃ st env ev, w.hears e = some (st, env) ∧ ReportsMerge env ev
  · obtain ⟨st, env, ev, he, hr⟩ := hrep
    obtain ⟨htasks, -⟩ := step_reportsMerge (a := a) he hr
    have hold : ∀ t' ∈ ((step a w e).db .task).rows, ∃ t ∈ (w.db .task).rows, t'.id = t.id ∧ t'.repoId = t.repoId ∧
        (t.id = ev.taskId ∨ t'.status = t.status) := by
      intro t' ht'
      rw [htasks, rows_mergedTasks] at ht'
      obtain ⟨t, ht, rfl⟩ := List.mem_map.1 ht'
      by_cases hid : t.id = ev.taskId
      · exact ⟨t, ht, by simp [hid], by simp [hid], .inl hid⟩
      · exact ⟨t, ht, by simp [hid], by simp [hid], .inr (by simp [hid])⟩
    refine ⟨fun t' ht' => ?_, fun t' ht' hrepo hst => ?_⟩
    · obtain ⟨t, ht, hid, -⟩ := hold t' ht'
      rw [hid]
      exact hi t ht
    · obtain ⟨t, ht, hid, hre, hor⟩ := hold t' ht'
      rw [hre] at hrepo
      rw [hid]
      rcases hor with hk | hs
      · exact (hc st env ev he hr t ht hk hrepo).step
      · exact (hm t ht hrepo (hs ▸ hst)).step
  · have hflow := step_flow (a := a) (w := w) (e := e) (S := fun _ st => st ≠ .merged) (fun _ _ h _ => h)
      fun st env ev he hty hpl hcl => absurd ⟨st, env, ev, he, hty, hpl, hcl⟩ hrep
    obtain ⟨hi', hf⟩ := hflow hi
    refine ⟨hi', fun t' ht' hrepo hst => ?_⟩
    rcases hf.source t' ht' with ⟨t, ht, hmv⟩ | hfresh
    · rcases hmv.status with hs | hs
      · obtain ⟨r, hr⟩ := Option.ne_none_iff_exists'.1 hrepo
        rw [hmv.id]
        exact (hm t ht (by simp [hmv.repoId r hr]) (hs ▸ hst)).step
      · exact absurd hst hs
    · rcases hfresh.status with hs | hs
      · rw [hs] at hst
        cases hst
      · exact absurd hst hs

theorem mergeAsked_of_step (h : MergedByCerebro (step a w e)) : MergeAsked w e := by
  intro st env ev he hr t ht hid hrepo
  obtain ⟨htasks, hpushed⟩ := step_reportsMerge (a := a) he hr
  have hmem : ({ t with status := .merged } : Task) ∈ ((step a w e).db .task).rows := by
    rw [htasks, rows_mergedTasks]
    exact List.mem_map.2 ⟨t, ht, by simp [hid]⟩
  obtain ⟨p, hp, hd⟩ := h _ hmem hrepo rfl
  exact ⟨p, hpushed ▸ hp, hd⟩

theorem mergedByCerebro_sample : MergedByCerebro Sample.world := fun t ht => by
  rw [Sample.no_tasks] at ht
  cases ht

/-- A routine makes a task, and the executor answers with a text that is no JSON. -/
def forgedMerge : List Event :=
  [.connect "s1", .sched,
    .recv 0 { type := .STEP_COMPLETED, payload := .stepEvent { taskId := "tsk_0", output := "ok" } }]

/-- The task is `merged`, and no step was ever sent for it. -/
theorem forgedMerge_merges :
    Issued Sample.world ∧ MergedByCerebro Sample.world ∧
      ¬ MergedByCerebro (Runs.exec (step {}) Sample.world forgedMerge) := by
  refine ⟨issued_sample, mergedByCerebro_sample, fun h => ?_⟩
  have hany : ((Runs.exec (step {}) Sample.world forgedMerge).db .task).rows.any
      (fun t => decide (t.repoId ≠ none ∧ t.status = .merged)) = true := by decide +kernel
  have hpush : (Runs.exec (step {}) Sample.world forgedMerge).pushed.all
      (fun p => decide (p.env.type ≠ .DISPATCH_STEP)) = true := by decide +kernel
  obtain ⟨t, ht, hst⟩ := List.any_eq_true.1 hany
  obtain ⟨hrepo, hst⟩ := of_decide_eq_true hst
  obtain ⟨p, hp, hty, -⟩ := h t ht hrepo hst
  exact of_decide_eq_true (List.all_eq_true.1 hpush p hp) hty

/-- Along a run the status `merged` follows the cérebro's own merges exactly if no executor reports a
merge that was not sent. -/
theorem mergedByCerebro_always_iff (a : API) (w : World) (es : List Event) (hi : Issued w) (hm : MergedByCerebro w) :
    Runs.Always (step a) MergedByCerebro w es ↔ Runs.Meets (step a) MergeAsked w es := by
  constructor
  · exact Runs.meets_of_always fun _ _ _ h => mergeAsked_of_step h
  · intro h
    have hrun := Runs.always_of_meets (P := fun w => Issued w ∧ MergedByCerebro w) (C := MergeAsked)
      (fun _ _ h hc => mergedByCerebro_step h.1 h.2 hc) ⟨hi, hm⟩ h
    exact hrun.mono fun _ h => h.2

theorem mergedByCerebro_always_sample :
    Runs.Always (step {}) MergedByCerebro Sample.world [.connect "s1", .sched, .recv 0 { type := .HEARTBEAT }] := by
  refine (mergedByCerebro_always_iff {} _ _ issued_sample mergedByCerebro_sample).2 ⟨?_, ?_, ?_, trivial⟩
  · intro st env ev he
    cases he
  · intro st env ev he
    cases he
  · intro st env ev he hr
    obtain ⟨i, hi, -⟩ := hears_eq_some he
    cases hi
    cases hr.1

end Apifor
