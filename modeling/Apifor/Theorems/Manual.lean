import Apifor.Lemmas.Stages
import Apifor.Lemmas.TaskFlow
import Apifor.System
import Apifor.Lib.Runs

/-!
# A routine run by hand

`POST /v1/routines/{id}/run` and the scheduler trigger the relay in two packages. They leave the same task
and the same request for a plan exactly if the task would be put in the org's first workspace and the
newest worker of its repository, enabled or not, has no rules that reach an executor.
-/

namespace Apifor

namespace Manual

variable {a : API} {u : Caller} {r : Request} {w w' : World} {o wsp : Id} {act : RoutineAction} {q : Routine} {β : Type}

/-! ## What a trigger leaves -/

/-- The tasks, and the messages on the channels with their orgs. -/
def seen (w : World) : List Task × List (Id × Envelope) :=
  ((w.db .task).rows, w.pushed.map fun p => (p.org, p.env))

/-- The program leaves no trace among them. -/
def Silent (c : Cmd β) : Prop := ∀ w, seen (c.run w).1 = seen w

theorem silent_of_aside {c : Cmd β} (h : Aside c) : Silent c := fun w => by
  obtain ⟨w', x, hrun, hb⟩ := h w
  rw [hrun, seen, seen, hb.db .task rfl, hb.pushed]

theorem silent_done (x : β) : Silent (.done x : Cmd β) := fun _ => rfl

theorem silent_bind {α : Type} {c : Cmd α} {g : α → Cmd β} (hc : Silent c) (hg : ∀ x, Silent (g x)) :
    Silent (c.bind g) := fun w => by
  rw [Prog.run_bind]
  split
  · rw [hg, hc]
  · exact hc w

theorem seen_bind {α : Type} {c : Cmd α} {g : α → Cmd β} (hg : ∀ x, Silent (g x)) :
    seen ((c.bind g).run w).1 = seen (c.run w).1 := by
  rw [Prog.run_bind]
  split
  · exact hg _ _
  · rfl

/-- No id of a task is the name of a status. -/
theorem ofText?_issued {id : Id} (h : IssuedId id) : (PgEnum.ofText? id : Option TaskStatus) = none := by
  refine List.find?_eq_none.2 fun st _ hst => ?_
  have hhead := h.head
  rw [← of_decide_eq_true hst] at hhead
  revert hhead
  cases st <;> decide

theorem silent_setTaskStatus {id status : String} (h : IssuedId id) : Silent (DB.setTaskStatus id status) := fun w => by
  rw [DB.setTaskStatus, ofText?_issued h, run_query]

/-- What an accepted message adds. -/
def sends (w : World) (o : Id) (env : Envelope) : List (Id × Envelope) :=
  if w.hub.accepts o then [(o, env)] else []

theorem seen_send {env : Envelope} {g : Bool → Cmd β} (hg : ∀ b, Silent (g b)) :
    seen (((hubSend o env).bind g).run w).1 = ((seen w).1, sends w o env ++ (seen w).2) := by
  unfold sends
  cases hacc : w.hub.accepts o with
  | true =>
      obtain ⟨hub, hrun⟩ := run_hubSend_accepts env hacc
      rw [Prog.run_bind_of_eq hrun, hg]
      rfl
  | false =>
      rw [Prog.run_bind]
      split
      · rw [hg, run_hubSend_refuses hacc]
        rfl
      · rw [run_hubSend_refuses hacc]
        rfl

/-! ## The task -/

def newTask (w : World) (o wsp : Id) (act : RoutineAction) : Task where
  id := "tsk" ++ "_" ++ w.ulid w.drawn
  orgId := o
  workspaceId := wsp
  repoId := if act.repoId = "" then none else some act.repoId
  title := act.title
  description := some act.prompt
  status := .queued
  createdAt := w.now

/-- The insertion of the routine's task in a workspace. -/
def create (rls : Bool) (w : World) (o wsp : Id) (act : RoutineAction) : Except DbErr Store :=
  insert (withOrg rls o) .task (newTask w o wsp act) w.db

theorem run_createRealTask (rls : Bool) (w : World) (o wsp : Id) (act : RoutineAction) :
    (DB.createRealTask (withOrg rls o) o wsp act.title act.prompt act.repoId).run w =
      match create rls w o wsp act with
      | .ok s => ({ w with drawn := w.drawn + 1, db := s }, some ((newTask w o wsp act).id, .ok ()))
      | .error e => ({ w with drawn := w.drawn + 1 }, some ((newTask w o wsp act).id, .error e)) := by
  simp only [DB.createRealTask, newID, Prog.bind_def, Prog.run_bind, Prog.run_lift, run_exec, Prog.pure_def, Prog.run_done]
  unfold create newTask
  cases insert (withOrg rls o) .task _ w.db <;> rfl

/-- The prompt that asks for a plan: the memories first. -/
def planPrompt (s : Store) (o : Id) (act : RoutineAction) : String :=
  DB.withMemory (DB.memoriesFor s o act.repoId) act.prompt

/-- What a trigger leaves that puts the task in `wsp` and asks with `prompt`. -/
def leaves (rls : Bool) (w : World) (o wsp : Id) (act : RoutineAction) (prompt : Store → String) :
    List Task × List (Id × Envelope) :=
  match create rls w o wsp act with
  | .ok s =>
      ((s .task).rows,
        sends w o (Server.requestPlan (newTask w o wsp act).id (prompt s) act.refs) ++ (seen w).2)
  | .error _ => seen w

theorem issued_newTask : IssuedId (newTask w o wsp act).id := ⟨_, rfl⟩

theorem seen_createAndPlan :
    seen ((a.createAndPlan o act.title act.prompt act.refs act.repoId).run w).1 =
      leaves a.server.rls w o (w.db.firstWorkspace o) act fun s =>
        API.withRules (planPrompt s o act) (DB.pinnedOf w.db o act.repoId) := by
  unfold API.createAndPlan leaves
  rw [Prog.bind_def, Prog.run_bind_of_eq (DB.run_firstWorkspace o)]
  have hcreate := run_createRealTask a.server.rls w o (w.db.firstWorkspace o) act
  cases hc : create a.server.rls w o (w.db.firstWorkspace o) act with
  | error e =>
      rw [hc] at hcreate
      rw [Prog.bind_def, Prog.run_bind_of_eq hcreate]
      rfl
  | ok s =>
      rw [hc] at hcreate
      obtain ⟨t, hins⟩ := insert_eq hc
      have hpinned : DB.pinnedOf s o act.repoId = DB.pinnedOf w.db o act.repoId :=
        pinnedOf_congr (insert_other hc (by decide)) o act.repoId
      simp only [Prog.bind_def, Prog.run_bind_of_eq hcreate, Prog.run_bind_of_eq (DB.run_promptWithMemory ..),
        Prog.run_bind_of_eq (DB.run_pinnedWorkerForRepo ..), hpinned]
      refine seen_send fun b => ?_
      cases b with
      | true => exact silent_bind (silent_setTaskStatus issued_newTask) fun _ => silent_done _
      | false => exact silent_done _

/-- The workspace that the scheduler puts the task in. -/
def workspaceOf (s : Store) (o wsp : Id) : Id := if wsp = "" then s.firstWorkspace o else wsp

theorem seen_fireRoutine :
    seen ((a.server.fireRoutine o wsp act).run w).1 =
      leaves a.server.rls w o (workspaceOf w.db o wsp) act fun s => planPrompt s o act := by
  unfold Server.fireRoutine leaves
  have hwsp : (if wsp = "" then DB.firstWorkspace o else pure wsp : Cmd Id).run w = (w, some (workspaceOf w.db o wsp)) := by
    unfold workspaceOf
    split
    · exact DB.run_firstWorkspace o
    · rfl
  rw [Prog.bind_def, Prog.run_bind_of_eq hwsp]
  have hcreate := run_createRealTask a.server.rls w o (workspaceOf w.db o wsp) act
  cases hc : create a.server.rls w o (workspaceOf w.db o wsp) act with
  | error e =>
      rw [hc] at hcreate
      rw [Prog.bind_def, Prog.run_bind_of_eq hcreate]
      rfl
  | ok s =>
      rw [hc] at hcreate
      simp only [Prog.bind_def, Prog.run_bind_of_eq hcreate, Prog.run_bind_of_eq (DB.run_promptWithMemory ..)]
      refine seen_send fun b => ?_
      have hnote := silent_of_aside (Aside.createNotification o "routine" "Rotina disparada" act.title "/routines")
      cases b with
      | true => exact silent_bind (silent_setTaskStatus issued_newTask) fun _ => hnote
      | false => exact hnote

/-! ## Agreement -/

/-- From the same world, the request and the scheduler leave the same tasks and messages. -/
def Agrees (a : API) (u : Caller) (r : Request) (w : World) (q : Routine) : Prop :=
  seen ((a.routineAction u r).run w).1 = seen ((a.server.fireRoutine q.orgId q.workspaceId q.action).run w).1

/-- The newest worker pinned to the routine's repository, enabled or not, has rules. -/
def HasRules (s : Store) (q : Routine) : Prop :=
  ∃ cfg, DB.pinnedOf s q.orgId q.action.repoId = some cfg ∧ cfg.rules ≠ ""

/-- The store takes the routine's task in the workspace. -/
def Takes (rls : Bool) (w : World) (q : Routine) (wsp : Id) : Prop := ∃ s, create rls w q.orgId wsp q.action = .ok s

/-- A writer of the routine's org runs it by hand. -/
structure ByMember (u : Caller) (r : Request) (w : World) (q : Routine) : Prop where
  method : r.method = "POST"
  path : API.splitAction (Text.trimPrefix r.path "/v1/routines/") = (q.id, some "run")
  named : q.id ≠ ""
  writes : can u.role "write" = true
  org : u.orgID = q.orgId
  stored : (w.db .routine).get? (q.id, 0) = some q

theorem seen_routineAction (h : ByMember u r w q) :
    seen ((a.routineAction u r).run w).1 =
      leaves a.server.rls w q.orgId (w.db.firstWorkspace q.orgId) q.action fun s =>
        API.withRules (planPrompt s q.orgId q.action) (DB.pinnedOf w.db q.orgId q.action.repoId) := by
  have hget : (API.getRoutineAction q.id).run w = (w, some (.ok (q.orgId, q.workspaceId, q.action))) := by
    rw [API.getRoutineAction, run_query, h.stored]
    rfl
  have hrun : a.routineAction u r = a.runRoutine q.id := by
    unfold API.routineAction
    rw [h.path]
    dsimp only
    rw [if_neg h.named, if_neg (by rw [h.method]; decide), if_neg (by rw [h.method]; decide), guarded, if_pos h.writes,
      if_pos rfl]
  rw [hrun, API.runRoutine, Prog.bind_def, Prog.run_bind_of_eq hget]
  refine (seen_bind fun res => ?_).trans ((seen_bind fun res => ?_).trans seen_createAndPlan)
  · exact silent_bind (silent_of_aside (Aside.createNotification _ _ _ _ _)) fun _ => silent_done _
  · cases res <;> exact silent_done _

theorem withRules_eq_iff {prompt : String} {s : Store} :
    API.withRules prompt (DB.pinnedOf s q.orgId q.action.repoId) = prompt ↔ ¬ HasRules s q := by
  unfold API.withRules HasRules
  cases hpin : DB.pinnedOf s q.orgId q.action.repoId with
  | none => exact iff_of_true rfl fun ⟨cfg, h, _⟩ => nomatch h
  | some cfg =>
      dsimp only
      by_cases hrules : cfg.rules = ""
      · rw [if_pos hrules]
        refine iff_of_true rfl fun ⟨cfg', h, hne⟩ => ?_
        cases h
        exact hne hrules
      · rw [if_neg hrules]
        refine iff_of_false (fun h => ?_) fun h => h ⟨cfg, rfl, hrules⟩
        have hlen := congrArg String.length h
        have hhead : 0 < "\n\nRegras do worker (siga estritamente):\n".length := by decide
        simp only [String.length_append] at hlen
        omega

theorem rows_create {rls : Bool} {s : Store} (h : create rls w o wsp act = .ok s) :
    (s .task).rows = newTask w o wsp act :: (w.db .task).rows := insert_rows h

theorem leaves_of_takes {rls : Bool} {s : Store} {prompt : Store → String} (h : create rls w o wsp act = .ok s) :
    leaves rls w o wsp act prompt =
      (newTask w o wsp act :: (w.db .task).rows,
        sends w o (Server.requestPlan (newTask w o wsp act).id (prompt s) act.refs) ++ (seen w).2) := by
  unfold leaves
  rw [h]
  exact congrArg (Prod.mk · _) (rows_create h)

theorem leaves_of_not_takes {rls : Bool} {prompt : Store → String} (h : ¬ ∃ s, create rls w o wsp act = .ok s) :
    leaves rls w o wsp act prompt = seen w := by
  unfold leaves
  cases hc : create rls w o wsp act with
  | error e => rfl
  | ok s => exact absurd ⟨s, hc⟩ h

theorem cons_ne_seen {t : Task} {l : List (Id × Envelope)} : (t :: (w.db .task).rows, l) ≠ seen w := fun h => by
  have hlen := congrArg (fun x => x.1.length) h
  simp [seen] at hlen

theorem sends_eq_iff {id p p' : String} {refs : List String} :
    sends w o (Server.requestPlan id p refs) = sends w o (Server.requestPlan id p' refs) ↔
      (w.hub.accepts o = true → p = p') := by
  unfold sends
  cases w.hub.accepts o with
  | false => simp
  | true => simp [Server.requestPlan]

/-- The two triggers agree exactly if the store takes the task in neither workspace, or the workspaces are
the same and no rules of the repository's newest worker reach an executor. -/
theorem agrees_iff (a : API) (h : ByMember u r w q) :
    Agrees a u r w q ↔
      (¬ Takes a.server.rls w q (w.db.firstWorkspace q.orgId) ∧
          ¬ Takes a.server.rls w q (workspaceOf w.db q.orgId q.workspaceId)) ∨
        (workspaceOf w.db q.orgId q.workspaceId = w.db.firstWorkspace q.orgId ∧
          ¬ (HasRules w.db q ∧ w.hub.accepts q.orgId = true)) := by
  unfold Agrees
  rw [seen_routineAction h, seen_fireRoutine]
  by_cases hmanual : Takes a.server.rls w q (w.db.firstWorkspace q.orgId)
  · obtain ⟨s, hs⟩ := hmanual
    rw [leaves_of_takes hs, or_iff_right fun hno => hno.1 ⟨s, hs⟩]
    by_cases hwsp : workspaceOf w.db q.orgId q.workspaceId = w.db.firstWorkspace q.orgId
    · rw [hwsp, leaves_of_takes hs, Prod.mk.injEq, and_iff_right rfl, List.append_left_inj, sends_eq_iff, withRules_eq_iff,
        and_iff_right rfl]
      exact ⟨fun hno hyes => hno hyes.2 hyes.1, fun hno hacc hrules => hno ⟨hrules, hacc⟩⟩
    · refine iff_of_false (fun heq => ?_) fun hyes => hwsp hyes.1
      by_cases hsched : Takes a.server.rls w q (workspaceOf w.db q.orgId q.workspaceId)
      · obtain ⟨s', hs'⟩ := hsched
        rw [leaves_of_takes hs', Prod.mk.injEq, List.cons.injEq] at heq
        exact hwsp (congrArg Task.workspaceId heq.1.1).symm
      · rw [leaves_of_not_takes hsched] at heq
        exact cons_ne_seen heq
  · rw [leaves_of_not_takes hmanual]
    by_cases hsched : Takes a.server.rls w q (workspaceOf w.db q.orgId q.workspaceId)
    · obtain ⟨s', hs'⟩ := hsched
      rw [leaves_of_takes hs']
      refine iff_of_false (fun heq => cons_ne_seen heq.symm) ?_
      rintro (hno | ⟨hwsp, -⟩)
      · exact hno.2 ⟨s', hs'⟩
      · exact hmanual (hwsp ▸ ⟨s', hs'⟩)
    · rw [leaves_of_not_takes hsched]
      exact iff_of_true rfl (.inl ⟨hmanual, hsched⟩)

end Manual

/-! ## A worker with rules -/

namespace Sample

/-- A routine of the first workspace, on a repository whose worker has rules, and a connected executor. -/
def ruled : World :=
  Runs.exec (step {})
    { db := Store.ofRows (plans ++ rows ++
        [⟨.pinnedWorker, { id := "pwk_a", orgId := "org_a", workspaceId := "wsp_a", repoId := some "repo_a", focus := none,
                           settings := { rules := some "no force push" } }⟩]) }
    [.connect "s1"]

def deps : Routine where
  id := "rtn_a"
  orgId := "org_a"
  workspaceId := "wsp_a"
  name := "deps"
  triggerType := .schedule
  enabled := true
  intervalSec := 3600
  nextRunAt := some 0
  action := { title := "deps", prompt := "update", repoId := "repo_a", refs := [] }

def runDeps : Request := { method := "POST", path := "/v1/routines/rtn_a/run" }

end Sample

namespace Manual

theorem byMember_deps : ByMember ⟨"usr_a", "org_a", "member"⟩ Sample.runDeps Sample.ruled Sample.deps where
  method := rfl
  path := by decide +kernel
  named := by decide
  writes := by decide
  org := rfl
  stored := by decide +kernel

theorem agrees_iff_sample :
    Agrees {} ⟨"usr_a", "org_a", "member"⟩ Sample.runDeps Sample.ruled Sample.deps ↔
      (¬ Takes true Sample.ruled Sample.deps (Sample.ruled.db.firstWorkspace "org_a") ∧
          ¬ Takes true Sample.ruled Sample.deps (workspaceOf Sample.ruled.db "org_a" "wsp_a")) ∨
        (workspaceOf Sample.ruled.db "org_a" "wsp_a" = Sample.ruled.db.firstWorkspace "org_a" ∧
          ¬ (HasRules Sample.ruled.db Sample.deps ∧ Sample.ruled.hub.accepts "org_a" = true)) :=
  agrees_iff {} byMember_deps

/-- Only the request by hand asks for a plan with the worker's rules. -/
theorem agrees_rules : ¬ ∀ (a : API) (u : Caller) (r : Request) (w : World) (q : Routine),
    ByMember u r w q → Agrees a u r w q := by
  intro h
  have hsame := h {} ⟨"usr_a", "org_a", "member"⟩ Sample.runDeps Sample.ruled Sample.deps byMember_deps
  have hdiffer : ¬ Agrees {} ⟨"usr_a", "org_a", "member"⟩ Sample.runDeps Sample.ruled Sample.deps := by
    unfold Agrees
    decide +kernel
  exact hdiffer hsame

end Manual
end Apifor
