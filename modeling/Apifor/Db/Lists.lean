import Apifor.Db.Org

/-!
# What the REST side reads

The list functions of `db.go`. Most run in the scope of the caller's org, without a condition on
`org_id`, and see whatever rows the scope shows them; the others run on the privileged pool and
filter by hand. A cell that holds a formatted timestamp is kept as the format and the instant.
-/

namespace Apifor

/-- A value of a response. -/
inductive Val
  | null
  | bool (b : Bool)
  | int (n : Int)
  | str (s : String)
  | time (fmt : String) (t : Time)
  | err (e : DbErr)
  | arr (xs : List Val)
  | obj (fields : List (String × Val))

/-- `COALESCE(x,'')`. -/
def Val.text (s : Option String) : Val := .str (s.getD "")

def Val.enum {α : Type} [PgEnum α] (a : α) : Val := .str (PgEnum.text a)

/-- `COALESCE(to_char(x, fmt),'')`. -/
def Val.timeOr (fmt : String) : Option Time → Val
  | some t => .time fmt t
  | none => .str ""

namespace DB

/-- `$1='' OR workspace_id=$1`. -/
def inWsp (wsp : String) (id : Id) : Bool := decide (wsp = "" ∨ id = wsp)

/-- `$1='' OR task_id IN (SELECT id FROM task WHERE workspace_id=$1)`. -/
def taskInWsp (v : View) (wsp : String) (taskID : Option Id) : Bool :=
  decide (wsp = "") || ((v .task).any fun t => decide (taskID = some t.id ∧ t.workspaceId = wsp))

def isoFmt : String := "YYYY-MM-DD\"T\"HH24:MI:SS\"Z\""

def secFmt : String := "YYYY-MM-DD HH24:MI:SS"

def listAudit (limit : Nat) (v : View) : List Val :=
  ((v .auditLog).take (if limit = 0 ∨ limit > 1000 then 200 else limit)).map fun a =>
    .obj [("when", .time secFmt a.occurredAt), ("actor_type", .enum a.actorType), ("actor_id", .text a.actorId),
      ("action", .str a.action), ("target_type", .text a.targetType), ("target_id", .text a.targetId)]

def listPinnedWorkers (wsp : String) (v : View) : List Val :=
  ((v .pinnedWorker).filter fun p => inWsp wsp p.workspaceId).map fun p =>
    .obj [("id", .str p.id), ("focus", .text p.focus), ("repo_id", .text p.repoId),
      ("repo_name", .text ((v .repository).find? (fun r => decide (p.repoId = some r.id)) |>.map (·.name))),
      ("concurrency", .int p.concurrency), ("model", .str (p.settings.model.getD "claude_opus")),
      ("rules", .text p.settings.rules), ("enabled", .bool (p.settings.enabled.getD true)),
      ("cap_open_pr", .bool (p.settings.capOpenPR.getD true)),
      ("cap_run_tests", .bool (p.settings.capRunTests.getD true)),
      ("cap_auto_merge", .bool (p.settings.capAutoMerge.getD false))]

def listConnections (v : View) : List Val :=
  (v .connection).map fun c =>
    .obj [("id", .str c.id), ("type", .enum c.type), ("provider", .str c.provider), ("label", .text c.label),
      ("status", .enum c.status), ("created", .time "YYYY-MM-DD HH24:MI" c.createdAt)]

def listNotifications (v : View) : List Val :=
  ((v .notification).take 50).map fun n =>
    .obj [("id", .str n.id), ("type", .text n.type), ("title", .text n.title), ("body", .text n.body),
      ("link", .text n.link), ("read", .bool n.read), ("date", .time secFmt n.createdAt)]

def listMemories (wsp : String) (v : View) : List Val :=
  ((v .memory).filter fun m => inWsp wsp m.workspaceId).map fun m =>
    .obj [("id", .str m.id), ("scope", .enum m.scope), ("repo_id", .text m.repoId),
      ("instruction", .str m.instruction), ("source", .enum m.source)]

def listKBDocs (wsp : String) (v : View) : List Val :=
  ((v .kbDocument).filter fun d => inWsp wsp d.workspaceId).map fun d =>
    .obj [("id", .str d.id), ("name", .str d.name), ("category", .enum d.category), ("file_ref", .text d.fileRef),
      ("indexed", .bool d.indexed)]

/-- An interval that does not fit an `int` fails the query. -/
def listRoutines (wsp : String) (v : View) : Except DbErr (List Val) :=
  let rows := (v .routine).reverse.filter fun r => inWsp wsp r.workspaceId
  if rows.all fun r => int4 r.intervalSec then
    .ok (rows.map fun r =>
      .obj [("id", .str r.id), ("name", .str r.name), ("trigger", .enum r.triggerType),
        ("interval_sec", .int r.intervalSec), ("enabled", .bool r.enabled),
        ("last_run", .timeOr isoFmt r.lastRunAt), ("next_run", .timeOr isoFmt r.nextRunAt),
        ("action_title", .str r.action.title)])
  else .error .outOfRange

/-- `JOIN app_user`, in the order of `created_at`. -/
def listMembers (v : View) : List Val :=
  (v .membership).reverse.filterMap fun m =>
    ((v .appUser).find? fun u => decide (u.id = m.userId)).map fun u =>
      .obj [("id", .str m.id), ("email", .str u.email), ("name", .text u.name), ("role", .enum m.permissionTier),
        ("status", .enum m.status)]

def listWorkspaces (v : View) : List Val :=
  (v .workspace).reverse.map fun w => .obj [("id", .str w.id), ("name", .str w.name), ("initial", .text w.initial)]

def listRepos (wsp : String) (v : View) : List Val :=
  ((v .repository).filter fun r => inWsp wsp r.workspaceId).map fun r =>
    .obj [("id", .str r.id), ("name", .str r.name), ("default_branch", .str r.defaultBranch),
      ("clone_url", .text r.cloneUrl)]

/-- `ci_run JOIN pull_request`. -/
def listCI (wsp : String) (v : View) : List Val :=
  ((v .ciRun).filterMap fun c =>
    ((v .pullRequest).find? fun p => decide (p.id = c.prId)).bind fun p =>
      if taskInWsp v wsp p.taskId then
        some (.obj [("id", .str c.id), ("provider", .text c.provider), ("status", .enum c.status),
          ("task_id", .text p.taskId), ("branch", .text p.branch), ("repo_id", .text p.repoId),
          ("finished_at", .timeOr isoFmt c.finishedAt)])
      else none).take 50

def listQA (wsp : String) (v : View) : List Val :=
  (((v .qaReport).filter fun q => taskInWsp v wsp q.taskId).take 50).map fun q =>
    .obj [("id", .str q.id), ("task_id", .text q.taskId), ("status", .text q.status),
      ("tests_total", .int (q.testsTotal.getD 0)), ("tests_passed", .int (q.testsPassed.getD 0)),
      ("coverage", .int (q.coverage.getD 0)), ("duration_ms", .int (q.durationMs.getD 0)),
      ("repo_id", .text q.repoId),
      ("branch", .text ((v .pullRequest).find? (fun p => decide (q.prId = some p.id)) |>.bind (·.branch))),
      ("created_at", .time isoFmt q.createdAt)]

def listInterventions (wsp : String) (v : View) : List Val :=
  ((v .task).filter fun t =>
    decide (t.status = .blocked ∧ t.blockedReason = some "human_review") && inWsp wsp t.workspaceId).flatMap fun t =>
      let prs := (v .pullRequest).filter fun p => decide (p.taskId = some t.id)
      let cells := fun (p : Option PullRequest) =>
        Val.obj [("task_id", .str t.id), ("title", .str t.title), ("branch", .text (p.bind (·.branch))),
          ("ci_status", .str ((p.map fun p => PgEnum.text p.ciStatus).getD "")),
          ("ai_review_status", .str ((p.map fun p => PgEnum.text p.aiReviewStatus).getD "")),
          ("created_at", .time isoFmt t.createdAt)]
      if prs.isEmpty then [cells none] else prs.map fun p => cells (some p)

def listPRs (wsp : String) (v : View) : List Val :=
  ((v .pullRequest).filter fun p => taskInWsp v wsp p.taskId).map fun p =>
    .obj [("id", .str p.id), ("task_id", .text p.taskId), ("repo_id", .text p.repoId), ("branch", .text p.branch),
      ("url", .text p.url), ("status", .enum p.status), ("ci_status", .enum p.ciStatus),
      ("ai_review_status", .enum p.aiReviewStatus), ("human_review_status", .enum p.humanReviewStatus),
      ("created_at", .time isoFmt p.createdAt)]

/-- `ORDER BY COALESCE(ended_at,started_at) DESC NULLS LAST`: a stable insertion by end. -/
def insertByEnd (p : Step) : List Step → List Step
  | [] => [p]
  | q :: qs =>
      match p.endedAt, q.endedAt with
      | some a, some b => if a ≥ b then p :: q :: qs else q :: insertByEnd p qs
      | some _, none => p :: q :: qs
      | none, _ => q :: insertByEnd p qs

def listLogs (wsp : String) (now : Time) (v : View) : List Val :=
  ((((v .step).filter fun p => decide (p.status ≠ .pending) && taskInWsp v wsp (some p.taskId)).foldr
    insertByEnd []).take 100).map fun p =>
      .obj [("when", .time secFmt (p.endedAt.getD now)), ("task_id", .str p.taskId), ("type", .enum p.type),
        ("status", .enum p.status), ("log", .text p.output)]

def listSecrets (v : View) : List Val :=
  (v .secretRef).map fun r =>
    .obj [("id", .str r.id), ("name", .str r.name), ("type", .text r.type), ("fingerprint", .text r.fingerprint),
      ("location", .str "local")]

def listWorkers (wsp : String) (v : View) : List Val :=
  ((v .workerInstance).filter fun w => inWsp wsp w.workspaceId).map fun w =>
    .obj [("id", .str w.id), ("source", .str "pool"), ("host", .str "local"), ("status", .enum w.status),
      ("current_task_id", .text w.currentTaskId), ("current_step", .text w.currentStep)]

def listTasks (wsp : String) (v : View) : List Val :=
  (((v .task).filter fun t => inWsp wsp t.workspaceId).take 50).map fun t =>
    .obj [("id", .str t.id), ("title", .str t.title), ("status", .enum t.status),
      ("assigned_worker_id", .text t.assignedWorkerId), ("repo_id", .text t.repoId)]

/-! ## On the privileged pool -/

/-- `ORDER BY idx`. -/
def insertByIdx (p : Step) : List Step → List Step
  | [] => [p]
  | q :: qs => if p.idx ≤ q.idx then p :: q :: qs else q :: insertByIdx p qs

/-- `ListSteps` filters by the task id only. -/
def listSteps (s : Store) (taskID : Id) : List Val :=
  (((s .step).rows.filter fun p => decide (p.taskId = taskID)).foldr insertByIdx []).map fun p =>
    .obj [("idx", .int p.idx), ("type", .enum p.type), ("label", .text p.label), ("status", .enum p.status)]

def listDevices (s : Store) (org : Id) : List Val :=
  ((s .device).rows.filter fun d => decide (d.orgId = org)).map fun d =>
    .obj [("id", .str d.id), ("label", .text d.label), ("last_seen", .timeOr secFmt d.lastSeenAt),
      ("status", .str (if d.revokedAt.isNone then "active" else "revoked"))]

def listInvoices (s : Store) (org : Id) : List Val :=
  ((s .invoice).rows.filter fun i => decide (i.orgId = org)).map fun i =>
    .obj [("stripe_invoice_id", .text i.stripeInvoiceId), ("amount_cents", .int (i.amountCents.getD 0)),
      ("currency", .str i.currency), ("status", .text i.status), ("date", .time "YYYY-MM-DD" i.createdAt),
      ("pdf_url", .text i.pdfUrl)]

def unreadCount (s : Store) (org : Id) : Int :=
  ((s .notification).rows.filter fun n => decide (n.orgId = org) && !n.read).length

def subscriptionOf (s : Store) (org : Id) : Option Subscription :=
  (s .subscription).rows.find? fun b => decide (b.orgId = org)

def isActiveTask (t : Task) : Bool :=
  match t.status with
  | .queued | .planning | .running | .blocked | .in_review | .assigned => true
  | _ => false

def telemetryOf (s : Store) (now : Time) (org : Id) : Val :=
  let ts := (s .task).rows.filter fun t => decide (t.orgId = org)
  .obj [("tasks_total", .int ts.length),
    ("tasks_merged", .int (ts.filter fun t => decide (t.status = .merged)).length),
    ("tasks_failed", .int (ts.filter fun t => decide (t.status = .failed)).length),
    ("tasks_active", .int (ts.filter isActiveTask).length), ("tokens_used", .int (ts.map (·.tokensUsed)).sum),
    ("pull_requests", .int ((s .pullRequest).rows.filter fun p => decide (p.orgId = org)).length),
    ("week_worker_seconds", .int (weekSeconds s now org))]

end DB

end Apifor
