import Apifor.Lib.Table

/-!
# The schema

The tables of `contracts/sql/001_schema.sql` with the columns the program reads or writes, their
primary keys, unique constraints and foreign keys, and the ownership predicate behind the row-level
policies of `002_rls.sql`. A table lists its rows newest first: `created_at` is set once, by its
default, so the order of insertion is the order of `created_at`.
-/

namespace Apifor

abbrev Id := String

/-- Nanoseconds since the epoch. -/
abbrev Time := Int

/-! ## Enumerations -/

/-- A Postgres enum type: its values with their labels. -/
class PgEnum (α : Type) where
  values : List α
  text : α → String

/-- The cast `$1::enum`; `none` is the error `invalid input value for enum`. -/
def PgEnum.ofText? {α : Type} [PgEnum α] (s : String) : Option α :=
  (PgEnum.values : List α).find? fun a => decide (PgEnum.text a = s)

inductive UserStatus | active | suspended
  deriving DecidableEq, Repr

inductive OrgPlan | free | pro | team | enterprise
  deriving DecidableEq, Repr

inductive PermissionTier | owner | admin | member | billing | viewer
  deriving DecidableEq, Repr

inductive MembershipStatus | active | invited | removed
  deriving DecidableEq, Repr

inductive SubscriptionStatus | active | past_due | grace | canceled
  deriving DecidableEq, Repr

inductive UsageEventType | worker_started | worker_stopped | lease_issued | lease_expired | task_dispatched
  deriving DecidableEq, Repr

inductive WorkerStatus | idle | running | paused | stopped
  deriving DecidableEq, Repr

inductive LeaseEndReason | expired | stopped | killed | plan_block | hours_cap
  deriving DecidableEq, Repr

inductive AgentModel | claude_opus | claude_sonnet | claude_haiku
  deriving DecidableEq, Repr

inductive TaskStatus | queued | assigned | planning | running | blocked | in_review | merged | failed | canceled
  deriving DecidableEq, Repr

inductive StepType | plan | exec | test | review | merge | question
  deriving DecidableEq, Repr

inductive StepStatus | pending | running | done | failed
  deriving DecidableEq, Repr

inductive PRStatus | open | ci_running | approved | changes_requested | merged | closed
  deriving DecidableEq, Repr

inductive CIStatus | none | running | passed | failed
  deriving DecidableEq, Repr

inductive CIRunStatus | queued | running | passed | failed
  deriving DecidableEq, Repr

inductive ReviewStatus | none | approved | changes
  deriving DecidableEq, Repr

inductive RoutineTrigger | schedule | event | manual
  deriving DecidableEq, Repr

inductive ConnectionType | code | ci | observability | ai_engine | tasks | docs
  deriving DecidableEq, Repr

inductive ConnectionStatus | ok | needs_setup | error
  deriving DecidableEq, Repr

inductive MemoryScope | global | repo
  deriving DecidableEq, Repr

inductive MemorySource | intervention | manual
  deriving DecidableEq, Repr

inductive KBCategory | doc | guide | spec | runbook | reference
  deriving DecidableEq, Repr

inductive AuditActor | user | agent | system
  deriving DecidableEq, Repr

instance : PgEnum UserStatus where
  values := [.active, .suspended]
  text | .active => "active" | .suspended => "suspended"

instance : PgEnum OrgPlan where
  values := [.free, .pro, .team, .enterprise]
  text | .free => "free" | .pro => "pro" | .team => "team" | .enterprise => "enterprise"

instance : PgEnum PermissionTier where
  values := [.owner, .admin, .member, .billing, .viewer]
  text | .owner => "owner" | .admin => "admin" | .member => "member" | .billing => "billing" | .viewer => "viewer"

instance : PgEnum MembershipStatus where
  values := [.active, .invited, .removed]
  text | .active => "active" | .invited => "invited" | .removed => "removed"

instance : PgEnum SubscriptionStatus where
  values := [.active, .past_due, .grace, .canceled]
  text | .active => "active" | .past_due => "past_due" | .grace => "grace" | .canceled => "canceled"

instance : PgEnum WorkerStatus where
  values := [.idle, .running, .paused, .stopped]
  text | .idle => "idle" | .running => "running" | .paused => "paused" | .stopped => "stopped"

instance : PgEnum TaskStatus where
  values := [.queued, .assigned, .planning, .running, .blocked, .in_review, .merged, .failed, .canceled]
  text
    | .queued => "queued" | .assigned => "assigned" | .planning => "planning" | .running => "running"
    | .blocked => "blocked" | .in_review => "in_review" | .merged => "merged" | .failed => "failed"
    | .canceled => "canceled"

instance : PgEnum StepType where
  values := [.plan, .exec, .test, .review, .merge, .question]
  text
    | .plan => "plan" | .exec => "exec" | .test => "test" | .review => "review" | .merge => "merge"
    | .question => "question"

instance : PgEnum StepStatus where
  values := [.pending, .running, .done, .failed]
  text | .pending => "pending" | .running => "running" | .done => "done" | .failed => "failed"

instance : PgEnum PRStatus where
  values := [.open, .ci_running, .approved, .changes_requested, .merged, .closed]
  text
    | .open => "open" | .ci_running => "ci_running" | .approved => "approved"
    | .changes_requested => "changes_requested" | .merged => "merged" | .closed => "closed"

instance : PgEnum CIStatus where
  values := [.none, .running, .passed, .failed]
  text | .none => "none" | .running => "running" | .passed => "passed" | .failed => "failed"

instance : PgEnum CIRunStatus where
  values := [.queued, .running, .passed, .failed]
  text | .queued => "queued" | .running => "running" | .passed => "passed" | .failed => "failed"

instance : PgEnum ReviewStatus where
  values := [.none, .approved, .changes]
  text | .none => "none" | .approved => "approved" | .changes => "changes"

instance : PgEnum RoutineTrigger where
  values := [.schedule, .event, .manual]
  text | .schedule => "schedule" | .event => "event" | .manual => "manual"

instance : PgEnum ConnectionType where
  values := [.code, .ci, .observability, .ai_engine, .tasks, .docs]
  text
    | .code => "code" | .ci => "ci" | .observability => "observability" | .ai_engine => "ai_engine"
    | .tasks => "tasks" | .docs => "docs"

instance : PgEnum ConnectionStatus where
  values := [.ok, .needs_setup, .error]
  text | .ok => "ok" | .needs_setup => "needs_setup" | .error => "error"

instance : PgEnum MemoryScope where
  values := [.global, .repo]
  text | .global => "global" | .repo => "repo"

instance : PgEnum MemorySource where
  values := [.intervention, .manual]
  text | .intervention => "intervention" | .manual => "manual"

instance : PgEnum KBCategory where
  values := [.doc, .guide, .spec, .runbook, .reference]
  text
    | .doc => "doc" | .guide => "guide" | .spec => "spec" | .runbook => "runbook"
    | .reference => "reference"

instance : PgEnum AuditActor where
  values := [.user, .agent, .system]
  text | .user => "user" | .agent => "agent" | .system => "system"

/-! ## Rows -/

structure AppUser where
  id : Id
  email : String
  name : Option String := none
  passwordHash : Option String := none
  status : UserStatus := .active
  createdAt : Time := 0
  deriving DecidableEq

/-- `suspended` is a key of `org.settings`; `none` is an absent key. -/
structure Org where
  id : Id
  name : String
  ownerUserId : Id
  plan : OrgPlan := .free
  suspended : Option Bool := none
  createdAt : Time := 0
  deriving DecidableEq

structure Workspace where
  id : Id
  orgId : Id
  name : String
  initial : Option String := none
  deriving DecidableEq

structure Membership where
  id : Id
  orgId : Id
  userId : Id
  permissionTier : PermissionTier := .member
  status : MembershipStatus := .active
  deriving DecidableEq

/-- `none` is "unlimited". -/
structure PlanCatalog where
  id : OrgPlan
  maxWorkers : Option Int
  leaseTtlMin : Option Int
  weeklyWorkerHours : Option Int
  maxMembers : Option Int
  priceCents : Option Int := none
  currency : String := "usd"
  deriving DecidableEq

structure Subscription where
  id : Id
  orgId : Id
  plan : OrgPlan
  stripeCustomerId : Option String := none
  stripeSubscriptionId : Option String := none
  status : SubscriptionStatus := .active
  graceUntil : Option Time := none
  deriving DecidableEq

structure UsageEvent where
  id : Id
  orgId : Id
  workerInstanceId : Option Id
  leaseId : Option Id
  type : UsageEventType
  deriving DecidableEq

structure WorkerHoursCounter where
  orgId : Id
  weekStart : Int
  secondsUsed : Int := 0
  deriving DecidableEq

structure Invoice where
  id : Id
  orgId : Id
  stripeInvoiceId : Option String
  amountCents : Option Int
  currency : String := "usd"
  status : Option String
  pdfUrl : Option String
  createdAt : Time
  deriving DecidableEq

/-- `orgId = none` is a global seed. -/
structure AgentProfile where
  id : Id
  orgId : Option Id
  key : String
  label : String
  model : AgentModel := .claude_sonnet
  deriving DecidableEq

/-- The keys of `pool_config.behavior`; `none` is an absent key. -/
structure PoolBehavior where
  paused : Option Bool := none
  autoMerge : Option Bool := none
  isolamento : Option Bool := none
  mode : Option String := none
  deriving DecidableEq

structure PoolConfig where
  id : Id
  workspaceId : Id
  parallelWorkers : Int := 1
  timeoutMin : Option Int := none
  retries : Int := 2
  behavior : PoolBehavior := {}
  deriving DecidableEq

structure Repository where
  id : Id
  orgId : Id
  workspaceId : Id
  name : String
  provider : String := "github"
  defaultBranch : String := "main"
  connectionId : Option Id := none
  cloneUrl : Option String := none
  localDir : Option String := none
  deriving DecidableEq

/-- The keys of `pinned_worker.settings`; `none` is an absent key. -/
structure PinnedSettings where
  model : Option String := none
  rules : Option String := none
  enabled : Option Bool := none
  capOpenPR : Option Bool := none
  capRunTests : Option Bool := none
  capAutoMerge : Option Bool := none
  deriving DecidableEq

structure PinnedWorker where
  id : Id
  orgId : Id
  workspaceId : Id
  repoId : Option Id
  focus : Option String
  concurrency : Int := 1
  settings : PinnedSettings := {}
  deriving DecidableEq

/-- `source` and `host` keep the only values the program writes, `pool` and `local`. -/
structure WorkerInstance where
  id : Id
  orgId : Id
  workspaceId : Id
  status : WorkerStatus := .idle
  currentTaskId : Option Id := none
  currentStep : Option String := none
  leaseId : Option Id := none
  lastHeartbeatAt : Option Time := none
  deriving DecidableEq

/-- `endedAt = none` is an active lease, `expiresAt = none` a lease without TTL. -/
structure Lease where
  id : Id
  orgId : Id
  workerInstanceId : Id
  expiresAt : Option Time := none
  autoRenew : Bool := false
  endedAt : Option Time := none
  endReason : Option LeaseEndReason := none
  deriving DecidableEq

/-- What a routine fires; it mirrors `POST /v1/tasks`. -/
structure RoutineAction where
  title : String := ""
  prompt : String := ""
  refs : List String := []
  repoId : String := ""
  deriving DecidableEq

structure Routine where
  id : Id
  orgId : Id
  workspaceId : Id
  name : String
  triggerType : RoutineTrigger
  intervalSec : Int
  action : RoutineAction
  enabled : Bool := true
  lastRunAt : Option Time := none
  nextRunAt : Option Time := none
  deriving DecidableEq

structure Task where
  id : Id
  orgId : Id
  workspaceId : Id
  repoId : Option Id := none
  title : String
  description : Option String := none
  status : TaskStatus := .queued
  assignedWorkerId : Option Id := none
  blockedReason : Option String := none
  tokensUsed : Int := 0
  createdAt : Time
  deriving DecidableEq

structure Step where
  id : Id
  taskId : Id
  idx : Int
  type : StepType
  label : Option String
  status : StepStatus := .pending
  output : Option String := none
  endedAt : Option Time := none
  deriving DecidableEq

structure PullRequest where
  id : Id
  orgId : Id
  taskId : Option Id
  repoId : Option Id
  url : Option String
  branch : Option String
  status : PRStatus := .open
  ciStatus : CIStatus := .none
  aiReviewStatus : ReviewStatus := .none
  humanReviewStatus : ReviewStatus := .none
  mergedAt : Option Time := none
  createdAt : Time
  deriving DecidableEq

structure CIRun where
  id : Id
  prId : Id
  provider : Option String
  status : CIRunStatus := .queued
  startedAt : Option Time
  finishedAt : Option Time
  summary : String
  deriving DecidableEq

structure QAReport where
  id : Id
  orgId : Id
  taskId : Option Id
  prId : Option Id
  repoId : Option Id := none
  status : Option String
  testsTotal : Option Int
  testsPassed : Option Int
  coverage : Option Int := none
  durationMs : Option Int := none
  summary : Option String
  createdAt : Time
  deriving DecidableEq

structure SecretRef where
  id : Id
  orgId : Id
  name : String
  type : Option String
  fingerprint : Option String
  deriving DecidableEq

/-- The keys of `connection.settings`; `none` is an absent key. -/
structure ConnectionSettings where
  kind : Option String := none
  token : Option String := none
  username : Option String := none
  deriving DecidableEq

structure Connection where
  id : Id
  orgId : Id
  workspaceId : Option Id := none
  type : ConnectionType
  provider : String
  label : Option String
  status : ConnectionStatus := .needs_setup
  settings : ConnectionSettings := {}
  createdAt : Time
  deriving DecidableEq

structure Memory where
  id : Id
  orgId : Id
  workspaceId : Id
  scope : MemoryScope := .global
  repoId : Option Id
  instruction : String
  source : MemorySource := .manual
  deriving DecidableEq

structure KBDocument where
  id : Id
  orgId : Id
  workspaceId : Id
  name : String
  category : KBCategory := .doc
  fileRef : Option String
  indexed : Bool := false
  deriving DecidableEq

structure AuditLog where
  id : Id
  orgId : Id
  actorType : AuditActor
  actorId : Option String
  action : String
  targetType : Option String
  targetId : Option String
  occurredAt : Time
  deriving DecidableEq

structure Notification where
  id : Id
  orgId : Id
  userId : Id
  type : Option String
  title : Option String
  body : Option String
  link : Option String
  read : Bool := false
  createdAt : Time
  deriving DecidableEq

structure Device where
  id : Id
  orgId : Id
  userId : Id
  label : Option String
  certSerial : Option String
  revokedAt : Option Time := none
  lastSeenAt : Option Time := none
  deriving DecidableEq

end Apifor
