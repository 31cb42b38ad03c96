import Apifor.Db.Pipeline

/-!
# Devices, leases and the plan of an org

The functions of `db.go` behind the lease rules: the plan's limits, the weekly counter, granting,
renewing and ending a lease, the ledger, subscriptions and dunning, devices and their revocation.
-/

namespace Apifor

/-- Nanoseconds in a second. -/
def second : Int := 1000000000

/-- `date_trunc('week', now())` as a number of weeks; the epoch was a Thursday. -/
def weekStart (now : Time) : Int := (now / second + 3 * 86400) / 604800

namespace DB

/-! ## Devices -/

/-- `none` is the `nil` of an unknown or revoked certificate. -/
def findDevice (s : Store) (serial : String) : Option Device :=
  (s .device).rows.find? fun d => decide (d.certSerial = some serial ∧ d.revokedAt = none)

def findDeviceBySerial (serial : String) : Cmd (Except DbErr (Option Device)) :=
  read "FindDeviceBySerial" fun s => findDevice s serial

def touchDevice (id : Id) : Cmd Unit := do
  let _ ← exec "TouchDevice" fun now s =>
    (update .all .device (fun d => decide (d.id = id)) (fun d => { d with lastSeenAt := some now }) s).map
      fun r => (r.1, ())

def createDeviceCert (orgID userID deviceID serial : String) : Cmd (Except DbErr Unit) :=
  insertRow "CreateDeviceCert" .device fun now =>
    { id := deviceID, orgId := orgID, userId := userID, label := some "executor", certSerial := some serial,
      lastSeenAt := some now }

def revokedDevice (s : Store) (orgID : Id) : Bool :=
  (s .device).rows.any fun d => decide (d.orgId = orgID) && d.revokedAt.isSome

/-- The caller drops the error and keeps the zero value. -/
def orgHasRevokedDevice (orgID : Id) : Cmd Bool := do
  match ← read "OrgHasRevokedDevice" fun s => revokedDevice s orgID with
  | .ok v => pure v
  | .error _ => pure false

/-! ## The plan -/

structure PlanLimits where
  plan : OrgPlan
  maxWorkers : Option Int
  leaseTTLMin : Option Int
  weeklyHours : Option Int
  deriving DecidableEq

def planOf (s : Store) (orgID : Id) : Option OrgPlan := ((s .org).get? (orgID, 0)).map (·.plan)

/-- `org JOIN plan_catalog`; `none` is the `nil` of an unknown org. -/
def planLimits (s : Store) (orgID : Id) : Option PlanLimits :=
  (planOf s orgID).bind fun p =>
    ((s .planCatalog).get? (PgEnum.text p, 0)).map fun c =>
      { plan := c.id, maxWorkers := c.maxWorkers, leaseTTLMin := c.leaseTtlMin, weeklyHours := c.weeklyWorkerHours }

def getPlanLimits (orgID : Id) : Cmd (Except DbErr (Option PlanLimits)) :=
  read "GetPlanLimits" fun s => planLimits s orgID

theorem key_plan (plan : OrgPlan) (o : Org) : key .org { o with plan := plan } = key .org o := rfl

/-- `UPDATE org SET plan=… WHERE id=…`. -/
def setOrgPlan (orgID : Id) (plan : OrgPlan) (s : Store) : Except DbErr Store :=
  (update .all .org (fun o => decide (o.id = orgID)) (fun o => { o with plan := plan }) s).map (·.1)

/-! ## Subscriptions -/

def pastDueExpired : Cmd (Except DbErr (List Id)) :=
  query "PastDueExpired" fun now s =>
    .ok (((s .subscription).rows.reverse.filter fun b =>
      decide (b.status = .past_due) && (b.graceUntil.map fun g => decide (g < now)).getD false).map (·.orgId))

def downgradeToFree (orgID : Id) : Cmd (Except DbErr Unit) := do
  match ← exec "DowngradeToFree (org)" fun _ s => (setOrgPlan orgID .free s).map fun s => (s, ()) with
  | .error e => pure (.error e)
  | .ok () =>
      exec "DowngradeToFree (subscription)" fun _ s =>
        (update .all .subscription (fun b => decide (b.orgId = orgID))
          (fun b => { b with plan := .free, status := .canceled, graceUntil := none }) s).map fun r => (r.1, ())

/-- `COALESCE(NULLIF($1,''), old)`. -/
def orKeep (new : String) (old : Option String) : Option String := if new = "" then old else some new

def nullIfEmpty (s : String) : Option String := if s = "" then none else some s

/-- The plan arrives as text and is cast by the first statement. -/
def upsertSubscription (orgID plan customerID subID : String) : Cmd (Except DbErr Unit) := do
  match ← exec "UpsertSubscription (org)" fun _ s =>
      match (PgEnum.ofText? plan : Option OrgPlan) with
      | none => .error .cast
      | some p => (setOrgPlan orgID p s).map fun s => (s, p) with
  | .error e => pure (.error e)
  | .ok p => do
      match ← exec "UpsertSubscription (subscription)" fun _ s =>
          update .all .subscription (fun b => decide (b.orgId = orgID))
            (fun b => { b with
              plan := p, status := .active, stripeCustomerId := orKeep customerID b.stripeCustomerId,
              stripeSubscriptionId := orKeep subID b.stripeSubscriptionId, graceUntil := none }) s with
      | .error e => pure (.error e)
      | .ok 0 => do
          let id ← newID "sub"
          insertRow "UpsertSubscription (insert)" .subscription fun _ =>
            { id := id, orgId := orgID, plan := p, status := .active, stripeCustomerId := nullIfEmpty customerID,
              stripeSubscriptionId := nullIfEmpty subID }
      | .ok _ => pure (.ok ())

def orgByStripeCustomer (customerID : String) : Cmd (Except DbErr Id) :=
  if customerID = "" then pure (.ok "")
  else read "OrgByStripeCustomer" fun s =>
    (((s .subscription).rows.find? fun b => decide (b.stripeCustomerId = some customerID)).map (·.orgId)).getD ""

def setSubscriptionPastDue (orgID : Id) (graceUntil : Time) : Cmd (Except DbErr Unit) :=
  exec "SetSubscriptionPastDue" fun _ s =>
    (update .all .subscription (fun b => decide (b.orgId = orgID))
      (fun b => { b with status := .past_due, graceUntil := some graceUntil }) s).map fun r => (r.1, ())

def setSubscriptionActive (orgID : Id) : Cmd (Except DbErr Unit) :=
  exec "SetSubscriptionActive" fun _ s =>
    (update .all .subscription (fun b => decide (b.orgId = orgID))
      (fun b => { b with status := .active, graceUntil := none }) s).map fun r => (r.1, ())

def adminSetOrgPlan (orgID plan : String) : Cmd (Except DbErr Unit) :=
  exec "AdminSetOrgPlan" fun _ s =>
    match (PgEnum.ofText? plan : Option OrgPlan) with
    | none => .error .cast
    | some p => (setOrgPlan orgID p s).map fun s => (s, ())

def createInvoice (orgID stripeInvoiceID : String) (amountCents : Int) (currency status pdfURL : String) :
    Cmd (Except DbErr Unit) := do
  let id ← newID "inv"
  insertRow "CreateInvoice" .invoice fun now =>
    { id := id, orgId := orgID, stripeInvoiceId := some stripeInvoiceID, amountCents := some amountCents,
      currency := currency, status := some status, pdfUrl := nullIfEmpty pdfURL, createdAt := now }

/-! ## Leases -/

def activeLeases (s : Store) (orgID : Id) : List Lease :=
  (s .lease).rows.filter fun l => decide (l.orgId = orgID ∧ l.endedAt = none)

/-- The caller drops the error and keeps the zero value. -/
def activeLeaseCount (orgID : Id) : Cmd Int := do
  match ← read "ActiveLeaseCount" fun s => ((activeLeases s orgID).length : Int) with
  | .ok n => pure n
  | .error _ => pure 0

def weekSeconds (s : Store) (now : Time) (orgID : Id) : Int :=
  (((s .workerHoursCounter).get? (orgID, weekStart now)).map (·.secondsUsed)).getD 0

/-- The caller drops the error and keeps the zero value. -/
def weekSecondsUsed (orgID : Id) : Cmd Int := do
  match ← query "WeekSecondsUsed" fun now s => .ok (weekSeconds s now orgID) with
  | .ok n => pure n
  | .error _ => pure 0

/-- `INSERT … ON CONFLICT (org_id,week_start) DO UPDATE`. -/
def addWorkerSeconds (orgID : Id) (sec : Int) : Cmd (Except DbErr Unit) :=
  exec "AddWorkerSeconds" fun now s =>
    if ((s .workerHoursCounter).get? (orgID, weekStart now)).isSome then
      (update .all .workerHoursCounter (fun c => decide (c.orgId = orgID ∧ c.weekStart = weekStart now))
        (fun c => { c with secondsUsed := c.secondsUsed + sec }) s).map fun r => (r.1, ())
    else
      (insert .all .workerHoursCounter { orgId := orgID, weekStart := weekStart now, secondsUsed := sec } s).map
        fun s => (s, ())

def recordUsage (orgID workerID leaseID : Id) (type : UsageEventType) : Cmd (Except DbErr Unit) := do
  let id ← newID "use"
  insertRow "RecordUsage" .usageEvent fun _ =>
    { id := id, orgId := orgID, workerInstanceId := nullIfEmpty workerID, leaseId := nullIfEmpty leaseID, type := type }

structure Granted where
  workerID : Id
  leaseID : Id
  expMs : Int

/-- `ttlSec > 0` is a lease that expires. -/
def grantLease (orgID wspID : Id) (ttlSec : Int) (autoRenew : Bool) : Cmd (Except DbErr Granted) := do
  let workerID ← newID "wki"
  match ← insertRow "GrantLease (worker_instance)" .workerInstance fun now =>
      { id := workerID, orgId := orgID, workspaceId := wspID, status := .running, lastHeartbeatAt := some now } with
  | .error e => pure (.error e)
  | .ok () => do
      let leaseID ← newID "lse"
      let now ← timeNow
      let exp := if ttlSec > 0 then some (now + ttlSec * second) else none
      match ← insertRow "GrantLease (lease)" .lease fun _ =>
          { id := leaseID, orgId := orgID, workerInstanceId := workerID, expiresAt := exp, autoRenew := autoRenew } with
      | .error e => pure (.error e)
      | .ok () => do
          match ← exec "GrantLease (link)" fun _ s =>
              (update .all .workerInstance (fun w => decide (w.id = workerID))
                (fun w => { w with leaseId := some leaseID }) s).map fun r => (r.1, ()) with
          | .error e => pure (.error e)
          | .ok () =>
              pure (.ok
                { workerID := workerID, leaseID := leaseID, expMs := (exp.map fun t => t / 1000000).getD 0 })

structure ActiveLease where
  leaseID : Id
  workerID : Id
  orgID : Id
  expiresAt : Option Time
  autoRenew : Bool

def activeLeaseRow (l : Lease) : ActiveLease where
  leaseID := l.id
  workerID := l.workerInstanceId
  orgID := l.orgId
  expiresAt := l.expiresAt
  autoRenew := l.autoRenew

/-- The query has no `ORDER BY`; the model takes the oldest lease first. -/
def allActiveLeases : Cmd (Except DbErr (List ActiveLease)) :=
  read "ActiveLeases" fun s =>
    ((s .lease).rows.reverse.filter fun l => decide (l.endedAt = none)).map activeLeaseRow

def endLease (leaseID : Id) (reason : LeaseEndReason) : Cmd (Except DbErr Unit) :=
  exec "EndLease" fun now s =>
    (update .all .lease (fun l => decide (l.id = leaseID ∧ l.endedAt = none))
      (fun l => { l with endedAt := some now, endReason := some reason }) s).map fun r => (r.1, ())

def renewLease (leaseID : Id) (ttlSec : Int) : Cmd (Except DbErr Unit) := do
  let now ← timeNow
  exec "RenewLease" fun _ s =>
    (update .all .lease (fun l => decide (l.id = leaseID))
      (fun l => { l with expiresAt := some (now + ttlSec * second) }) s).map fun r => (r.1, ())

def pauseWorker (workerID : Id) : Cmd (Except DbErr Unit) :=
  exec "PauseWorker" fun _ s =>
    (update .all .workerInstance (fun w => decide (w.id = workerID ∧ w.status ≠ .stopped))
      (fun w => { w with status := .paused }) s).map fun r => (r.1, ())

def stopWorker (workerID : Id) : Cmd (Except DbErr Unit) :=
  exec "StopWorker" fun _ s =>
    (update .all .workerInstance (fun w => decide (w.id = workerID))
      (fun w => { w with status := .stopped, currentTaskId := none, currentStep := none, leaseId := none }) s).map
      fun r => (r.1, ())

/-! ## Due routines -/

structure RoutineDue where
  id : Id
  orgID : Id
  wspID : Id
  intervalSec : Int
  action : RoutineAction

/-- The cast of `interval_sec` to `int` fails the whole query when one selected row is out of range. -/
def dueRoutines : Cmd (Except DbErr (List RoutineDue)) :=
  query "DueRoutines" fun now s =>
    let due := (s .routine).rows.reverse.filter fun r =>
      r.enabled && decide (r.triggerType = .schedule) && (r.nextRunAt.map fun t => decide (t ≤ now)).getD false
    if due.all fun r => int4 r.intervalSec then
      .ok (due.map fun r =>
        { id := r.id, orgID := r.orgId, wspID := r.workspaceId, intervalSec := r.intervalSec, action := r.action })
    else .error .outOfRange

def markRoutineRan (routineID : Id) (intervalSec : Int) : Cmd (Except DbErr Unit) := do
  let t ← timeNow
  let next := if intervalSec > 0 then some (t + intervalSec * second) else none
  exec "MarkRoutineRan" fun now s =>
    (update .all .routine (fun r => decide (r.id = routineID))
      (fun r => { r with lastRunAt := some now, nextRunAt := next }) s).map fun r => (r.1, ())

end DB

end Apifor
