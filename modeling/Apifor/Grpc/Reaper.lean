import Apifor.Grpc.Pipeline

/-!
# Leases: the grant and the reaper

`reaper.go`: the server-side locks of a `LEASE_REQUEST`, and the periodic pass that counts worker
hours, applies the kill-switch and the weekly cap, and expires or renews leases.
-/

namespace Apifor

namespace EnforceConfig

variable (c : EnforceConfig)

/-- 0 is no expiry; `none` is a plan that could not be read. -/
def ttlSec (pl : Option DB.PlanLimits) : Int :=
  match pl.bind (·.leaseTTLMin) with
  | none => 0
  | some min => if c.leaseTTLOverrideSec > 0 then c.leaseTTLOverrideSec else min * 60

/-- 0 is no weekly cap. -/
def capSec (pl : Option DB.PlanLimits) : Int :=
  match pl.bind (·.weeklyHours) with
  | none => 0
  | some h => if c.hoursCapOverrideSec > 0 then c.hoursCapOverrideSec else h * 3600

end EnforceConfig

namespace Server

variable (s : Server)

/-- The last part of `tryGrant`, once every lock has let the request pass. -/
def grant (orgID wspID : Id) (pl : DB.PlanLimits) : Cmd (Except String LeaseGranted) := do
  let autoRenew := decide (pl.plan ≠ .free)
  match ← DB.grantLease orgID wspID (s.cfg.ttlSec (some pl)) autoRenew with
  | .error _ => pure (.error "internal")
  | .ok g => do
      let _ ← DB.recordUsage orgID g.workerID g.leaseID .worker_started
      let _ ← DB.recordUsage orgID g.workerID g.leaseID .lease_issued
      pure (.ok { leaseId := g.leaseID, workerId := g.workerID, expiresAt := g.expMs, autoRenew := autoRenew })

/-- The weekly lock of `tryGrant`. -/
def grantInHours (orgID wspID : Id) (pl : DB.PlanLimits) : Cmd (Except String LeaseGranted) :=
  let cap := s.cfg.capSec (some pl)
  if cap > 0 then do
    let used ← DB.weekSecondsUsed orgID
    if used ≥ cap then pure (.error "hours_cap") else s.grant orgID wspID pl
  else s.grant orgID wspID pl

/-- -1 is no cap. -/
def capWorkers (pl : DB.PlanLimits) : Int := pl.maxWorkers.getD (-1)

/-- In mode `pinned` the cap is the summed concurrency of the pinned workers, never above the plan's. -/
def effectiveCap (orgID : Id) (pl : DB.PlanLimits) : Cmd Int := do
  let mode ← DB.poolMode orgID
  if mode = "pinned" then do
    let pc ← DB.pinnedConcurrency orgID
    pure (if capWorkers pl < 0 ∨ pc < capWorkers pl then pc else capWorkers pl)
  else pure (capWorkers pl)

/-- The grant, or the reason of the denial. -/
def tryGrant (orgID wspID : Id) : Cmd (Except String LeaseGranted) := do
  let paused ← DB.poolPaused orgID
  if paused then pure (.error "pool_paused")
  else do
    match ← DB.getPlanLimits orgID with
    | .ok (some pl) => do
        let capW ← effectiveCap orgID pl
        if capW ≥ 0 then do
          let n ← DB.activeLeaseCount orgID
          if n ≥ capW then pure (.error "cap") else s.grantInHours orgID wspID pl
        else s.grantInHours orgID wspID pl
    | _ => pure (.error "no_plan")

/-! ## The reaper -/

def reasonText : LeaseEndReason → String
  | .expired => "expired"
  | .stopped => "stopped"
  | .killed => "killed"
  | .plan_block => "plan_block"
  | .hours_cap => "hours_cap"

def revoke (l : DB.ActiveLease) (reason : LeaseEndReason) : Cmd Unit := do
  let _ ← DB.endLease l.leaseID reason
  let _ ← (if reason = .expired then DB.pauseWorker l.workerID else DB.stopWorker l.workerID)
  let _ ← DB.recordUsage l.orgID l.workerID l.leaseID .lease_expired
  let _ ← DB.recordUsage l.orgID l.workerID l.leaseID .worker_stopped
  let _ ← hubSend l.orgID
    { type := .LEASE_REVOKED, payload := .leaseRevoked { leaseId := l.leaseID, reason := reasonText reason } }
  let _ ← hubSend l.orgID
    { type := .STOP_WORKER,
      payload := .workerControl { workerId := l.workerID, stop := true, reason := reasonText reason } }
  DB.createNotification l.orgID "lease" "Lease revogado" ("motivo: " ++ reasonText reason) "/usage"

/-- The TTL of one lease: it expires, or is renewed by the org's current plan. -/
def reapTTL (l : DB.ActiveLease) (pl : Option DB.PlanLimits) : Cmd Unit := do
  match l.expiresAt with
  | none => pure ()
  | some exp => do
      let now ← timeNow
      if now > exp then
        if l.autoRenew then do
          let _ ← DB.renewLease l.leaseID (s.cfg.ttlSec pl)
        else revoke l .expired
      else pure ()

/-- One round of the reaper's loop over the active leases. -/
def reapLease (l : DB.ActiveLease) : Cmd Unit := do
  let _ ← DB.addWorkerSeconds l.orgID s.cfg.reaperTickSec
  let revoked ← DB.orgHasRevokedDevice l.orgID
  if revoked then revoke l .killed
  else do
    let pl ← DB.getPlanLimits l.orgID
    let pl := pl.toOption.join
    let cap := s.cfg.capSec pl
    if cap > 0 then do
      let used ← DB.weekSecondsUsed l.orgID
      if used ≥ cap then revoke l .hours_cap else s.reapTTL l pl
    else s.reapTTL l pl

def reapLeases : List DB.ActiveLease → Cmd Unit
  | [] => pure ()
  | l :: ls => do
      s.reapLease l
      reapLeases ls

def downgradeAll : List Id → Cmd Unit
  | [] => pure ()
  | org :: orgs => do
      let _ ← DB.downgradeToFree org
      downgradeAll orgs

/-- Orgs whose grace is over go back to the free plan. -/
def dunning : Cmd Unit := do
  match ← DB.pastDueExpired with
  | .ok orgs => downgradeAll orgs
  | .error _ => pure ()

def reapOnce : Cmd Unit := do
  dunning
  match ← DB.allActiveLeases with
  | .ok ls => s.reapLeases ls
  | .error _ => pure ()

end Server

end Apifor
