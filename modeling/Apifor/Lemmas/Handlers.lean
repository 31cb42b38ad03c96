import Apifor.Lemmas.TaskFlow

/-!
# Leases, messages and routines

Footprints and task flows of the rest of the gRPC side: the grant, the reaper, the receive loop and
the scheduler.
-/

namespace Apifor

variable {T : Tbl → Bool} {K : Id → Envelope → Prop} {S : Id → TaskStatus → Prop}

namespace Server

/-! ## The grant -/

def grantTables : Tbl → Bool
  | .workerInstance | .lease | .usageEvent => true
  | _ => false

theorem grant_within (s : Server) (org wsp : Id) (pl : DB.PlanLimits) :
    Within grantTables K (s.grant org wsp pl) := by
  refine Within.bind (DB.grantLease_within rfl rfl) fun r => ?_
  cases r with
  | error e => exact .done _
  | ok g =>
      exact Within.bind (DB.recordUsage_within rfl) fun _ => Within.bind (DB.recordUsage_within rfl) fun _ => .done _

theorem readOnly_weekSecondsUsed (org : Id) : DB.ReadOnly (DB.weekSecondsUsed org) := by
  refine DB.ReadOnly.bind (.query _ _) fun r => ?_
  cases r <;> exact .done _

theorem readOnly_activeLeaseCount (org : Id) : DB.ReadOnly (DB.activeLeaseCount org) := by
  refine DB.ReadOnly.bind (.query _ _) fun r => ?_
  cases r <;> exact .done _

theorem readOnly_effectiveCap (org : Id) (pl : DB.PlanLimits) : DB.ReadOnly (effectiveCap org pl) := by
  refine DB.ReadOnly.bind (DB.readOnly_poolMode _) fun mode => ?_
  split
  · exact DB.ReadOnly.bind (DB.readOnly_pinnedConcurrency _) fun _ => .done _
  · exact .done _

theorem readOnly_getPlanLimits (org : Id) : DB.ReadOnly (DB.getPlanLimits org) := .read _ _

theorem readOnly_allActiveLeases : DB.ReadOnly DB.allActiveLeases := .read _ _

theorem grantInHours_within (s : Server) (org wsp : Id) (pl : DB.PlanLimits) :
    Within grantTables K (s.grantInHours org wsp pl) := by
  unfold grantInHours
  dsimp only
  split
  · refine Within.bind (.ofReadOnly (readOnly_weekSecondsUsed _)) fun used => ?_
    split
    · exact .done _
    · exact grant_within s org wsp pl
  · exact grant_within s org wsp pl

theorem tryGrant_within (s : Server) (org wsp : Id) : Within grantTables K (s.tryGrant org wsp) := by
  refine Within.bind (.ofReadOnly (DB.readOnly_poolFlag _ _)) fun paused => ?_
  split
  · exact .done _
  · refine Within.bind (.ofReadOnly (readOnly_getPlanLimits _)) fun pl => ?_
    rcases pl with e | pl
    · exact .done _
    · cases pl with
      | none => exact .done _
      | some pl =>
          refine Within.bind (.ofReadOnly (readOnly_effectiveCap _ _)) fun cap => ?_
          split
          · refine Within.bind (.ofReadOnly (readOnly_activeLeaseCount _)) fun n => ?_
            split
            · exact .done _
            · exact grantInHours_within s org wsp pl
          · exact grantInHours_within s org wsp pl

/-! ## The reaper -/

/-- What the reaper writes besides the leases. -/
def ledgerTables : Tbl → Bool
  | .workerHoursCounter | .workerInstance | .usageEvent | .notification => true
  | _ => false

/-- What a round of the reaper over one lease writes. -/
def leaseTables : Tbl → Bool
  | .lease => true
  | t => ledgerTables t

def dunningTables : Tbl → Bool
  | .org | .subscription => true
  | _ => false

def reaperTables (t : Tbl) : Bool := dunningTables t || leaseTables t

theorem ledger_lease : ∀ t, ledgerTables t = true → leaseTables t = true := by
  intro t
  cases t <;> decide

theorem lease_reaper : ∀ t, leaseTables t = true → reaperTables t = true := by
  intro t
  cases t <;> decide

theorem dunning_reaper : ∀ t, dunningTables t = true → reaperTables t = true := by
  intro t
  cases t <;> decide

theorem dunning_within : Within dunningTables K dunning := by
  refine Within.bind (.query _ _) fun r => ?_
  cases r with
  | error e => exact .done _
  | ok orgs =>
      dsimp only
      induction orgs with
      | nil => exact .done _
      | cons org orgs ih => exact Within.bind (DB.downgradeToFree_within rfl rfl) fun _ => ih

section Rounds

variable {R : World → World → Prop}
  (hledger : ∀ {α : Type} {c : Cmd α}, Within ledgerTables (fun _ e => e.isWork = false) c → Prog.Each R c)

include hledger

theorem revoke_each {l : DB.ActiveLease} {reason : LeaseEndReason} (hend : Prog.Each R (DB.endLease l.leaseID reason)) :
    Prog.Each R (revoke l reason) := by
  refine Prog.Each.bind hend fun _ => hledger (Within.bind ?_ fun _ => ?_)
  · split
    · exact DB.pauseWorker_within rfl
    · exact DB.stopWorker_within rfl
  · refine Within.bind (DB.recordUsage_within rfl) fun _ => Within.bind (DB.recordUsage_within rfl) fun _ => ?_
    refine Within.bind (.hubSend rfl) fun _ => Within.bind (.hubSend rfl) fun _ => ?_
    exact DB.createNotification_within rfl

theorem reapTTL_each (s : Server) {l : DB.ActiveLease} {pl : Option DB.PlanLimits}
    (hend : Prog.Each R (DB.endLease l.leaseID .expired)) (hrenew : ∀ ttl, Prog.Each R (DB.renewLease l.leaseID ttl)) :
    Prog.Each R (s.reapTTL l pl) := by
  unfold Server.reapTTL
  split
  · exact .done _
  · refine Prog.Each.bind (hledger .timeNow) fun now => ?_
    split
    · split
      · exact Prog.Each.bind (hrenew _) fun _ => .done _
      · exact revoke_each hledger hend
    · exact .done _

end Rounds

/-- `R` holds of the steps of which the reaper's rounds are made. -/
structure Rounds (R : World → World → Prop) : Prop where
  ledger : ∀ {α : Type} {c : Cmd α}, Within ledgerTables (fun _ e => e.isWork = false) c → Prog.Each R c
  endLease : ∀ id reason, Prog.Each R (DB.endLease id reason)
  renewLease : ∀ id ttl, Prog.Each R (DB.renewLease id ttl)

namespace Rounds

variable {R : World → World → Prop}

theorem revoke (h : Rounds R) (l : DB.ActiveLease) (reason : LeaseEndReason) : Prog.Each R (revoke l reason) :=
  revoke_each h.ledger (h.endLease _ _)

theorem reapTTL (h : Rounds R) (s : Server) (l : DB.ActiveLease) (pl : Option DB.PlanLimits) :
    Prog.Each R (s.reapTTL l pl) := reapTTL_each h.ledger s (h.endLease _ _) (h.renewLease _)

theorem reapLease (h : Rounds R) (s : Server) (l : DB.ActiveLease) : Prog.Each R (s.reapLease l) := by
  refine Prog.Each.bind (h.ledger (DB.addWorkerSeconds_within rfl)) fun _ =>
    Prog.Each.bind (h.ledger (.ofReadOnly ?_)) fun revoked => ?_
  · refine DB.ReadOnly.bind (.query _ _) fun r => ?_
    cases r <;> exact .done _
  · split
    · exact h.revoke l _
    · refine Prog.Each.bind (h.ledger (.ofReadOnly (readOnly_getPlanLimits _))) fun pl => ?_
      dsimp only
      split
      · refine Prog.Each.bind (h.ledger (.ofReadOnly (readOnly_weekSecondsUsed _))) fun used => ?_
        split
        · exact h.revoke l _
        · exact h.reapTTL s l _
      · exact h.reapTTL s l _

theorem reapLeases (h : Rounds R) (s : Server) (ls : List DB.ActiveLease) : Prog.Each R (s.reapLeases ls) := by
  induction ls with
  | nil => exact .done _
  | cons l ls ih => exact Prog.Each.bind (h.reapLease s l) fun _ => ih

/-- A pass of the reaper is made of its rounds, once the dunning is over. -/
theorem reapOnce (h : Rounds R) (hd : Prog.Each R dunning) (s : Server) : Prog.Each R s.reapOnce := by
  refine Prog.Each.bind hd fun _ => Prog.Each.bind (h.ledger (.ofReadOnly readOnly_allActiveLeases)) fun r => ?_
  cases r with
  | error e => exact .done _
  | ok ls => exact h.reapLeases s ls

end Rounds

variable (hW : ∀ o e, e.isWork = false → K o e)

include hW

theorem rounds_within : Rounds (Pace leaseTables K) where
  ledger hc := Within.mono ledger_lease (fun o e => hW o e) hc
  endLease _ _ := DB.endLease_within rfl
  renewLease _ _ := DB.renewLease_within rfl

theorem reapLeases_within (s : Server) (ls : List DB.ActiveLease) : Within leaseTables K (s.reapLeases ls) :=
  (rounds_within hW).reapLeases s ls

theorem reapOnce_within (s : Server) : Within reaperTables K s.reapOnce := by
  refine Within.bind (dunning_within.mono dunning_reaper fun _ _ h => h) fun _ =>
    Within.bind (.ofReadOnly readOnly_allActiveLeases) fun r => ?_
  cases r with
  | error e => exact .done _
  | ok ls => exact (reapLeases_within hW s ls).mono lease_reaper fun _ _ h => h

/-! ## The receive loop -/

theorem onLeaseRequest_within (s : Server) (st : Stream) : Within grantTables K (s.onLeaseRequest st) := by
  refine Within.bind (tryGrant_within s _ _) fun r => ?_
  cases r with
  | error reason => exact .streamSend (hW _ _ rfl)
  | ok g => exact .streamSend (hW _ _ rfl)

omit hW

def planTables : Tbl → Bool
  | .task | .step => true
  | _ => false

theorem onPlanResult_within (st : Stream) (pr : PlanResult)
    (hK : ∀ i b, K st.org (stepEnvelope i pr.taskId .EXEC b)) : Within planTables K (onPlanResult st pr) := by
  refine Within.bind (DB.savePlan_within rfl rfl) fun r => ?_
  cases r with
  | error e => exact .done _
  | ok _ =>
      refine Within.bind (.ofReadOnly (DB.readOnly_getTaskRepo _)) fun r => ?_
      rcases r with e | tr
      · exact .done _
      · cases tr with
        | none => exact .done _
        | some tr =>
            dsimp only
            split
            · exact .done _
            · refine Within.bind (.ofReadOnly (readOnly_taskOrg _)) fun org => ?_
              refine Within.bind (.ofReadOnly (DB.readOnly_pinnedWorkerForRepo _ _)) fun cfg => ?_
              refine Within.bind (.ofReadOnly (readOnly_coderModel _)) fun model => ?_
              refine Within.bind (.newID _) fun i => Within.bind (.streamSend (hK _ _)) fun _ => ?_
              exact Within.bind (DB.setTaskStatus_within rfl) fun _ => .done _

theorem onPlanResult_flow (st : Stream) (pr : PlanResult) (h : S pr.taskId .in_review) :
    Prog.Keeps (Flow S) (onPlanResult st pr) := by
  refine Flow.bind (DB.savePlan_flow h) fun r => ?_
  cases r with
  | error e => exact Flow.done _
  | ok _ =>
      refine Flow.bind (Flow.ofReadOnly (DB.readOnly_getTaskRepo _)) fun r => ?_
      rcases r with e | tr
      · exact Flow.done _
      · cases tr with
        | none => exact Flow.done _
        | some tr =>
            dsimp only
            split
            · exact Flow.done _
            · refine Flow.bind (Flow.ofReadOnly (readOnly_taskOrg _)) fun org => ?_
              refine Flow.bind (Flow.ofReadOnly (DB.readOnly_pinnedWorkerForRepo _ _)) fun cfg => ?_
              refine Flow.bind (Flow.ofReadOnly (readOnly_coderModel _)) fun model => Flow.bind (Flow.newID _) fun i => ?_
              refine Flow.bind (Flow.of_within (T := fun _ => false) rfl (.streamSend trivial)) fun _ => ?_
              exact Flow.bind (DB.setTaskStatus_flow DB.notIssued_running) fun _ => Flow.done _

/-- The output claims that the task is done: it is not the result of a stage, or that of a merge. -/
def ClaimsMerge (ev : StepEvent) : Prop := ∀ r, parseResult ev.output = some r → r.kind = "merge"

theorem onStepCompleted_flow (s : Server) (ev : StepEvent) (h : ∀ st, st ≠ .merged → st ≠ .planning → S ev.taskId st)
    (hm : ClaimsMerge ev → S ev.taskId .merged) : Prog.Keeps (Flow S) (s.onStepCompleted ev) := by
  unfold onStepCompleted
  split
  · next r hr =>
      refine advancePipeline_flow s r h fun hk => hm fun r' hr' => ?_
      rw [hr, Option.some.injEq] at hr'
      rw [← hr', hk]
  · next hr => exact Flow.bind (DB.completeTask_flow (hm fun r hr' => by rw [hr] at hr'; cases hr')) fun _ => Flow.done _

/-- A message makes a task `merged` only by a result that claims so. -/
theorem onMessage_flow (s : Server) (st : Stream) (env : Envelope) (h : ∀ k st, st ≠ .merged → st ≠ .planning → S k st)
    (hm : ∀ ev, env.type = .STEP_COMPLETED → env.payload = .stepEvent ev → ClaimsMerge ev → S ev.taskId .merged) :
    Prog.Keeps (Flow S) (s.onMessage st env) := by
  unfold onMessage
  split
  · exact Flow.of_within (T := fun t => t == .device) rfl (DB.touchDevice_within rfl)
  · exact Flow.of_within rfl (onLeaseRequest_within (fun _ _ _ => trivial) s st)
  · next ev hty hpl => exact onStepCompleted_flow s ev (h _) fun hc => hm ev hty hpl hc
  · exact Flow.bind (DB.failTask_flow (h _ _ (by decide) (by decide))) fun _ => Flow.done _
  · exact reconcileTask_flow s (h _ _ (by decide) (by decide))
  · exact onPlanResult_flow st _ (h _ _ (by decide) (by decide))
  · exact Flow.done _

/-! ## The scheduler -/

def routineTables : Tbl → Bool
  | .task | .notification | .routine => true
  | _ => false

theorem fireRoutine_within (ht : T .task = true) (hn : T .notification = true) (s : Server) (org wsp : Id)
    (a : RoutineAction) (hK : ∀ o k p rs, K o (requestPlan k p rs)) : Within T K (s.fireRoutine org wsp a) := by
  refine Within.bind ?_ fun wsp => Within.bind (DB.createRealTask_within ht) fun r => ?_
  · split
    · exact .ofReadOnly (DB.readOnly_firstWorkspace _)
    · exact .done _
  · obtain ⟨task, created⟩ := r
    cases created with
    | error e => exact .done _
    | ok _ =>
        refine Within.bind (.ofReadOnly (DB.readOnly_promptWithMemory _ _ _)) fun p => ?_
        refine Within.bind (.hubSend (hK _ _ _ _)) fun sent => ?_
        cases sent with
        | true =>
            exact Within.bind (DB.setTaskStatus_within ht) fun _ => DB.createNotification_within hn
        | false => exact DB.createNotification_within hn

theorem fireAll_within (s : Server) (hK : ∀ o k p rs, K o (requestPlan k p rs)) (due : List DB.RoutineDue) :
    Within routineTables K (s.fireAll due) := by
  induction due with
  | nil => exact .done _
  | cons r rs ih =>
      exact Within.bind (fireRoutine_within rfl rfl s _ _ _ hK) fun _ => Within.bind (DB.markRoutineRan_within rfl) fun _ => ih

theorem schedule_within (s : Server) (hK : ∀ o k p rs, K o (requestPlan k p rs)) :
    Within routineTables K s.schedule := by
  refine Within.bind (.query _ _) fun r => ?_
  cases r with
  | error e => exact .done _
  | ok due => exact fireAll_within s hK due

theorem fireRoutine_flow (s : Server) (org wsp : Id) (a : RoutineAction) :
    Prog.Keeps (Flow S) (s.fireRoutine org wsp a) := by
  refine Flow.bind (Flow.ofReadOnly ?_) fun wsp => Flow.bind DB.createRealTask_flow fun r => ?_
  · split
    · exact DB.readOnly_firstWorkspace _
    · exact .done _
  · obtain ⟨task, created⟩ := r
    cases created with
    | error e => exact Flow.done _
    | ok _ =>
        refine Flow.bind (Flow.ofReadOnly (DB.readOnly_promptWithMemory _ _ _)) fun p => ?_
        refine Flow.bind Flow.hubSend fun sent => ?_
        cases sent with
        | true =>
            exact Flow.bind (DB.setTaskStatus_flow DB.notIssued_planning) fun _ => createNotification_flow
        | false => exact createNotification_flow

theorem fireAll_flow (s : Server) (due : List DB.RoutineDue) : Prog.Keeps (Flow S) (s.fireAll due) := by
  induction due with
  | nil => exact Flow.done _
  | cons r rs ih =>
      refine Flow.bind (fireRoutine_flow s _ _ _) fun _ => ?_
      exact Flow.bind (Flow.of_within (T := fun t => t == .routine) rfl (DB.markRoutineRan_within rfl)) fun _ => ih

theorem schedule_flow (s : Server) : Prog.Keeps (Flow S) s.schedule := by
  refine Flow.bind (Flow.query _ _) fun r => ?_
  cases r with
  | error e => exact Flow.done _
  | ok due => exact fireAll_flow s due

end Server

end Apifor
