import Apifor.Lemmas.Handlers
import Mathlib.Tactic.Ring

/-!
# A pass of the reaper

What one round of the reaper's loop makes of the lease rows and of the weekly counters, when nothing
else runs meanwhile, and what the rounds of a pass make of them together.
-/

namespace Apifor

variable {w w' : World} {o : Id}

/-! ## Open channels -/

/-- The current channel of an org is not closed. -/
def Hub.Open (h : Hub) : Prop := ∀ o n, h.byOrg o = some n → (h.chan o n).closed = false

namespace Hub

variable {h : Hub}

theorem open_new : ({} : Hub).Open := fun _ _ h => by cases h

theorem Open.setChan {n : Nat} {c : Chan} (ho : h.Open) (hc : c.closed = false) : (h.setChan o n c).Open :=
  fun o' m hm => by
    have hopen := ho o' m hm
    by_cases hn : n < (h.chans o).length
    · rw [chan_setChan hn]
      split_ifs
      · exact hc
      · exact hopen
    · have hsame : h.setChan o n c = h := by
        unfold Hub.setChan
        rw [List.set_eq_of_length_le (Nat.le_of_not_lt hn), Function.update_eq_self]
      rwa [hsame]

theorem chans_close {n : Nat} {o' : Id} (ho : o' ≠ o) : (h.close o n).chans o' = h.chans o' :=
  Function.update_of_ne ho _ _

theorem chan_congr {h' : Hub} {n : Nat} (hc : h'.chans o = h.chans o) : h'.chan o n = h.chan o n := by
  rw [chan, chan, hc]

/-- A stream that is opened, or ends, leaves the current channels of the orgs open. -/
theorem Open.register (hopen : h.Open) (o : Id) : (h.register o).1.Open := fun o' m hm => by
  by_cases ho : o' = o
  · subst ho
    simp only [Hub.register, Function.update_self, Option.some.injEq] at hm
    simp [Hub.register, chan, ← hm]
  · cases hb : h.byOrg o with
    | none =>
        simp only [Hub.register, hb, Function.update_of_ne ho] at hm
        rw [chan_congr (h := h) (by simp only [Hub.register, hb, Function.update_of_ne ho])]
        exact hopen o' m hm
    | some old =>
        simp only [Hub.register, hb, Function.update_of_ne ho] at hm
        rw [chan_congr (h := h) (by simp only [Hub.register, hb, Function.update_of_ne ho, chans_close ho])]
        exact hopen o' m hm

theorem Open.unregister (hopen : h.Open) (o : Id) (n : Nat) : (h.unregister o n).Open := fun o' m hm => by
  unfold Hub.unregister at hm ⊢
  split_ifs at hm ⊢ with hb
  · by_cases ho : o' = o
    · subst ho
      simp only [Function.update_self, reduceCtorEq] at hm
    · simp only [Function.update_of_ne ho] at hm
      change ((h.close o n).chan o' m).closed = false
      rw [chan_congr (chans_close ho)]
      exact hopen o' m hm
  · exact hopen o' m hm

end Hub

/-- The org's channels are open, so that no send panics. -/
abbrev Live (w : World) : Prop := w.hub.Open

theorem Live.trySend (h : Live w) {n : Nat} (hn : w.hub.byOrg o = some n) (env : Envelope) :
    ∃ ok w', w.trySend o n env = (w', some ok) ∧ Live w' := by
  have hopen := h o n hn
  unfold World.trySend
  dsimp only
  rw [if_neg (by rw [hopen]; decide)]
  split_ifs
  · exact ⟨true, _, rfl, Hub.Open.setChan h hopen⟩
  · exact ⟨false, w, rfl, h⟩

theorem safe_hubSend (o : Id) (env : Envelope) : Prog.Safe Live (hubSend o env) := fun w h => by
  simp only [hubSend, Prog.run_act]
  cases hb : w.hub.byOrg o with
  | none => exact ⟨⟨false, rfl⟩, h⟩
  | some n =>
      obtain ⟨ok, w', hsend, hlive⟩ := h.trySend hb env
      simp only [Prog.run_act, hsend]
      exact ⟨⟨ok, rfl⟩, hlive⟩

theorem safe_exec {α : Type} (n : String) (f : Time → Store → Except DbErr (Store × α)) : Prog.Safe Live (exec n f) :=
  Prog.Safe.attempt fun w w' a h hf => by
    obtain ⟨r, -, heq⟩ := map_eq_ok hf
    cases heq
    exact h

theorem safe_query {α : Type} (n : String) (f : Time → Store → Except DbErr α) : Prog.Safe Live (query n f) :=
  Prog.Safe.attempt fun w w' a h hf => by
    obtain ⟨r, -, heq⟩ := map_eq_ok hf
    cases heq
    exact h

theorem safe_newID (pre : String) : Prog.Safe Live (newID pre) := Prog.Safe.lift fun _ h => h

/-! ## The verdict on a lease -/

/-- What a round of the loop does to its lease. -/
inductive Verdict
  | kept
  | renewed (ttlSec : Int)
  | ended (reason : LeaseEndReason)
  deriving DecidableEq

/-- The verdict, from what the queries of the round answer. -/
def Server.verdict (sv : Server) (revoked : Bool) (pl : Option DB.PlanLimits) (used : Int) (now : Time)
    (l : DB.ActiveLease) : Verdict :=
  if revoked then .ended .killed
  else if 0 < sv.cfg.capSec pl ∧ sv.cfg.capSec pl ≤ used then .ended .hours_cap
  else
    match l.expiresAt with
    | none => .kept
    | some exp =>
        if now > exp then if l.autoRenew then .renewed (sv.cfg.ttlSec pl) else .ended .expired else .kept

def Verdict.judge (now : Time) (l : Lease) : Verdict → Lease
  | .kept => l
  | .renewed ttlSec => { l with expiresAt := some (now + ttlSec * second) }
  | .ended reason => if l.endedAt = none then { l with endedAt := some now, endReason := some reason } else l

/-- The rows of the leases after a round. -/
def judged (v : Verdict) (now : Time) (leaseID : Id) (rows : List Lease) : List Lease :=
  rows.map fun r => if r.id = leaseID then v.judge now r else r

theorem judged_kept (now : Time) (leaseID : Id) (rows : List Lease) : judged .kept now leaseID rows = rows := by
  simp [judged, Verdict.judge]

/-- An update of lease rows goes through. -/
theorem run_updateLeases {n : String} {p : Time → Lease → Bool} {f : Time → Lease → Lease}
    {k : ∀ now l, key .lease (f now l) = key .lease l} (hr : ∀ now l, refs .lease (f now l) = refs .lease l) (w : World) :
    ∃ s, (exec n fun now s => (update .all .lease (p now) (f now) s (k now)).map fun r => (r.1, ())).run w =
        ({ w with db := s }, some (.ok ())) ∧
      (s .lease).rows = (w.db .lease).rows.map fun r => if p w.now r then f w.now r else r := by
  rw [run_exec, update_all_eq (t := .lease) (fun r q hq => hr w.now r ▸ hq) fun _ => rfl]
  refine ⟨_, rfl, ?_⟩
  dsimp only
  rw [Store.set_same, Table.rows_update]

theorem run_endLease (id : Id) (reason : LeaseEndReason) (w : World) :
    ∃ s, (DB.endLease id reason).run w = ({ w with db := s }, some (.ok ())) ∧
      (s .lease).rows = judged (.ended reason) w.now id (w.db .lease).rows := by
  obtain ⟨s, hrun, hrows⟩ := run_updateLeases (n := "EndLease") (p := fun _ l => decide (l.id = id ∧ l.endedAt = none))
    (f := fun now l => { l with endedAt := some now, endReason := some reason }) (k := fun _ _ => rfl)
    (fun _ _ => rfl) w
  refine ⟨s, hrun, hrows.trans (List.map_congr_left fun r _ => ?_)⟩
  by_cases hid : r.id = id
  · rw [if_pos hid, Verdict.judge]
    by_cases he : r.endedAt = none <;> simp [hid, he]
  · rw [if_neg hid, if_neg (by simp [hid])]

theorem run_renewLease (id : Id) (ttlSec : Int) (w : World) :
    ∃ s, (DB.renewLease id ttlSec).run w = ({ w with db := s }, some (.ok ())) ∧
      (s .lease).rows = judged (.renewed ttlSec) w.now id (w.db .lease).rows := by
  obtain ⟨s, hrun, hrows⟩ := run_updateLeases (n := "RenewLease") (p := fun _ l => decide (l.id = id))
    (f := fun _ l => { l with expiresAt := some (w.now + ttlSec * second) }) (k := fun _ _ => rfl) (fun _ _ => rfl) w
  refine ⟨s, hrun, hrows.trans (List.map_congr_left fun r _ => ?_)⟩
  by_cases hid : r.id = id <;> simp [hid, Verdict.judge]

/-! ## One round -/

/-- The tables that a revocation writes beside the lease. -/
def revokedTables : Tbl → Bool
  | .workerInstance | .usageEvent | .notification => true
  | _ => false

/-- The revocation after its first statement. -/
def revokeRest (l : DB.ActiveLease) (reason : LeaseEndReason) : Cmd Unit := do
  let _ ← (if reason = .expired then DB.pauseWorker l.workerID else DB.stopWorker l.workerID)
  let _ ← DB.recordUsage l.orgID l.workerID l.leaseID .lease_expired
  let _ ← DB.recordUsage l.orgID l.workerID l.leaseID .worker_stopped
  let _ ← hubSend l.orgID
    { type := .LEASE_REVOKED, payload := .leaseRevoked { leaseId := l.leaseID, reason := Server.reasonText reason } }
  let _ ← hubSend l.orgID
    { type := .STOP_WORKER,
      payload := .workerControl { workerId := l.workerID, stop := true, reason := Server.reasonText reason } }
  DB.createNotification l.orgID "lease" "Lease revogado" ("motivo: " ++ Server.reasonText reason) "/usage"

theorem revokeRest_within (l : DB.ActiveLease) (reason : LeaseEndReason) :
    Within revokedTables (fun _ _ => True) (revokeRest l reason) := by
  refine Within.bind ?_ fun _ => ?_
  · split
    · exact DB.pauseWorker_within rfl
    · exact DB.stopWorker_within rfl
  · refine Within.bind (DB.recordUsage_within rfl) fun _ => Within.bind (DB.recordUsage_within rfl) fun _ => ?_
    refine Within.bind (.hubSend trivial) fun _ => Within.bind (.hubSend trivial) fun _ => ?_
    exact DB.createNotification_within rfl

theorem safe_insertRow (n : String) (t : Tbl) (r : Time → Row t) : Prog.Safe Live (DB.insertRow n t r) := safe_exec _ _

theorem safe_recordUsage (org worker lease : Id) (type : UsageEventType) :
    Prog.Safe Live (DB.recordUsage org worker lease type) :=
  Prog.Safe.bind (safe_newID _) fun _ => safe_insertRow _ _ _

theorem safe_createNotification (org type title body link : String) :
    Prog.Safe Live (DB.createNotification org type title body link) :=
  Prog.Safe.bind (safe_query _ _) fun _ => Prog.Safe.bind (safe_newID _) fun _ =>
    Prog.Safe.bind (safe_insertRow _ _ _) fun _ => .done _

theorem safe_revokeRest (l : DB.ActiveLease) (reason : LeaseEndReason) : Prog.Safe Live (revokeRest l reason) := by
  refine Prog.Safe.bind ?_ fun _ => ?_
  · split <;> exact safe_exec _ _
  · refine Prog.Safe.bind (safe_recordUsage _ _ _ _) fun _ => Prog.Safe.bind (safe_recordUsage _ _ _ _) fun _ => ?_
    refine Prog.Safe.bind (safe_hubSend _ _) fun _ => Prog.Safe.bind (safe_hubSend _ _) fun _ => ?_
    exact safe_createNotification _ _ _ _ _

/-- What a round leaves as it was. -/
def roundTables : Tbl → Bool
  | .lease | .workerInstance | .usageEvent | .notification => true
  | _ => false

/-- The program ends with the verdict carried out, and no other write to the leases and the counters. -/
structure Carries (v : Verdict) (leaseID : Id) (c : Cmd Unit) (w w' : World) : Prop where
  run : c.run w = (w', some ())
  live : Live w'
  foot : Foot roundTables (fun _ _ => True) w w'
  leases : (w'.db .lease).rows = judged v w.now leaseID (w.db .lease).rows

theorem carries_revoke (hw : Live w) (l : DB.ActiveLease) (reason : LeaseEndReason) :
    ∃ w', Carries (.ended reason) l.leaseID (Server.revoke l reason) w w' := by
  obtain ⟨s, hend, hrows⟩ := run_endLease l.leaseID reason w
  have hrun : (Server.revoke l reason).run w = (revokeRest l reason).run { w with db := s } := by
    change ((DB.endLease l.leaseID reason).bind fun _ => revokeRest l reason).run w = _
    rw [Prog.run_bind_of_eq hend]
  obtain ⟨⟨u, hu⟩, hlive⟩ := safe_revokeRest l reason { w with db := s } hw
  have hrest := (revokeRest_within l reason).keeps { w with db := s }
  refine ⟨((revokeRest l reason).run { w with db := s }).1, ?_, hlive, ?_, ?_⟩
  · rw [hrun, ← hu]
  · have hwithin : Within roundTables (fun _ _ => True) (DB.endLease l.leaseID reason) := DB.endLease_within rfl
    have hfirst := hwithin.keeps w
    rw [hend] at hfirst
    exact hfirst.trans (hrest.mono (fun t ht => by cases t <;> first | rfl | cases ht) fun _ _ h => h)
  · rw [← hrows]
    exact hrest.db.rows_eq rfl fun _ => rfl

theorem carries_kept (hw : Live w) (leaseID : Id) : Carries .kept leaseID (.done ()) w w :=
  ⟨rfl, hw, Foot.refl w, (judged_kept _ _ _).symm⟩

theorem carries_renew (hw : Live w) (id : Id) (ttlSec : Int) :
    ∃ w', Carries (.renewed ttlSec) id ((DB.renewLease id ttlSec).bind fun _ => .done ()) w w' := by
  obtain ⟨s, hrun, hrows⟩ := run_renewLease id ttlSec w
  have hwithin : Within roundTables (fun _ _ => True) (DB.renewLease id ttlSec) := DB.renewLease_within rfl
  have hfoot := hwithin.keeps w
  rw [hrun] at hfoot
  exact ⟨{ w with db := s }, by rw [Prog.run_bind_of_eq hrun]; rfl, hw, hfoot, hrows⟩

variable (sv : Server)

/-- The round after its query of the kill-switch, under the plan that it reads. -/
theorem carries_reapTTL (hw : Live w) (l : DB.ActiveLease) (pl : Option DB.PlanLimits) (used : Int)
    (hcap : ¬ (0 < sv.cfg.capSec pl ∧ sv.cfg.capSec pl ≤ used)) :
    ∃ w', Carries (sv.verdict false pl used w.now l) l.leaseID (sv.reapTTL l pl) w w' := by
  unfold Server.verdict Server.reapTTL
  rw [if_neg (by decide), if_neg hcap]
  cases l.expiresAt with
  | none => exact ⟨w, carries_kept hw _⟩
  | some exp =>
      dsimp only
      by_cases hexp : w.now > exp
      · rw [if_pos hexp]
        by_cases hauto : l.autoRenew = true
        · rw [if_pos hauto]
          obtain ⟨w', h⟩ := carries_renew hw l.leaseID (sv.cfg.ttlSec pl)
          refine ⟨w', ?_, h.live, h.foot, h.leases⟩
          change (if w.now > exp then if l.autoRenew = true then _ else _ else _ : Cmd Unit).run w = _
          rw [if_pos hexp, if_pos hauto]
          exact h.run
        · rw [if_neg hauto]
          obtain ⟨w', h⟩ := carries_revoke hw l .expired
          refine ⟨w', ?_, h.live, h.foot, h.leases⟩
          change (if w.now > exp then if l.autoRenew = true then _ else _ else _ : Cmd Unit).run w = _
          rw [if_pos hexp, if_neg hauto]
          exact h.run
      · rw [if_neg hexp]
        refine ⟨w, ?_, hw, Foot.refl w, (judged_kept _ _ _).symm⟩
        change (if w.now > exp then _ else _ : Cmd Unit).run w = _
        rw [if_neg hexp]
        rfl

/-- The rest of a round, after the charge. -/
def Server.reapCharged (sv : Server) (l : DB.ActiveLease) : Cmd Unit := do
  let revoked ← DB.orgHasRevokedDevice l.orgID
  if revoked then Server.revoke l .killed
  else do
    let pl ← DB.getPlanLimits l.orgID
    let pl := pl.toOption.join
    let cap := sv.cfg.capSec pl
    if cap > 0 then do
      let used ← DB.weekSecondsUsed l.orgID
      if used ≥ cap then Server.revoke l .hours_cap else sv.reapTTL l pl
    else sv.reapTTL l pl

theorem carries_reapCharged (hw : Live w) (l : DB.ActiveLease) :
    ∃ w', Carries (sv.verdict (DB.revokedDevice w.db l.orgID) (DB.planLimits w.db l.orgID)
      (DB.weekSeconds w.db w.now l.orgID) w.now l) l.leaseID (sv.reapCharged l) w w' := by
  unfold Server.verdict
  cases hrev : DB.revokedDevice w.db l.orgID with
  | true =>
      obtain ⟨w', h⟩ := carries_revoke hw l .killed
      refine ⟨w', ?_, h.live, h.foot, h.leases⟩
      change (if DB.revokedDevice w.db l.orgID = true then Server.revoke l .killed else _ : Cmd Unit).run w = _
      rw [if_pos hrev]
      exact h.run
  | false =>
      have hrun : (sv.reapCharged l).run w =
          (if sv.cfg.capSec (DB.planLimits w.db l.orgID) > 0 then (do
              let used ← DB.weekSecondsUsed l.orgID
              if used ≥ sv.cfg.capSec (DB.planLimits w.db l.orgID) then Server.revoke l .hours_cap
              else sv.reapTTL l (DB.planLimits w.db l.orgID))
            else sv.reapTTL l (DB.planLimits w.db l.orgID) : Cmd Unit).run w := by
        change (if DB.revokedDevice w.db l.orgID = true then _ else _ : Cmd Unit).run w = _
        rw [if_neg (by rw [hrev]; decide)]
        rfl
      by_cases hcap : sv.cfg.capSec (DB.planLimits w.db l.orgID) > 0
      · rw [if_pos hcap] at hrun
        change _ = (if DB.weekSeconds w.db w.now l.orgID ≥ sv.cfg.capSec (DB.planLimits w.db l.orgID) then
          Server.revoke l .hours_cap else _ : Cmd Unit).run w at hrun
        by_cases hused : DB.weekSeconds w.db w.now l.orgID ≥ sv.cfg.capSec (DB.planLimits w.db l.orgID)
        · rw [if_pos hused] at hrun
          rw [if_neg (by decide), if_pos ⟨hcap, hused⟩]
          obtain ⟨w', h⟩ := carries_revoke hw l .hours_cap
          exact ⟨w', hrun.trans h.run, h.live, h.foot, h.leases⟩
        · rw [if_neg hused] at hrun
          obtain ⟨w', h⟩ := carries_reapTTL sv hw l (DB.planLimits w.db l.orgID)
            (DB.weekSeconds w.db w.now l.orgID) fun h => hused h.2
          exact ⟨w', hrun.trans h.run, h.live, h.foot, h.leases⟩
      · rw [if_neg hcap] at hrun
        obtain ⟨w', h⟩ := carries_reapTTL sv hw l (DB.planLimits w.db l.orgID)
          (DB.weekSeconds w.db w.now l.orgID) fun h => hcap h.1
        exact ⟨w', hrun.trans h.run, h.live, h.foot, h.leases⟩

/-! ## The counters -/

/-- The seconds of every org and week. -/
def counters (s : Store) (k : Id × Int) : Option Int := ((s .workerHoursCounter).get? k).map (·.secondsUsed)

/-- A charge; a counter is opened only for an org that exists. -/
def bumped (known : Bool) (C : Id × Int → Option Int) (k : Id × Int) (sec : Int) : Id × Int → Option Int :=
  if known ∨ (C k).isSome then Function.update C k (some ((C k).getD 0 + sec)) else C

theorem weekSeconds_eq (s : Store) (now : Time) (o : Id) :
    DB.weekSeconds s now o = (counters s (o, weekStart now)).getD 0 := rfl

theorem get?_of_update {t : Tbl} {p : Row t → Bool} {f : Row t → Row t} {s s' : Store} {n : Nat}
    {hf : ∀ r, key t (f r) = key t r} (h : update .all t p f s hf = .ok (s', n)) (k : Id × Int) :
    (s' t).get? k = ((s t).get? k).map fun r => if p r then f r else r := by
  simp only [update] at h
  split_ifs at h
  cases h
  rw [Store.set_same, Table.get?_update]
  simp only [Scope.writes, Bool.true_and]

theorem counters_update {s : Store} {k : Id × Int} {c : WorkerHoursCounter}
    (h : (s .workerHoursCounter).get? k = some c) (sec : Int) :
    ∃ s' n, update .all .workerHoursCounter (fun c => decide (c.orgId = k.1 ∧ c.weekStart = k.2))
        (fun c => { c with secondsUsed := c.secondsUsed + sec }) s = .ok (s', n) ∧
      counters s' = Function.update (counters s) k (some (c.secondsUsed + sec)) ∧
        ∀ t, t ≠ .workerHoursCounter → s' t = s t := by
  have hu := @update_all_eq .workerHoursCounter (fun c => decide (c.orgId = k.1 ∧ c.weekStart = k.2))
    (fun c => { c with secondsUsed := c.secondsUsed + sec }) s (fun _ => rfl) (fun _ _ h => h) fun _ => rfl
  refine ⟨_, _, hu, funext fun k' => ?_, fun t ht => update_other hu ht⟩
  rw [counters, get?_of_update hu]
  by_cases hk : k' = k
  · subst hk
    have hkey : (c.orgId, c.weekStart) = k' := (Table.get?_eq_some.1 h).2
    rw [Function.update_self, h, Option.map_some, Option.map_some, ← hkey, if_pos (by simp)]
  · rw [Function.update_of_ne hk, counters]
    cases hg : (s .workerHoursCounter).get? k' with
    | none => rfl
    | some c' =>
        have hkey : (c'.orgId, c'.weekStart) = k' := (Table.get?_eq_some.1 hg).2
        have hne : ¬ (c'.orgId = k.1 ∧ c'.weekStart = k.2) := fun h => hk (by rw [← hkey, h.1, h.2])
        rw [Option.map_some, if_neg (by simpa using hne)]

theorem counters_insert {s : Store} {k : Id × Int} (h : (s .workerHoursCounter).get? k = none) (sec : Int) :
    match insert .all .workerHoursCounter { orgId := k.1, weekStart := k.2, secondsUsed := sec } s with
    | .ok s' => s.has .org k.1 = true ∧ counters s' = Function.update (counters s) k (some sec) ∧
        ∀ t, t ≠ .workerHoursCounter → s' t = s t
    | .error _ => s.has .org k.1 = false := by
  have hadm : admissible .all s .workerHoursCounter { orgId := k.1, weekStart := k.2, secondsUsed := sec } =
      if s.has .org k.1 then .ok () else .error .constraint := by
    cases hh : s.has .org k.1 <;> simp [admissible, inRange, Scope.writes, refs, hh]
  have hclash : (s .workerHoursCounter).rows.any
      (clash .workerHoursCounter { orgId := k.1, weekStart := k.2, secondsUsed := sec }) = false := by
    simp [clash]
  rw [insert, hadm]
  cases hh : s.has .org k.1 with
  | false => rfl
  | true =>
      rw [if_pos rfl]
      dsimp only
      rw [if_neg (by rw [hclash]; decide)]
      cases hx : (s .workerHoursCounter).insert? { orgId := k.1, weekStart := k.2, secondsUsed := sec } with
      | none =>
          obtain ⟨r, hr, hkey⟩ := Table.insert?_eq_none.1 hx
          exact absurd hkey (Table.get?_eq_none.1 h r hr)
      | some x =>
          refine ⟨rfl, funext fun k' => ?_, fun t ht => Store.set_of_ne s _ ht⟩
          rw [counters, Store.set_same, Table.get?_insert hx]
          by_cases hk : k' = k
          · subst hk
            rw [Function.update_self, if_pos (by rfl)]
            rfl
          · rw [Function.update_of_ne hk, if_neg (fun h => hk h.symm)]
            rfl

theorem run_addWorkerSeconds (o : Id) (sec : Int) (w : World) :
    ∃ s r, (DB.addWorkerSeconds o sec).run w = ({ w with db := s }, some r) ∧
      counters s = bumped (w.db.has .org o) (counters w.db) (o, weekStart w.now) sec ∧
        ∀ t, t ≠ .workerHoursCounter → s t = w.db t := by
  have hrun := run_exec "AddWorkerSeconds" (fun now s =>
    if ((s .workerHoursCounter).get? (o, weekStart now)).isSome then
      (update .all .workerHoursCounter (fun c => decide (c.orgId = o ∧ c.weekStart = weekStart now))
        (fun c => { c with secondsUsed := c.secondsUsed + sec }) s (fun _ => rfl)).map fun r => (r.1, ())
    else
      (insert .all .workerHoursCounter { orgId := o, weekStart := weekStart now, secondsUsed := sec } s).map
        fun s => (s, ())) w
  change (DB.addWorkerSeconds o sec).run w = _ at hrun
  rw [hrun]
  cases hg : (w.db .workerHoursCounter).get? (o, weekStart w.now) with
  | some c =>
      obtain ⟨s, n, hu, hC, hs⟩ := counters_update hg sec
      have hsome : counters w.db (o, weekStart w.now) = some c.secondsUsed := by rw [counters, hg]; rfl
      rw [if_pos (by rfl), hu]
      refine ⟨s, .ok (), rfl, ?_, hs⟩
      rw [hC, bumped, hsome, if_pos (.inr rfl)]
      rfl
  | none =>
      have hnone : counters w.db (o, weekStart w.now) = none := by rw [counters, hg]; rfl
      have hins := counters_insert hg sec
      rw [if_neg (by simp)]
      cases hi : insert .all .workerHoursCounter { orgId := o, weekStart := weekStart w.now, secondsUsed := sec } w.db with
      | ok s =>
          rw [hi] at hins
          refine ⟨s, .ok (), rfl, ?_, hins.2.2⟩
          rw [hins.2.1, bumped, hnone, if_pos (.inl hins.1)]
          simp
      | error e =>
          rw [hi] at hins
          refine ⟨w.db, .error e, rfl, ?_, fun _ _ => rfl⟩
          rw [bumped, hnone, if_neg (by simp [hins])]

/-! ## The pass -/

/-- What the rounds read of the store, and do not write. -/
structure Setting where
  known : Id → Bool
  revoked : Id → Bool
  limits : Id → Option DB.PlanLimits
  now : Time

def settingOf (w : World) : Setting where
  known := w.db.has .org
  revoked := DB.revokedDevice w.db
  limits := DB.planLimits w.db
  now := w.now

namespace Setting

variable (S : Setting) (C : Id × Int → Option Int)

/-- The counters after the rounds of some leases. -/
def charge (ls : List DB.ActiveLease) : Id × Int → Option Int :=
  ls.foldl (fun C l => bumped (S.known l.orgID) C (l.orgID, weekStart S.now) sv.cfg.reaperTickSec) C

/-- The verdict on a lease whose round finds the counters `C`. -/
def verdict (l : DB.ActiveLease) : Verdict :=
  sv.verdict (S.revoked l.orgID) (S.limits l.orgID) ((C (l.orgID, weekStart S.now)).getD 0) S.now l

/-- The rows of the leases after the rounds of some of them. -/
def judgeAll : (Id × Int → Option Int) → List DB.ActiveLease → List Lease → List Lease
  | _, [], rows => rows
  | C, l :: ls, rows =>
      judgeAll (S.charge sv C [l]) ls (judged (S.verdict sv (S.charge sv C [l]) l) S.now l.leaseID rows)

end Setting

/-- What a number of rounds make of the leases and the counters. -/
structure Passed (ls : List DB.ActiveLease) (w w' : World) : Prop where
  live : Live w'
  setting : settingOf w' = settingOf w
  charged : counters w'.db = (settingOf w).charge sv (counters w.db) ls
  leases : (w'.db .lease).rows = (settingOf w).judgeAll sv (counters w.db) ls (w.db .lease).rows

theorem settingOf_congr (hnow : w'.now = w.now) (ho : (w'.db .org).rows = (w.db .org).rows)
    (hd : (w'.db .device).rows = (w.db .device).rows) (hp : (w'.db .planCatalog).rows = (w.db .planCatalog).rows) :
    settingOf w' = settingOf w := by
  have ho' : w'.db .org = w.db .org := Table.ext ho
  have hp' : w'.db .planCatalog = w.db .planCatalog := Table.ext hp
  unfold settingOf
  rw [hnow]
  congr 1
  · funext o
    rw [Store.has, Store.has, ho]
  · funext o
    rw [DB.revokedDevice, DB.revokedDevice, hd]
  · funext o
    rw [DB.planLimits, DB.planLimits, DB.planOf, DB.planOf, ho', hp']

/-- One round. -/
theorem reapLease_passed (hw : Live w) (l : DB.ActiveLease) :
    ∃ w', (sv.reapLease l).run w = (w', some ()) ∧ Passed sv [l] w w' := by
  obtain ⟨s, r, hcharge, hC, hs⟩ := run_addWorkerSeconds l.orgID sv.cfg.reaperTickSec w
  have hrun : (sv.reapLease l).run w = (sv.reapCharged l).run { w with db := s } := by
    change ((DB.addWorkerSeconds l.orgID sv.cfg.reaperTickSec).bind fun _ => sv.reapCharged l).run w = _
    rw [Prog.run_bind_of_eq hcharge]
  have hset : settingOf { w with db := s } = settingOf w :=
    settingOf_congr rfl (congrArg Table.rows (hs .org (by decide))) (congrArg Table.rows (hs .device (by decide)))
      (congrArg Table.rows (hs .planCatalog (by decide)))
  obtain ⟨w', h⟩ := carries_reapCharged sv (w := { w with db := s }) hw l
  refine ⟨w', hrun.trans h.run, h.live, ?_, ?_, ?_⟩
  · rw [← hset]
    exact settingOf_congr h.foot.now (h.foot.db.rows_eq rfl fun _ => rfl) (h.foot.db.rows_eq rfl fun _ => rfl)
      (h.foot.db.rows_eq rfl fun _ => rfl)
  · have hsame : w'.db .workerHoursCounter = s .workerHoursCounter := Table.ext (h.foot.db.rows_eq rfl fun _ => rfl)
    have hcount : counters w'.db = counters s := by
      funext k
      rw [counters, counters, hsame]
    rw [hcount, hC]
    rfl
  · rw [h.leases]
    dsimp only
    rw [hs .lease (by decide)]
    have hrev : DB.revokedDevice s = (settingOf w).revoked := congrArg Setting.revoked hset
    have hlim : DB.planLimits s = (settingOf w).limits := congrArg Setting.limits hset
    rw [hrev, hlim, weekSeconds_eq, hC]
    rfl

/-- The rounds of a pass, one after the other. -/
theorem reapLeases_passed (hw : Live w) (ls : List DB.ActiveLease) :
    ∃ w', (sv.reapLeases ls).run w = (w', some ()) ∧ Passed sv ls w w' := by
  induction ls generalizing w with
  | nil => exact ⟨w, rfl, hw, rfl, rfl, rfl⟩
  | cons l ls ih =>
      obtain ⟨w₁, hrun, h⟩ := reapLease_passed sv hw l
      obtain ⟨w₂, hrun', h'⟩ := ih h.live
      refine ⟨w₂, ?_, h'.live, h'.setting.trans h.setting, ?_, ?_⟩
      · change ((sv.reapLease l).bind fun _ => sv.reapLeases ls).run w = _
        rw [Prog.run_bind_of_eq hrun, hrun']
      · rw [h'.charged, h.setting, h.charged]
        rfl
      · rw [h'.leases, h.setting, h.charged, h.leases]
        rfl

/-! ## The fate of one lease -/

namespace Setting

variable (S : Setting) {C : Id × Int → Option Int} {ls : List DB.ActiveLease} {l : DB.ActiveLease} {r : Lease}

/-- What the rounds of some leases make of one row. -/
def fate : (Id × Int → Option Int) → List DB.ActiveLease → Lease → Lease
  | _, [], r => r
  | C, l :: ls, r =>
      fate (S.charge sv C [l]) ls (if r.id = l.leaseID then (S.verdict sv (S.charge sv C [l]) l).judge S.now r else r)

theorem judgeAll_eq (C : Id × Int → Option Int) (ls : List DB.ActiveLease) (rows : List Lease) :
    S.judgeAll sv C ls rows = rows.map (S.fate sv C ls) := by
  induction ls generalizing C rows with
  | nil => exact (List.map_id _).symm
  | cons l ls ih =>
      rw [judgeAll, ih, judged, List.map_map]
      rfl

theorem charge_append (ls ls' : List DB.ActiveLease) :
    S.charge sv C (ls ++ ls') = S.charge sv (S.charge sv C ls) ls' := List.foldl_append ..

theorem fate_append (ls ls' : List DB.ActiveLease) (r : Lease) :
    S.fate sv C (ls ++ ls') r = S.fate sv (S.charge sv C ls) ls' (S.fate sv C ls r) := by
  induction ls generalizing C r with
  | nil => rfl
  | cons l ls ih => exact ih _

theorem fate_of_notMem (h : ∀ l ∈ ls, l.leaseID ≠ r.id) : S.fate sv C ls r = r := by
  induction ls generalizing C with
  | nil => rfl
  | cons l ls ih =>
      rw [fate, if_neg fun heq => h l List.mem_cons_self heq.symm]
      exact ih fun l' hl' => h l' (List.mem_cons_of_mem _ hl')

theorem judge_id (v : Verdict) (now : Time) (r : Lease) : (v.judge now r).id = r.id := by
  cases v with
  | kept => rfl
  | renewed ttl => rfl
  | ended reason =>
      unfold Verdict.judge
      split_ifs <;> rfl

/-- A lease is judged once, by the counters as its round finds them. -/
theorem fate_mem {pre post : List DB.ActiveLease} (hid : r.id = l.leaseID)
    (hpre : ∀ l' ∈ pre, l'.leaseID ≠ l.leaseID) (hpost : ∀ l' ∈ post, l'.leaseID ≠ l.leaseID) :
    S.fate sv C (pre ++ l :: post) r = (S.verdict sv (S.charge sv C (pre ++ [l])) l).judge S.now r := by
  have hfirst : S.fate sv C pre r = r := fate_of_notMem sv S (by rwa [hid])
  rw [fate_append, hfirst, fate, if_pos hid, charge_append]
  exact fate_of_notMem sv S (by rwa [judge_id, hid])

/-! ## The seconds of one org -/

def used (C : Id × Int → Option Int) (o : Id) : Int := (C (o, weekStart S.now)).getD 0

/-- The rounds of an org that exists charge it a tick each. -/
theorem used_charge (hk : S.known o = true) :
    S.used (S.charge sv C ls) o = S.used C o + sv.cfg.reaperTickSec * (ls.countP fun l => decide (l.orgID = o)) := by
  induction ls generalizing C with
  | nil => simp [charge]
  | cons l ls ih =>
      have hone : S.used (S.charge sv C [l]) o = S.used C o + if l.orgID = o then sv.cfg.reaperTickSec else 0 := by
        unfold charge used
        rw [List.foldl_cons, List.foldl_nil, bumped]
        by_cases ho : l.orgID = o
        · subst ho
          rw [if_pos (.inl hk), Function.update_self, if_pos rfl]
          rfl
        · rw [if_neg ho, Int.add_zero]
          split_ifs
          · rw [Function.update_of_ne fun h => ho (congrArg Prod.fst h).symm]
          · rfl
      have hstep : S.charge sv C (l :: ls) = S.charge sv (S.charge sv C [l]) ls := rfl
      rw [hstep, ih, hone, List.countP_cons]
      by_cases ho : l.orgID = o
      · simp only [ho, if_true, decide_true]
        push_cast
        ring
      · simp only [ho, if_false, decide_false, Bool.false_eq_true]
        push_cast
        ring

end Setting

theorem known_of_limits {o : Id} {pl : DB.PlanLimits} (h : (settingOf w).limits o = some pl) :
    (settingOf w).known o = true := by
  change DB.planLimits w.db o = some pl at h
  unfold DB.planLimits DB.planOf at h
  cases hg : (w.db .org).get? (o, 0) with
  | none =>
      rw [hg] at h
      cases h
  | some r =>
      obtain ⟨hr, hkey⟩ := Table.get?_eq_some.1 hg
      change w.db.has .org o = true
      rw [Store.has, List.any_eq_true]
      exact ⟨r, hr, by simp [hkey]⟩

/-- The seconds of an org that has a weekly cap, when the turn of one of its leases comes. -/
theorem used_before (pre : List DB.ActiveLease) (hcap : 0 < sv.cfg.capSec (DB.planLimits w.db o)) :
    (settingOf w).used ((settingOf w).charge sv (counters w.db) pre) o =
      DB.weekSeconds w.db w.now o + sv.cfg.reaperTickSec * (pre.countP fun l => decide (l.orgID = o)) := by
  cases hl : DB.planLimits w.db o with
  | none =>
      rw [hl] at hcap
      exact absurd hcap (Int.lt_irrefl 0)
  | some pl => exact (settingOf w).used_charge sv (known_of_limits hl)

/-! ## The snapshot -/

/-- The active leases, as the reaper reads them. -/
def liveLeases (s : Store) : List DB.ActiveLease :=
  ((s .lease).rows.reverse.filter fun l => decide (l.endedAt = none)).map DB.activeLeaseRow

theorem count_live (s : Store) (o : Id) :
    (liveLeases s).countP (fun l => decide (l.orgID = o)) = (DB.activeLeases s o).length := by
  rw [liveLeases, List.countP_map, List.countP_filter, List.countP_reverse, DB.activeLeases,
    ← List.countP_eq_length_filter]
  refine List.countP_congr fun l _ => ?_
  simp only [Function.comp_apply, DB.activeLeaseRow, Bool.and_eq_true, decide_eq_true_eq]
  exact and_congr decide_eq_true_iff Iff.rfl

theorem lease_ids (s : Store) : ((s .lease).rows.map (·.id)).Nodup := by
  have hpk := (s .lease).pk
  have hkeys : (s .lease).rows.map (key .lease) = ((s .lease).rows.map (·.id)).map fun i => (i, (0 : Int)) := by
    rw [List.map_map]
    rfl
  rw [hkeys] at hpk
  exact hpk.of_map _

theorem nodup_live (s : Store) : ((liveLeases s).map (·.leaseID)).Nodup := by
  have hrev : ((s .lease).rows.reverse.map (·.id)).Nodup := by
    rw [List.map_reverse]
    exact List.nodup_reverse.2 (lease_ids s)
  rw [liveLeases, List.map_map]
  exact hrev.sublist (List.filter_sublist.map _)

/-- The other leases of a snapshot have other ids. -/
theorem apart_of_nodup {l : DB.ActiveLease} {pre post : List DB.ActiveLease}
    (h : ((pre ++ l :: post).map (·.leaseID)).Nodup) :
    (∀ l' ∈ pre, l'.leaseID ≠ l.leaseID) ∧ ∀ l' ∈ post, l'.leaseID ≠ l.leaseID := by
  rw [List.map_append, List.map_cons] at h
  refine ⟨fun l' hl' heq => ?_, fun l' hl' heq => ?_⟩
  · refine List.disjoint_of_nodup_append h (List.mem_map_of_mem hl') ?_
    rw [heq]
    exact List.mem_cons_self
  · exact (List.nodup_cons.1 h.of_append_right).1 (heq ▸ List.mem_map_of_mem hl')

theorem mem_live {s : Store} {l : DB.ActiveLease} (h : l ∈ liveLeases s) :
    ∃ r ∈ (s .lease).rows, r.endedAt = none ∧ l = DB.activeLeaseRow r := by
  obtain ⟨r, hr, rfl⟩ := List.mem_map.1 h
  obtain ⟨hr, he⟩ := List.mem_filter.1 hr
  exact ⟨r, List.mem_reverse.1 hr, by simpa using he, rfl⟩

/-! ## The dunning -/

theorem safe_downgradeAll (orgs : List Id) : Prog.Safe Live (Server.downgradeAll orgs) := by
  induction orgs with
  | nil => exact .done _
  | cons org orgs ih =>
      refine Prog.Safe.bind (Prog.Safe.bind (safe_exec _ _) fun r => ?_) fun _ => ih
      cases r with
      | error e => exact .done _
      | ok _ => exact safe_exec _ _

theorem safe_dunning : Prog.Safe Live Server.dunning := by
  refine Prog.Safe.bind (safe_query _ _) fun r => ?_
  cases r with
  | error e => exact .done _
  | ok orgs => exact safe_downgradeAll orgs

/-- A pass that goes through the active leases in the order given. -/
def Server.reapOnceBy (ls : List DB.ActiveLease) : Cmd Unit := do
  Server.dunning
  sv.reapLeases ls

theorem dunning_leases (w : World) : ((Server.dunning.run w).1.db .lease).rows = (w.db .lease).rows :=
  ((Server.dunning_within (K := fun _ _ => True)).keeps w).db.rows_eq rfl fun _ => rfl

theorem run_reapOnce (hw : Live w) : sv.reapOnce.run w = (sv.reapOnceBy (liveLeases w.db)).run w := by
  obtain ⟨⟨u, hu⟩, -⟩ := safe_dunning w hw
  have hrun : Server.dunning.run w = ((Server.dunning.run w).1, some u) := Prod.ext rfl hu
  have hsame : liveLeases (Server.dunning.run w).1.db = liveLeases w.db := by
    rw [liveLeases, liveLeases, dunning_leases]
  have hby : (sv.reapOnceBy (liveLeases w.db)).run w = (sv.reapLeases (liveLeases w.db)).run (Server.dunning.run w).1 :=
    Prog.run_bind_of_eq hrun
  rw [hby, ← hsame, Server.reapOnce, Prog.bind_def, Prog.run_bind_of_eq hrun]
  rfl

/-- The world after the dunning of a pass. -/
def dunned (w : World) : World := (Server.dunning.run w).1

theorem run_reapOnceBy (hw : Live w) (ls : List DB.ActiveLease) :
    ∃ w', (sv.reapOnceBy ls).run w = (w', some ()) ∧ Passed sv ls (dunned w) w' := by
  obtain ⟨-, hlive⟩ := safe_dunning w hw
  obtain ⟨w', hrun, h⟩ := reapLeases_passed sv hlive ls
  obtain ⟨u, hu⟩ := safe_dunning.run_bind (fun _ => sv.reapLeases ls) hw
  exact ⟨w', hu.trans hrun, h⟩

theorem live_dunned (w : World) : liveLeases (dunned w).db = liveLeases w.db := by
  rw [liveLeases, liveLeases, dunned, dunning_leases]

end Apifor
