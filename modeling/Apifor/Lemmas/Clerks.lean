import Apifor.Lemmas.Reaping
import Apifor.Lib.Follows

/-!
# The plans of the grant and of the reaper

What `tryGrant` and a pass of the reaper do to the leases, the workers and the usage events, step by
step: each is a plan with a few stages, and every other step leaves the three tables as they were.
-/

namespace Apifor

variable {w w' : World} {α β : Type}

/-! ## What the plans are about -/

abbrev leasesOf (w : World) : List Lease := (w.db .lease).rows

abbrev usageOf (w : World) : List UsageEvent := (w.db .usageEvent).rows

/-- The workers with their status. -/
def standing (w : World) : List (Id × WorkerStatus) := (w.db .workerInstance).rows.map fun r => (r.id, r.status)

/-- What the three tables hold after a step, at the same time. -/
structure After (w w' : World) (leases : List Lease) (usage : List UsageEvent) (workers : List (Id × WorkerStatus)) :
    Prop where
  now : w'.now = w.now
  leases : leasesOf w' = leases
  usage : usageOf w' = usage
  workers : standing w' = workers

abbrev Same (w w' : World) : Prop := After w w' (leasesOf w) (usageOf w) (standing w)

theorem Same.refl (w : World) : Same w w := ⟨rfl, rfl, rfl, rfl⟩

theorem same_of_db {s : Store} (hl : s .lease = w.db .lease) (hu : s .usageEvent = w.db .usageEvent)
    (hw : s .workerInstance = w.db .workerInstance) : Same w { w with db := s } where
  now := rfl
  leases := congrArg Table.rows hl
  usage := congrArg Table.rows hu
  workers := by simp only [standing, hw]

/-- The statements with which a grant or a revocation begins, and those that it owes then. -/
def marks : List String := ["GrantLease (worker_instance)", "EndLease", "RecordUsage"]

/-- Whether a step is none of these. -/
def Unmarked : Option String → Prop
  | some n => n ∉ marks
  | none => True

/-- A usage event of a lease. -/
def Notes (u : UsageEvent) (lease : Id) (type : UsageEventType) : Prop := u.leaseId = some lease ∧ u.type = type

instance (u : UsageEvent) (lease : Id) (type : UsageEventType) : Decidable (Notes u lease type) :=
  inferInstanceAs (Decidable (_ ∧ _))

/-! ## The grant -/

inductive GrantStage
  | asking
  | hired (worker : Id)
  | leased (lease : Id)
  | started (lease : Id)
  deriving DecidableEq

inductive GrantStep (w w' : World) : GrantStage → Option String → GrantStage → Prop
  | same {c : GrantStage} {n : Option String} (hn : Unmarked n) (h : Same w w') : GrantStep w w' c n c
  | hire (worker : Id) (hnew : ∀ x ∈ standing w, x.1 ≠ worker)
      (h : After w w' (leasesOf w) (usageOf w) ((worker, .running) :: standing w)) :
      GrantStep w w' .asking (some "GrantLease (worker_instance)") (.hired worker)
  | lease {worker : Id} (l : Lease) (hworker : l.workerInstanceId = worker)
      (hactive : l.endedAt = none ∧ l.endReason = none) (hid : l.id ≠ "") (hnew : ∀ r ∈ leasesOf w, r.id ≠ l.id)
      (h : After w w' (l :: leasesOf w) (usageOf w) (standing w)) :
      GrantStep w w' (.hired worker) (some "GrantLease (lease)") (.leased l.id)
  | start {lease : Id} (u : UsageEvent) (hu : Notes u lease .worker_started)
      (h : After w w' (leasesOf w) (u :: usageOf w) (standing w)) :
      GrantStep w w' (.leased lease) (some "RecordUsage") (.started lease)
  | issue {lease : Id} (u : UsageEvent) (hu : Notes u lease .lease_issued)
      (h : After w w' (leasesOf w) (u :: usageOf w) (standing w)) :
      GrantStep w w' (.started lease) (some "RecordUsage") .asking

/-! ## The reaper -/

/-- `since` is the reading of the clock by which the reaper decides. -/
inductive ReaperStage
  | reaping (since : Time) (ls : List DB.ActiveLease)
  | ended (l : DB.ActiveLease) (reason : LeaseEndReason) (ls : List DB.ActiveLease)
  | stopped (l : DB.ActiveLease) (ls : List DB.ActiveLease)
  | noted (l : DB.ActiveLease) (ls : List DB.ActiveLease)

/-- The reasons by which the reaper may end a lease. -/
def Warranted (since : Time) (l : DB.ActiveLease) (reason : LeaseEndReason) : Prop :=
  reason = .killed ∨ reason = .hours_cap ∨
    reason = .expired ∧ l.autoRenew = false ∧ ∃ exp, l.expiresAt = some exp ∧ exp < since

/-- `PauseWorker` or `StopWorker`. -/
def dismissed (worker : Id) (reason : LeaseEndReason) (x : Id × WorkerStatus) : Id × WorkerStatus :=
  if reason = .expired then if x.1 = worker ∧ x.2 ≠ .stopped then (x.1, .paused) else x
  else if x.1 = worker then (x.1, .stopped) else x

inductive ReaperStep (w w' : World) : ReaperStage → Option String → ReaperStage → Prop
  | same {c : ReaperStage} {n : Option String} (hn : Unmarked n) (h : Same w w') : ReaperStep w w' c n c
  | clock {since : Time} {ls : List DB.ActiveLease} (h : Same w w') : ReaperStep w w' (.reaping since ls) none (.reaping w.now ls)
  | snapshot {since : Time} {ls : List DB.ActiveLease} (h : Same w w') :
      ReaperStep w w' (.reaping since ls) (some "ActiveLeases") (.reaping since (liveLeases w.db))
  | renew {since : Time} {l : DB.ActiveLease} {ls : List DB.ActiveLease} (ttlSec : Int) (hl : l ∈ ls)
      (hauto : l.autoRenew = true)
      (h : After w w' (judged (.renewed ttlSec) since l.leaseID (leasesOf w)) (usageOf w) (standing w)) :
      ReaperStep w w' (.reaping since ls) (some "RenewLease") (.reaping since ls)
  | endLease {since : Time} {l : DB.ActiveLease} {ls all : List DB.ActiveLease} (reason : LeaseEndReason)
      (hl : l :: ls <:+ all) (hreason : Warranted since l reason)
      (h : After w w' (judged (.ended reason) w.now l.leaseID (leasesOf w)) (usageOf w) (standing w)) :
      ReaperStep w w' (.reaping since all) (some "EndLease") (.ended l reason ls)
  | dismiss {l : DB.ActiveLease} {reason : LeaseEndReason} {ls : List DB.ActiveLease} {n : Option String}
      (hn : Unmarked n) (h : After w w' (leasesOf w) (usageOf w) ((standing w).map (dismissed l.workerID reason))) :
      ReaperStep w w' (.ended l reason ls) n (.stopped l ls)
  | expire {l : DB.ActiveLease} {ls : List DB.ActiveLease} (u : UsageEvent)
      (hu : l.leaseID ≠ "" → Notes u l.leaseID .lease_expired)
      (h : After w w' (leasesOf w) (u :: usageOf w) (standing w)) :
      ReaperStep w w' (.stopped l ls) (some "RecordUsage") (.noted l ls)
  | stop {l : DB.ActiveLease} {ls : List DB.ActiveLease} (u : UsageEvent)
      (hu : l.leaseID ≠ "" → Notes u l.leaseID .worker_stopped)
      (h : After w w' (leasesOf w) (u :: usageOf w) (standing w)) :
      ReaperStep w w' (.noted l ls) (some "RecordUsage") (.reaping w.now ls)

/-! ## Steps that leave the tables alone -/

/-- The errors of statements that fail; a query that finds no row does not. -/
def DbErr.lost : DbErr → Bool
  | .noRows => false
  | _ => true

abbrev Keeps {C : Type} (step : World → World → C → Option String → C → Prop) (Q : C → α → Prop) (c : C)
    (p : Cmd α) : Prop := Prog.Follows DbErr.lost step Q c p

theorem insert_lost {sc : Scope} {t : Tbl} {r : Row t} {s : Store} {e : DbErr} (h : insert sc t r s = .error e) :
    e.lost = true := by
  unfold insert admissible at h
  split_ifs at h <;> grind [DbErr.lost]

theorem update_lost {sc : Scope} {t : Tbl} {p : Row t → Bool} {f : Row t → Row t} {s : Store}
    {hf : ∀ r, key t (f r) = key t r} {e : DbErr} (h : update sc t p f s hf = .error e) : e.lost = true := by
  simp only [update] at h
  split_ifs at h <;> cases h <;> rfl

section Still

variable {C : Type} {step : World → World → C → Option String → C → Prop} {Q : C → α → Prop} {c : C}
  (hsame : ∀ {c : C} {n : Option String} {w w' : World}, Unmarked n → Same w w' → step w w' c n c)

/-- The program stays at its stage. -/
abbrev Still (step : World → World → C → Option String → C → Prop) (c : C) (p : Cmd α) : Prop :=
  Keeps step (fun c' _ => c' = c) c p

theorem Still.done (a : α) : Still step c (.done a : Cmd α) := Prog.Follows.done rfl

theorem Still.bind {p : Cmd α} {g : α → Cmd β} (hp : Still step c p) (hg : ∀ x, Still step c (g x)) :
    Still step c (p.bind g) := Prog.Follows.bind hp fun _ x hc => hc ▸ hg x

/-- A program that stays at its stage, before one that goes on from there. -/
theorem Still.before {p : Cmd β} {g : β → Cmd α} (hp : Still step c p) (hg : ∀ x, Keeps step Q c (g x)) :
    Keeps step Q c (p.bind g) := Prog.Follows.bind hp fun _ x hc => hc ▸ hg x

include hsame

theorem still_lift {f : World → World × α} (h : ∀ w, Same w (f w).1) : Still step c (Prog.lift f) :=
  .act (fun _ => c) (fun w => hsame trivial (h w)) fun _ => .done rfl

theorem still_newID (pre : String) : Still step c (newID pre) := still_lift hsame fun _ => ⟨rfl, rfl, rfl, rfl⟩

theorem still_timeNow : Still step c timeNow := still_lift hsame Same.refl

theorem still_query {n : String} {f : Time → Store → Except DbErr α} (hn : n ∉ marks) : Still step c (query n f) := by
  refine .stmt (fun _ => c) (fun w _ => hsame hn ?_) fun w _ => .done rfl
  have hsettle : (Prog.settle (fun w : World => (f w.now w.db).map fun a => (w, a)) w).1 = w := by
    unfold Prog.settle
    cases hf : f w.now w.db <;> simp [hf, Except.map]
  rw [hsettle]
  exact Same.refl w

theorem still_exec {n : String} {f : Time → Store → Except DbErr (Store × α)} (hn : n ∉ marks)
    (h : ∀ w s a, f w.now w.db = .ok (s, a) → Same w { w with db := s }) : Still step c (exec n f) := by
  refine .stmt (fun _ => c) (fun w _ => hsame hn ?_) fun w _ => .done rfl
  unfold Prog.settle
  cases hf : f w.now w.db with
  | error e => simpa only [hf, Except.map] using Same.refl w
  | ok r => simpa only [hf, Except.map] using h w r.1 r.2 hf

/-! The reads of the locks, and what else the two do beside the three tables. -/

theorem still_firstWorkspace (org : Id) : Still step c (DB.firstWorkspace org) := by
  refine .bind (still_query hsame (by decide)) fun x => ?_
  cases x <;> exact Still.done _

theorem still_poolFlag (org : Id) (flag : PoolBehavior → Option Bool) : Still step c (DB.poolFlag org flag) := by
  refine .bind (still_firstWorkspace hsame org) fun wsp => .bind (still_query hsame (by decide)) fun x => ?_
  cases x <;> exact Still.done _

theorem still_poolMode (org : Id) : Still step c (DB.poolMode org) := by
  refine .bind (still_firstWorkspace hsame org) fun wsp => .bind (still_query hsame (by decide)) fun x => ?_
  cases x <;> exact Still.done _

theorem still_pinnedConcurrency (org : Id) : Still step c (DB.pinnedConcurrency org) := by
  refine .bind (still_firstWorkspace hsame org) fun wsp => .bind (still_query hsame (by decide)) fun x => ?_
  cases x <;> exact Still.done _

theorem still_effectiveCap (org : Id) (pl : DB.PlanLimits) : Still step c (Server.effectiveCap org pl) := by
  refine .bind (still_poolMode hsame org) fun mode => ?_
  by_cases hmode : mode = "pinned"
  · rw [if_pos hmode]
    exact .bind (still_pinnedConcurrency hsame org) fun pc => Still.done _
  · rw [if_neg hmode]
    exact Still.done _

theorem still_activeLeaseCount (org : Id) : Still step c (DB.activeLeaseCount org) := by
  refine .bind (still_query hsame (by decide)) fun x => ?_
  cases x <;> exact Still.done _

theorem still_weekSecondsUsed (org : Id) : Still step c (DB.weekSecondsUsed org) := by
  refine .bind (still_query hsame (by decide)) fun x => ?_
  cases x <;> exact Still.done _

theorem still_orgHasRevokedDevice (org : Id) : Still step c (DB.orgHasRevokedDevice org) := by
  refine .bind (still_query hsame (by decide)) fun x => ?_
  cases x <;> exact Still.done _

theorem still_getPlanLimits (org : Id) : Still step c (DB.getPlanLimits org) :=
  still_query (n := "GetPlanLimits") (f := fun _ s => .ok (DB.planLimits s org)) hsame (by decide)

theorem still_insert {n : String} {t : Tbl} {r : Time → Row t} (hn : n ∉ marks)
    (ht : t ≠ .lease ∧ t ≠ .usageEvent ∧ t ≠ .workerInstance) : Still step c (DB.insertRow n t r) :=
  still_exec hsame hn fun w s a h => by
    obtain ⟨s', hi, heq⟩ := map_eq_ok h
    cases heq
    exact same_of_db (insert_other hi (Ne.symm ht.1)) (insert_other hi (Ne.symm ht.2.1)) (insert_other hi (Ne.symm ht.2.2))

theorem still_addWorkerSeconds (org : Id) (sec : Int) : Still step c (DB.addWorkerSeconds org sec) :=
  still_exec hsame (by decide) fun w s a h => by
    split at h
    · obtain ⟨s', hu, heq⟩ := map_eq_ok h
      cases heq
      exact same_of_db (update_other hu (by decide)) (update_other hu (by decide)) (update_other hu (by decide))
    · obtain ⟨s', hi, heq⟩ := map_eq_ok h
      cases heq
      exact same_of_db (insert_other hi (by decide)) (insert_other hi (by decide)) (insert_other hi (by decide))

theorem still_hubSend (org : Id) (env : Envelope) : Still step c (hubSend org env) := by
  refine .act (fun _ => c) (fun w => hsame trivial (Same.refl w)) fun w => ?_
  cases w.hub.byOrg org with
  | none => exact Still.done _
  | some n =>
      refine .act (fun _ => c) (fun w' => hsame trivial ?_) fun w' => ?_
      · unfold World.trySend
        dsimp only
        split_ifs <;> exact ⟨rfl, rfl, rfl, rfl⟩
      · cases (w'.trySend org n env).2 with
        | none => exact .crash
        | some ok => exact Still.done _

theorem still_createNotification (org ntype title body link : String) :
    Still step c (DB.createNotification org ntype title body link) := by
  refine .bind (still_query hsame (by decide)) fun owner => .bind (still_newID hsame "ntf") fun id => ?_
  exact .bind (still_insert hsame (by decide) (by decide)) fun x => Still.done _

theorem still_downgradeToFree (org : Id) : Still step c (DB.downgradeToFree org) := by
  refine .bind (still_exec hsame (by decide) fun w s a h => ?_) fun x => ?_
  · obtain ⟨s', hp, heq⟩ := map_eq_ok h
    cases heq
    obtain ⟨r, hu, heq⟩ := map_eq_ok hp
    cases heq
    exact same_of_db (update_other hu (by decide)) (update_other hu (by decide)) (update_other hu (by decide))
  · cases x with
    | error e => exact Still.done _
    | ok u =>
        refine still_exec hsame (by decide) fun w s a h => ?_
        obtain ⟨r, hu, heq⟩ := map_eq_ok h
        cases heq
        exact same_of_db (update_other hu (by decide)) (update_other hu (by decide)) (update_other hu (by decide))

theorem still_downgradeAll (orgs : List Id) : Still step c (Server.downgradeAll orgs) := by
  induction orgs with
  | nil => exact Still.done _
  | cons org orgs ih => exact .bind (still_downgradeToFree hsame org) fun x => ih

theorem still_dunning : Still step c Server.dunning := by
  refine .bind (still_query hsame (by decide)) fun x => ?_
  cases x with
  | error e => exact Still.done _
  | ok orgs => exact still_downgradeAll hsame orgs

end Still

/-! ## Steps that write -/

section Write

variable {C : Type} {step : World → World → C → Option String → C → Prop} {Q : C → α → Prop} {c : C}

theorem keeps_act {f : World → World × β} {k : β → Cmd α} (next : World → C) (h : ∀ w, step w (f w).1 c none (next w))
    (hk : ∀ w, Keeps step Q (next w) (k (f w).2)) : Keeps step Q c ((Prog.lift f).bind k) := .act next h hk

theorem drawn_ne {pre s : String} : pre ++ "_" ++ s ≠ "" := by
  intro h
  have hlen := congrArg String.length h
  simp only [String.length_append] at hlen
  have : ("_" : String).length = 1 := rfl
  have : ("" : String).length = 0 := rfl
  omega

theorem keeps_newID (hsame : ∀ {c : C} {n : Option String} {w w' : World}, Unmarked n → Same w w' → step w w' c n c)
    {pre : String} {k : Id → Cmd α} (hk : ∀ id, id ≠ "" → Keeps step Q c (k id)) : Keeps step Q c ((newID pre).bind k) :=
  keeps_act (fun _ => c) (fun _ => hsame trivial ⟨rfl, rfl, rfl, rfl⟩) fun _ => hk _ drawn_ne

theorem keeps_exec {n : String} {f : Time → Store → Except DbErr (Store × β)} {k : Except DbErr β → Cmd α}
    (next : World → C) (hlost : ∀ (w : World) e, f w.now w.db = .error e → e.lost = true)
    (h : ∀ (w : World) s a, f w.now w.db = .ok (s, a) → step w { w with db := s } c (some n) (next w))
    (hk : ∀ w s a, f w.now w.db = .ok (s, a) → Keeps step Q (next w) (k (.ok a))) :
    Keeps step Q c ((exec n f).bind k) := by
  have hok : ∀ w : World, Prog.executes DbErr.lost (fun w : World => (f w.now w.db).map fun r => ({ w with db := r.1 }, r.2)) w
      = true → ∃ s a, f w.now w.db = .ok (s, a) := by
    intro w hw
    unfold Prog.executes at hw
    cases hf : f w.now w.db with
    | error e => simp [hf, Except.map, hlost w e hf] at hw
    | ok r => exact ⟨r.1, r.2, rfl⟩
  refine .stmt next (fun w hw => ?_) fun w hw => ?_
  · obtain ⟨s, a, hf⟩ := hok w hw
    simpa only [Prog.settle, hf, Except.map] using h w s a hf
  · obtain ⟨s, a, hf⟩ := hok w hw
    have hsettle : (Prog.settle (fun w : World => (f w.now w.db).map fun r => ({ w with db := r.1 }, r.2)) w).2 = .ok a := by
      simp only [Prog.settle, hf, Except.map]
    rw [hsettle]
    exact hk w s a hf

theorem keeps_insert {n : String} {t : Tbl} {r : Time → Row t} {k : Except DbErr Unit → Cmd α} (next : World → C)
    (h : ∀ (w : World) s, insert .all t (r w.now) w.db = .ok s → step w { w with db := s } c (some n) (next w))
    (hk : ∀ w, Keeps step Q (next w) (k (.ok ()))) : Keeps step Q c ((DB.insertRow n t r).bind k) := by
  refine keeps_exec next (fun w e he => ?_) (fun w s a hs => ?_) fun w s a _ => hk w
  · cases hi : insert .all t (r w.now) w.db with
    | error e' => rw [hi] at he; cases he; exact insert_lost hi
    | ok s => rw [hi] at he; cases he
  · obtain ⟨s', hi, heq⟩ := map_eq_ok hs
    cases heq
    exact h w _ hi

theorem keeps_update {n : String} {t : Tbl} {p : Row t → Bool} {f : Time → Row t → Row t}
    {hf : ∀ now r, key t (f now r) = key t r} {k : Except DbErr Unit → Cmd α} (next : World → C)
    (h : ∀ (w : World) s, (s t).rows = (w.db t).rows.map (fun r => if p r then f w.now r else r) →
      (∀ t', t' ≠ t → s t' = w.db t') → step w { w with db := s } c (some n) (next w))
    (hk : ∀ w, Keeps step Q (next w) (k (.ok ()))) :
    Keeps step Q c ((exec n fun now s => (update .all t p (f now) s (hf now)).map fun r => (r.1, ())).bind k) := by
  refine keeps_exec next (fun w e he => ?_) (fun w s a hs => ?_) fun w s a _ => hk w
  · cases hu : update .all t p (f w.now) w.db (hf w.now) with
    | error e' => rw [hu] at he; cases he; exact update_lost hu
    | ok r => rw [hu] at he; cases he
  · obtain ⟨r, hu, heq⟩ := map_eq_ok hs
    cases heq
    exact h w _ (update_rows hu) fun t' ht => update_other hu ht

theorem keeps_recordUsage (hsame : ∀ {c : C} {n : Option String} {w w' : World}, Unmarked n → Same w w' → step w w' c n c)
    {org worker lease : Id} {type : UsageEventType} {k : Except DbErr Unit → Cmd α} (next : World → C)
    (h : ∀ w w' u, (lease ≠ "" → Notes u lease type) → After w w' (leasesOf w) (u :: usageOf w) (standing w) →
      step w w' c (some "RecordUsage") (next w))
    (hk : ∀ w, Keeps step Q (next w) (k (.ok ()))) : Keeps step Q c ((DB.recordUsage org worker lease type).bind k) := by
  simp only [DB.recordUsage, Prog.bind_def, Prog.bind_assoc]
  refine Still.before (still_newID hsame "use") fun id => keeps_insert next (fun w s hi => ?_) hk
  refine h w _ _ (fun hne => ⟨by simp [DB.nullIfEmpty, hne], rfl⟩) ⟨rfl, ?_, insert_rows hi, ?_⟩
  · exact congrArg Table.rows (insert_other hi (by decide))
  · simp only [standing, insert_other hi (show Tbl.workerInstance ≠ .usageEvent by decide)]

end Write

/-! ## The grant keeps to its plan -/

/-- At its end nothing is in progress. -/
def GrantStage.idle (c : GrantStage) (_ : α) : Prop := c = .asking

theorem grantLease_keeps (org wsp : Id) (ttlSec : Int) (autoRenew : Bool) :
    Keeps GrantStep (fun c r => match r with | .ok g => c = .leased g.leaseID ∧ g.leaseID ≠ "" | .error _ => c = .asking) .asking
      (DB.grantLease org wsp ttlSec autoRenew) := by
  have hlink : "GrantLease (link)" ∉ marks := by decide
  refine keeps_newID .same fun workerID _ => ?_
  refine keeps_insert (fun _ => .hired workerID) (fun w s hi => .hire workerID ?_ ⟨rfl, ?_, ?_, ?_⟩) fun w => ?_
  · intro x hx heq
    obtain ⟨r, hr, rfl⟩ := List.mem_map.1 hx
    obtain ⟨t, ht, -⟩ := insert_eq hi
    exact Table.key_notMem_of_insert ht r hr (Prod.ext heq rfl)
  · exact congrArg Table.rows (insert_other hi (by decide))
  · exact congrArg Table.rows (insert_other hi (by decide))
  · simp only [standing, insert_rows hi, List.map_cons]
  refine keeps_newID .same fun leaseID hleaseID => Still.before (still_timeNow .same) fun now => ?_
  refine keeps_insert (fun _ => .leased leaseID) (fun w s hi => ?_) fun w => ?_
  · have hleases : After w { w with db := s } (_ :: leasesOf w) (usageOf w) (standing w) :=
      ⟨rfl, insert_rows hi, congrArg Table.rows (insert_other hi (by decide)),
        by simp only [standing, insert_other hi (show Tbl.workerInstance ≠ .lease by decide)]⟩
    refine .lease _ rfl ⟨rfl, rfl⟩ hleaseID (fun r hr heq => ?_) hleases
    obtain ⟨t, ht, -⟩ := insert_eq hi
    exact Table.key_notMem_of_insert ht r hr (Prod.ext heq rfl)
  refine keeps_update (fun _ => .leased leaseID) (fun w s hrows hother => .same (n := some "GrantLease (link)") hlink ⟨rfl, ?_, ?_, ?_⟩)
    fun w => .done ⟨rfl, hleaseID⟩
  · exact congrArg Table.rows (hother _ (by decide))
  · exact congrArg Table.rows (hother _ (by decide))
  · simp only [standing, hrows, List.map_map]
    refine List.map_congr_left fun r _ => ?_
    simp only [Function.comp_apply]
    split <;> rfl

variable (sv : Server)

theorem grant_keeps (org wsp : Id) (pl : DB.PlanLimits) : Keeps GrantStep GrantStage.idle .asking (sv.grant org wsp pl) := by
  refine (grantLease_keeps org wsp _ _).bind fun c r hc => ?_
  cases r with
  | error e => exact .done hc
  | ok g =>
      obtain ⟨rfl, hne⟩ : c = .leased g.leaseID ∧ g.leaseID ≠ "" := hc
      refine keeps_recordUsage .same (fun _ => .started g.leaseID) (fun w w' u hu h => .start u (hu hne) h) fun w => ?_
      refine keeps_recordUsage .same (fun _ => .asking) (fun w w' u hu h => .issue u (hu hne) h) fun w => ?_
      exact .done rfl

theorem grantInHours_keeps (org wsp : Id) (pl : DB.PlanLimits) :
    Keeps GrantStep GrantStage.idle .asking (sv.grantInHours org wsp pl) := by
  unfold Server.grantInHours
  dsimp only
  split
  · refine Still.before (still_weekSecondsUsed .same org) fun used => ?_
    split
    · exact .done rfl
    · exact grant_keeps sv org wsp pl
  · exact grant_keeps sv org wsp pl

theorem tryGrant_keeps (org wsp : Id) : Keeps GrantStep GrantStage.idle .asking (sv.tryGrant org wsp) := by
  refine Still.before (still_poolFlag .same org _) fun paused => ?_
  split
  · exact .done rfl
  refine Still.before (still_getPlanLimits .same org) fun r => ?_
  split
  · next pl =>
      refine Still.before (still_effectiveCap .same org pl) fun capW => ?_
      split
      · refine Still.before (still_activeLeaseCount .same org) fun n => ?_
        split
        · exact .done rfl
        · exact grantInHours_keeps sv org wsp pl
      · exact grantInHours_keeps sv org wsp pl
  · exact .done rfl

/-! ## The reaper keeps to its plan -/

/-- Between two leases, and at its end; `ls` is what is left of the snapshot. -/
def Waiting (ls : List DB.ActiveLease) (c : ReaperStage) (_ : α) : Prop :=
  ∃ since all, c = .reaping since all ∧ ls <:+ all

theorem judged_endLease (now : Time) (leaseID : Id) (reason : LeaseEndReason) (rows : List Lease) :
    (rows.map fun r => if decide (r.id = leaseID ∧ r.endedAt = none) = true then
      { r with endedAt := some now, endReason := some reason } else r) = judged (.ended reason) now leaseID rows := by
  refine List.map_congr_left fun r _ => ?_
  simp only [Verdict.judge, decide_eq_true_eq]
  split_ifs <;> tauto

theorem endLease_keeps {since : Time} {l : DB.ActiveLease} {ls all : List DB.ActiveLease} {reason : LeaseEndReason}
    (hl : l :: ls <:+ all) (hreason : Warranted since l reason) :
    Keeps ReaperStep (fun c _ => c = .ended l reason ls) (.reaping since all) (DB.endLease l.leaseID reason) := by
  unfold DB.endLease
  rw [← Prog.bind_done (exec _ _)]
  refine keeps_update (fun _ => .ended l reason ls) (fun w s hrows hother => ?_) fun w => .done rfl
  refine .endLease reason hl hreason ⟨rfl, ?_, ?_, ?_⟩
  · exact hrows.trans (judged_endLease ..)
  · exact congrArg Table.rows (hother _ (by decide))
  · simp only [standing, hother _ (show Tbl.workerInstance ≠ .lease by decide)]

theorem standing_update {s s' : Store} {p : WorkerInstance → Bool} {f : WorkerInstance → WorkerInstance}
    {g : Id × WorkerStatus → Id × WorkerStatus}
    (hrows : (s' .workerInstance).rows = (s .workerInstance).rows.map fun r => if p r then f r else r)
    (hg : ∀ r, (if p r then ((f r).id, (f r).status) else (r.id, r.status)) = g (r.id, r.status)) :
    ((s' .workerInstance).rows.map fun r => (r.id, r.status)) =
      ((s .workerInstance).rows.map fun r => (r.id, r.status)).map g := by
  rw [hrows, List.map_map, List.map_map]
  refine List.map_congr_left fun r _ => ?_
  rw [Function.comp_apply, Function.comp_apply, ← hg r]
  split <;> rfl

theorem dismiss_keeps {l : DB.ActiveLease} {reason : LeaseEndReason} {ls : List DB.ActiveLease} :
    Keeps ReaperStep (fun c _ => c = .stopped l ls) (.ended l reason ls)
      (if reason = .expired then DB.pauseWorker l.workerID else DB.stopWorker l.workerID) := by
  have hpause : "PauseWorker" ∉ marks := by decide
  have hstop : "StopWorker" ∉ marks := by decide
  split
  · next hr =>
      unfold DB.pauseWorker
      rw [← Prog.bind_done (exec _ _)]
      refine keeps_update (fun _ => .stopped l ls) (fun w s hrows hother => ?_) fun w => .done rfl
      refine .dismiss hpause ⟨rfl, congrArg Table.rows (hother _ (by decide)),
        congrArg Table.rows (hother _ (by decide)), standing_update hrows fun r => ?_⟩
      simp only [dismissed, hr, if_true, decide_eq_true_eq]
  · next hr =>
      unfold DB.stopWorker
      rw [← Prog.bind_done (exec _ _)]
      refine keeps_update (fun _ => .stopped l ls) (fun w s hrows hother => ?_) fun w => .done rfl
      refine .dismiss hstop ⟨rfl, congrArg Table.rows (hother _ (by decide)),
        congrArg Table.rows (hother _ (by decide)), standing_update hrows fun r => ?_⟩
      simp only [dismissed, hr, if_false, decide_eq_true_eq]

theorem revoke_keeps {since : Time} {l : DB.ActiveLease} {ls all : List DB.ActiveLease} {reason : LeaseEndReason}
    (hl : l :: ls <:+ all) (hreason : Warranted since l reason) :
    Keeps ReaperStep (Waiting ls) (.reaping since all) (Server.revoke l reason) := by
  refine (endLease_keeps hl hreason).bind fun c x hc => ?_
  obtain rfl : c = .ended l reason ls := hc
  refine dismiss_keeps.bind fun c x hc => ?_
  obtain rfl : c = .stopped l ls := hc
  refine keeps_recordUsage .same (fun _ => .noted l ls) (fun w w' u hu h => .expire u hu h) fun w => ?_
  refine keeps_recordUsage .same (fun w => .reaping w.now ls) (fun w w' u hu h => .stop u hu h) fun w => ?_
  refine Still.before (still_hubSend .same _ _) fun x => Still.before (still_hubSend .same _ _) fun x => ?_
  exact (still_createNotification .same _ _ _ _ _).mono fun c _ hc => ⟨_, _, hc, List.suffix_rfl⟩

theorem renewLease_keeps {since : Time} {l : DB.ActiveLease} {ls all : List DB.ActiveLease} (hl : l :: ls <:+ all)
    (hauto : l.autoRenew = true) (ttlSec : Int) :
    Keeps ReaperStep (Waiting ls) (.reaping since all) (DB.renewLease l.leaseID ttlSec) := by
  have hls : ls <:+ all := (List.suffix_cons l ls).trans hl
  refine keeps_act (fun w => .reaping w.now all) (fun w => .clock (Same.refl w)) fun w => ?_
  dsimp only
  rw [← Prog.bind_done (exec _ _)]
  refine keeps_update (fun _ => .reaping w.now all) (fun w' s hrows hother => ?_) fun w' => .done ⟨_, _, rfl, hls⟩
  refine .renew ttlSec (hl.subset List.mem_cons_self) hauto ⟨rfl, ?_, ?_, ?_⟩
  · refine Eq.trans hrows (List.map_congr_left fun r _ => ?_)
    simp only [Verdict.judge, decide_eq_true_eq]
  · exact congrArg Table.rows (hother _ (by decide))
  · simp only [standing, hother _ (show Tbl.workerInstance ≠ .lease by decide)]

theorem reapTTL_keeps {since : Time} {l : DB.ActiveLease} {ls all : List DB.ActiveLease} (hl : l :: ls <:+ all)
    (pl : Option DB.PlanLimits) : Keeps ReaperStep (Waiting ls) (.reaping since all) (sv.reapTTL l pl) := by
  have hls : ls <:+ all := (List.suffix_cons l ls).trans hl
  unfold Server.reapTTL
  cases hexp : l.expiresAt with
  | none => exact .done ⟨_, _, rfl, hls⟩
  | some exp =>
      refine keeps_act (fun w => .reaping w.now all) (fun w => .clock (Same.refl w)) fun w => ?_
      dsimp only
      split
      · next hlate =>
          by_cases hauto : l.autoRenew = true
          · rw [if_pos hauto]
            exact (renewLease_keeps hl hauto _).bind fun c _ hc => .done hc
          · rw [if_neg hauto]
            exact revoke_keeps hl (.inr (.inr ⟨rfl, by simpa using hauto, exp, hexp, hlate⟩))
      · exact .done ⟨_, _, rfl, hls⟩

theorem reapLease_keeps {since : Time} {l : DB.ActiveLease} {ls all : List DB.ActiveLease} (hl : l :: ls <:+ all) :
    Keeps ReaperStep (Waiting ls) (.reaping since all) (sv.reapLease l) := by
  refine Still.before (still_addWorkerSeconds .same _ _) fun _ => ?_
  refine Still.before (still_orgHasRevokedDevice .same _) fun revoked => ?_
  split
  · exact revoke_keeps hl (.inl rfl)
  refine Still.before (still_getPlanLimits .same _) fun pl => ?_
  dsimp only
  split
  · refine Still.before (still_weekSecondsUsed .same _) fun used => ?_
    split
    · exact revoke_keeps hl (.inr (.inl rfl))
    · exact reapTTL_keeps sv hl _
  · exact reapTTL_keeps sv hl _

theorem reapLeases_keeps (ls : List DB.ActiveLease) {since : Time} {all : List DB.ActiveLease} (hls : ls <:+ all) :
    Keeps ReaperStep (Waiting []) (.reaping since all) (sv.reapLeases ls) := by
  induction ls generalizing since all with
  | nil => exact .done ⟨_, _, rfl, hls⟩
  | cons l ls ih =>
      refine (reapLease_keeps sv hls).bind fun c _ hc => ?_
      obtain ⟨since, all, rfl, h⟩ := hc
      exact ih h

theorem reapOnce_keeps {since : Time} {ls : List DB.ActiveLease} :
    Keeps ReaperStep (Waiting []) (.reaping since ls) sv.reapOnce := by
  refine Still.before (still_dunning .same) fun _ => ?_
  refine .stmt (fun w => .reaping since (liveLeases w.db)) (fun w _ => .snapshot (Same.refl w)) fun w _ => ?_
  exact reapLeases_keeps sv _ List.suffix_rfl

end Apifor
