import Apifor.Lib.Faults
import Apifor.System

/-!
# Lease requests when the database fails

The locks of `tryGrant` are queries whose errors turn into zero values, and `GrantLease` is three
statements without a transaction. `F n i` refuses the `i`-th sending of the statement `n`.
-/

namespace Apifor

variable {F : String → Nat → Option DbErr} {w : World} {o wsp : Id} {α β : Type}

/-! ## Queries that may be refused -/

/-- Nothing has been sent yet. -/
def unsent : String → Nat := fun _ => 0

/-- What the `i`-th sending of a query gives. -/
def answer (F : String → Nat → Option DbErr) (n : String) (i : Nat) (x : Except DbErr α) :
    Except DbErr α :=
  match F n i with
  | some e => .error e
  | none => x

theorem answer_map {n : String} {i : Nat} (x : Except DbErr α) (f : α → β) :
    answer F n i (x.map f) = (answer F n i x).map f := by
  unfold answer
  cases F n i <;> rfl

theorem run_answered {c : String → Nat} {n : String} {f : Time → Store → Except DbErr α}
    {k : Except DbErr α → Cmd β} :
    (((query n f).bind k).refusing F c).run w =
      ((k (answer F n (c n) (f w.now w.db))).refusing F (Prog.sentOnce c n)).run w := by
  change ((Prog.stmt n (fun w : World => (f w.now w.db).map fun a => (w, a)) k).refusing F c).run w = _
  cases hF : F n (c n) with
  | some e => rw [Prog.run_refusing_refused hF, answer, hF]
  | none =>
      rw [Prog.run_refusing_sound hF, answer, hF]
      simp only [Prog.settle]
      cases f w.now w.db <;> rfl

theorem run_wrote {c : String → Nat} {n : String} {f : Time → Store → Except DbErr (Store × α)}
    {k : Except DbErr α → Cmd β} :
    (((exec n f).bind k).refusing F c).run w =
      match answer F n (c n) (f w.now w.db) with
      | .ok r => ((k (.ok r.2)).refusing F (Prog.sentOnce c n)).run { w with db := r.1 }
      | .error e => ((k (.error e)).refusing F (Prog.sentOnce c n)).run w := by
  change ((Prog.stmt n (fun w : World => (f w.now w.db).map fun r => ({ w with db := r.1 }, r.2)) k).refusing
    F c).run w = _
  cases hF : F n (c n) with
  | some e => rw [Prog.run_refusing_refused hF, answer, hF]
  | none =>
      rw [Prog.run_refusing_sound hF, answer, hF]
      simp only [Prog.settle]
      cases f w.now w.db <;> rfl

/-! ## What the locks see -/

/-- What the queries of `tryGrant` tell it. -/
structure LockView where
  paused : Bool
  limits : Option DB.PlanLimits
  pinnedMode : Bool
  pinned : Int
  active : Int
  used : Int

namespace LockView

variable (cfg : EnforceConfig) (v : LockView) (pl : DB.PlanLimits)

/-- -1 is no cap. -/
def cap : Int :=
  if v.pinnedMode then
    if Server.capWorkers pl < 0 ∨ v.pinned < Server.capWorkers pl then v.pinned else Server.capWorkers pl
  else Server.capWorkers pl

def full : Prop := 0 ≤ v.cap pl ∧ v.cap pl ≤ v.active

def spent : Prop := 0 < cfg.capSec (some pl) ∧ cfg.capSec (some pl) ≤ v.used

instance : Decidable (v.full pl) := inferInstanceAs (Decidable (_ ∧ _))

instance : Decidable (v.spent cfg pl) := inferInstanceAs (Decidable (_ ∧ _))

/-- The reason for a denial by one of the locks. -/
def denial : Option String :=
  if v.paused then some "pool_paused"
  else
    match v.limits with
    | none => some "no_plan"
    | some pl => if v.full pl then some "cap" else if v.spent cfg pl then some "hours_cap" else none

/-- Every lock lets the request pass, under the limits of the org's plan. -/
def Passes (pl : DB.PlanLimits) : Prop := v.paused = false ∧ v.limits = some pl ∧ ¬ v.full pl ∧ ¬ v.spent cfg pl

end LockView

/-- The workspace that the `i`-th lookup of the first workspace gives. -/
def seenWorkspace (F : String → Nat → Option DbErr) (i : Nat) (s : Store) (o : Id) : Id :=
  if (F "FirstWorkspace" i).isSome then demoWspID else s.firstWorkspace o

def concurrency (s : Store) (wsp : Id) : Int :=
  (((s .pinnedWorker).rows.filter fun p => decide (p.workspaceId = wsp) && p.settings.enabled.getD true).map
    (·.concurrency)).sum

def isPaused (s : Store) (wsp : Id) : Bool := ((DB.poolRow s wsp).map fun c => c.behavior.paused.getD false).getD false

def isPinned (s : Store) (wsp : Id) : Bool := decide ((DB.poolRow s wsp).map DB.modeText = some "pinned")

def viewOf (F : String → Nat → Option DbErr) (w : World) (o : Id) : LockView where
  paused := if (F "poolFlag" 0).isSome then false else isPaused w.db (seenWorkspace F 0 w.db o)
  limits := if (F "GetPlanLimits" 0).isSome then none else DB.planLimits w.db o
  pinnedMode := if (F "PoolMode" 0).isSome then false else isPinned w.db (seenWorkspace F 1 w.db o)
  pinned := if (F "PinnedConcurrency" 0).isSome then 0 else concurrency w.db (seenWorkspace F 2 w.db o)
  active := if (F "ActiveLeaseCount" 0).isSome then 0 else (DB.activeLeases w.db o).length
  used := if (F "WeekSecondsUsed" 0).isSome then 0 else DB.weekSeconds w.db w.now o

/-! ## The queries one by one -/

section Queries

variable {c : String → Nat}

theorem run_firstWorkspace_refusing (k : Id → Cmd β) :
    (((DB.firstWorkspace o).bind k).refusing F c).run w =
      ((k (seenWorkspace F (c "FirstWorkspace") w.db o)).refusing F (Prog.sentOnce c "FirstWorkspace")).run w := by
  rw [DB.firstWorkspace, Prog.bind_def, Prog.bind_assoc, run_answered]
  unfold answer seenWorkspace Store.firstWorkspace
  cases F "FirstWorkspace" (c "FirstWorkspace") with
  | some e => rfl
  | none => cases (oldest (fun v => decide (v.orgId = o)) (w.db .workspace).rows).map (·.id) <;> rfl

theorem run_poolPaused_refusing (k : Bool → Cmd β) :
    (((DB.poolPaused o).bind k).refusing F c).run w =
      ((k (if (F "poolFlag" (c "poolFlag")).isSome then false
        else isPaused w.db (seenWorkspace F (c "FirstWorkspace") w.db o))).refusing F
          (Prog.sentOnce (Prog.sentOnce c "FirstWorkspace") "poolFlag")).run w := by
  rw [DB.poolPaused, DB.poolFlag, Prog.bind_def, Prog.bind_assoc, run_firstWorkspace_refusing, Prog.bind_def,
    Prog.bind_assoc, run_answered, Prog.sentOnce_of_ne (by decide)]
  unfold answer isPaused
  cases F "poolFlag" (c "poolFlag") with
  | some e => rfl
  | none => cases DB.poolRow w.db (seenWorkspace F (c "FirstWorkspace") w.db o) <;> rfl

theorem run_poolMode_refusing (k : String → Cmd β) :
    ∃ mode, (mode = "pinned" ↔ (if (F "PoolMode" (c "PoolMode")).isSome then false
        else isPinned w.db (seenWorkspace F (c "FirstWorkspace") w.db o)) = true) ∧
      (((DB.poolMode o).bind k).refusing F c).run w =
        ((k mode).refusing F (Prog.sentOnce (Prog.sentOnce c "FirstWorkspace") "PoolMode")).run w := by
  rw [DB.poolMode, Prog.bind_def, Prog.bind_assoc, run_firstWorkspace_refusing, Prog.bind_def, Prog.bind_assoc,
    run_answered, Prog.sentOnce_of_ne (by decide)]
  unfold answer isPinned
  cases F "PoolMode" (c "PoolMode") with
  | some e => exact ⟨"pool", by simp, rfl⟩
  | none =>
      cases DB.poolRow w.db (seenWorkspace F (c "FirstWorkspace") w.db o) with
      | none => exact ⟨"pool", by simp, rfl⟩
      | some p => exact ⟨if DB.modeText p = "" then "pool" else DB.modeText p, by split <;> simp_all, rfl⟩

theorem run_pinnedConcurrency_refusing (k : Int → Cmd β) :
    (((DB.pinnedConcurrency o).bind k).refusing F c).run w =
      ((k (if (F "PinnedConcurrency" (c "PinnedConcurrency")).isSome then 0
        else concurrency w.db (seenWorkspace F (c "FirstWorkspace") w.db o))).refusing F
          (Prog.sentOnce (Prog.sentOnce c "FirstWorkspace") "PinnedConcurrency")).run w := by
  rw [DB.pinnedConcurrency, Prog.bind_def, Prog.bind_assoc, run_firstWorkspace_refusing, read, Prog.bind_def,
    Prog.bind_assoc, run_answered, Prog.sentOnce_of_ne (by decide)]
  unfold answer concurrency
  cases F "PinnedConcurrency" (c "PinnedConcurrency") <;> rfl

theorem run_activeLeaseCount_refusing (k : Int → Cmd β) :
    (((DB.activeLeaseCount o).bind k).refusing F c).run w =
      ((k (if (F "ActiveLeaseCount" (c "ActiveLeaseCount")).isSome then 0
        else ((DB.activeLeases w.db o).length : Int))).refusing F (Prog.sentOnce c "ActiveLeaseCount")).run w := by
  rw [DB.activeLeaseCount, read, Prog.bind_def, Prog.bind_assoc, run_answered]
  unfold answer
  cases F "ActiveLeaseCount" (c "ActiveLeaseCount") <;> rfl

theorem run_weekSecondsUsed_refusing (k : Int → Cmd β) :
    (((DB.weekSecondsUsed o).bind k).refusing F c).run w =
      ((k (if (F "WeekSecondsUsed" (c "WeekSecondsUsed")).isSome then 0
        else DB.weekSeconds w.db w.now o)).refusing F (Prog.sentOnce c "WeekSecondsUsed")).run w := by
  rw [DB.weekSecondsUsed, Prog.bind_def, Prog.bind_assoc, run_answered]
  unfold answer
  cases F "WeekSecondsUsed" (c "WeekSecondsUsed") <;> rfl

theorem run_getPlanLimits_refusing (k : Except DbErr (Option DB.PlanLimits) → Cmd β) :
    (((DB.getPlanLimits o).bind k).refusing F c).run w =
      ((k (answer F "GetPlanLimits" (c "GetPlanLimits") (.ok (DB.planLimits w.db o)))).refusing F
        (Prog.sentOnce c "GetPlanLimits")).run w := by
  rw [DB.getPlanLimits, read, run_answered]

end Queries

/-! ## The decision -/

/-- The queries of the locks. -/
def lockQueries : List String :=
  ["FirstWorkspace", "poolFlag", "GetPlanLimits", "PoolMode", "PinnedConcurrency", "ActiveLeaseCount",
    "WeekSecondsUsed"]

/-- Only queries of the locks have been sent. -/
def OnlyLocks (c : String → Nat) : Prop := ∀ n, n ∉ lockQueries → c n = 0

theorem OnlyLocks.sent {c : String → Nat} (h : OnlyLocks c) {n : String} (hn : n ∈ lockQueries) :
    OnlyLocks (Prog.sentOnce c n) := fun m hm => by
  rw [Prog.sentOnce_of_ne fun heq : m = n => hm (by rw [heq]; exact hn)]
  exact h m hm

theorem onlyLocks_unsent : OnlyLocks unsent := fun _ _ => rfl

section Decision

variable (sv : Server) {pl : DB.PlanLimits} {c : String → Nat}

/-- A request ends with the denial `d`, or comes to the grant with nothing but the locks' queries sent. -/
def Decides (F : String → Nat → Option DbErr) (w : World) (o wsp : Id) (pl : DB.PlanLimits) (d : Option String)
    (out : World × Option (Except String LeaseGranted)) : Prop :=
  match d with
  | some reason => out = (w, some (.error reason))
  | none => ∃ c, OnlyLocks c ∧ out = ((sv.grant o wsp pl).refusing F c).run w

/-- The weekly lock. -/
theorem run_grantInHours_refusing (hc : OnlyLocks c) (hw : c "WeekSecondsUsed" = 0) :
    Decides sv F w o wsp pl (if (viewOf F w o).spent sv.cfg pl then some "hours_cap" else none)
      (((sv.grantInHours o wsp pl).refusing F c).run w) := by
  unfold Server.grantInHours
  dsimp only
  by_cases hcap : sv.cfg.capSec (some pl) > 0
  · rw [if_pos hcap, Prog.bind_def, run_weekSecondsUsed_refusing, hw]
    change Decides sv F w o wsp pl _ (((if (viewOf F w o).used ≥ sv.cfg.capSec (some pl) then
      Prog.done (Except.error "hours_cap") else sv.grant o wsp pl).refusing F _).run w)
    by_cases hused : (viewOf F w o).used ≥ sv.cfg.capSec (some pl)
    · rw [if_pos hused, if_pos ⟨hcap, hused⟩]
      rfl
    · rw [if_neg hused, if_neg fun h => hused h.2]
      exact ⟨_, hc.sent (n := "WeekSecondsUsed") (by decide), rfl⟩
  · rw [if_neg hcap, if_neg fun h => hcap h.1]
    exact ⟨c, hc, rfl⟩

/-- The number of workers that the next lock compares with. -/
theorem run_effectiveCap_refusing {pl : DB.PlanLimits} (hc : OnlyLocks c) (h1 : c "FirstWorkspace" = 1)
    (hm : c "PoolMode" = 0) (hp : c "PinnedConcurrency" = 0) (ha : c "ActiveLeaseCount" = 0)
    (hw : c "WeekSecondsUsed" = 0) (k : Int → Cmd β) :
    ∃ c', OnlyLocks c' ∧ c' "ActiveLeaseCount" = 0 ∧ c' "WeekSecondsUsed" = 0 ∧
      (((Server.effectiveCap o pl).bind k).refusing F c).run w =
        ((k ((viewOf F w o).cap pl)).refusing F c').run w := by
  obtain ⟨mode, hmode, hrun⟩ := run_poolMode_refusing (F := F) (w := w) (o := o) (c := c) fun mode =>
    (if mode = "pinned" then do
        let pc ← DB.pinnedConcurrency o
        pure (if Server.capWorkers pl < 0 ∨ pc < Server.capWorkers pl then pc else Server.capWorkers pl)
      else pure (Server.capWorkers pl) : Cmd Int).bind k
  rw [Server.effectiveCap, Prog.bind_def, Prog.bind_assoc, hrun]
  rw [h1, hm] at hmode
  have hcs := (hc.sent (n := "FirstWorkspace") (by decide)).sent (n := "PoolMode") (by decide)
  by_cases hpin : mode = "pinned"
  · have hv : (viewOf F w o).pinnedMode = true := hmode.1 hpin
    have hcs' := (hcs.sent (n := "FirstWorkspace") (by decide)).sent (n := "PinnedConcurrency") (by decide)
    refine ⟨_, hcs', ?_, ?_, ?_⟩
    · simpa [Prog.sentOnce_of_ne] using ha
    · simpa [Prog.sentOnce_of_ne] using hw
    · have h2 : Prog.sentOnce (Prog.sentOnce c "FirstWorkspace") "PoolMode" "FirstWorkspace" = 2 := by
        rw [Prog.sentOnce_of_ne (by decide), Prog.sentOnce_same, h1]
      have h0 : Prog.sentOnce (Prog.sentOnce c "FirstWorkspace") "PoolMode" "PinnedConcurrency" = 0 := by
        rw [Prog.sentOnce_of_ne (by decide), Prog.sentOnce_of_ne (by decide), hp]
      rw [if_pos hpin, Prog.bind_def, Prog.bind_assoc, run_pinnedConcurrency_refusing, h2, h0]
      change ((k (if Server.capWorkers pl < 0 ∨ (viewOf F w o).pinned < Server.capWorkers pl then
        (viewOf F w o).pinned else Server.capWorkers pl)).refusing F _).run w = _
      rw [LockView.cap, if_pos hv]
  · have hv : ¬ (viewOf F w o).pinnedMode = true := fun h => hpin (hmode.2 h)
    refine ⟨_, hcs, ?_, ?_, ?_⟩
    · simpa [Prog.sentOnce_of_ne] using ha
    · simpa [Prog.sentOnce_of_ne] using hw
    · rw [if_neg hpin, LockView.cap, if_neg hv]
      rfl

/-- The lock on the number of workers, and the ones after it. -/
theorem run_grantCapped_refusing (hc : OnlyLocks c) (ha : c "ActiveLeaseCount" = 0) (hw : c "WeekSecondsUsed" = 0) :
    Decides sv F w o wsp pl
      (if (viewOf F w o).full pl then some "cap"
        else if (viewOf F w o).spent sv.cfg pl then some "hours_cap" else none)
      (((do
        if (viewOf F w o).cap pl ≥ 0 then do
          let n ← DB.activeLeaseCount o
          if n ≥ (viewOf F w o).cap pl then pure (.error "cap") else sv.grantInHours o wsp pl
        else sv.grantInHours o wsp pl : Cmd (Except String LeaseGranted)).refusing F c).run w) := by
  by_cases hcap : (viewOf F w o).cap pl ≥ 0
  · rw [if_pos hcap, Prog.bind_def, run_activeLeaseCount_refusing, ha]
    change Decides sv F w o wsp pl _ (((if (viewOf F w o).active ≥ (viewOf F w o).cap pl then
      Prog.done (Except.error "cap") else sv.grantInHours o wsp pl).refusing F _).run w)
    by_cases hfull : (viewOf F w o).active ≥ (viewOf F w o).cap pl
    · rw [if_pos hfull, if_pos ⟨hcap, hfull⟩]
      rfl
    · rw [if_neg hfull, if_neg fun h => hfull h.2]
      refine run_grantInHours_refusing sv (hc.sent (n := "ActiveLeaseCount") (by decide)) ?_
      rwa [Prog.sentOnce_of_ne (by decide)]
  · rw [if_neg hcap, if_neg fun h => hcap h.1]
    exact run_grantInHours_refusing sv hc hw

variable (wsp) in
/-- The program of `tryGrant` once the pause flag is read. -/
theorem run_tryGrant_unpaused :
    ((sv.tryGrant o wsp).refusing F unsent).run w =
      ((if (viewOf F w o).paused then pure (.error "pool_paused") else (DB.getPlanLimits o).bind fun r =>
        match r with
        | .ok (some pl) => (Server.effectiveCap o pl).bind fun capW => do
            if capW ≥ 0 then do
              let n ← DB.activeLeaseCount o
              if n ≥ capW then pure (.error "cap") else sv.grantInHours o wsp pl
            else sv.grantInHours o wsp pl
        | _ => pure (.error "no_plan") : Cmd (Except String LeaseGranted)).refusing F
          (Prog.sentOnce (Prog.sentOnce unsent "FirstWorkspace") "poolFlag")).run w := by
  rw [Server.tryGrant, Prog.bind_def, run_poolPaused_refusing]
  rfl

variable (wsp) in
/-- The answer of the locks is what their queries let them see. -/
theorem run_tryGrant_refusing :
    if (viewOf F w o).paused then
      ((sv.tryGrant o wsp).refusing F unsent).run w = (w, some (.error "pool_paused"))
    else match (viewOf F w o).limits with
      | none => ((sv.tryGrant o wsp).refusing F unsent).run w = (w, some (.error "no_plan"))
      | some pl => Decides sv F w o wsp pl ((viewOf F w o).denial sv.cfg)
          (((sv.tryGrant o wsp).refusing F unsent).run w) := by
  have hlocks := (onlyLocks_unsent.sent (n := "FirstWorkspace") (by decide)).sent (n := "poolFlag") (by decide)
  have hsent : ∀ n, n ≠ "FirstWorkspace" → n ≠ "poolFlag" →
      Prog.sentOnce (Prog.sentOnce unsent "FirstWorkspace") "poolFlag" n = 0 := fun n h1 h2 => by
    rw [Prog.sentOnce_of_ne h2, Prog.sentOnce_of_ne h1]
    rfl
  have hrun := run_tryGrant_unpaused (F := F) (w := w) (o := o) wsp sv
  by_cases hp : (viewOf F w o).paused = true
  · rw [if_pos hp, hrun, if_pos hp]
    rfl
  · rw [if_neg hp, hrun, if_neg hp, run_getPlanLimits_refusing, hsent _ (by decide) (by decide), LockView.denial,
      if_neg hp]
    have hl : (viewOf F w o).limits = if (F "GetPlanLimits" 0).isSome then none else DB.planLimits w.db o := rfl
    unfold answer
    cases hF : F "GetPlanLimits" 0 with
    | some e =>
        rw [hF] at hl
        rw [hl]
        rfl
    | none =>
        rw [hF] at hl
        rw [hl]
        cases DB.planLimits w.db o with
        | none => rfl
        | some pl =>
            have hsent' : ∀ n, n ≠ "GetPlanLimits" → Prog.sentOnce (Prog.sentOnce (Prog.sentOnce unsent
                "FirstWorkspace") "poolFlag") "GetPlanLimits" n =
                  Prog.sentOnce (Prog.sentOnce unsent "FirstWorkspace") "poolFlag" n := fun n h => by
              rw [Prog.sentOnce_of_ne h]
            obtain ⟨c, hc, ha, hw, hcap⟩ := run_effectiveCap_refusing (F := F) (w := w) (o := o)
              (hlocks.sent (n := "GetPlanLimits") (by decide))
              (by rw [hsent' _ (by decide), Prog.sentOnce_of_ne (by decide), Prog.sentOnce_same]; rfl)
              (by rw [hsent' _ (by decide), hsent _ (by decide) (by decide)])
              (by rw [hsent' _ (by decide), hsent _ (by decide) (by decide)])
              (by rw [hsent' _ (by decide), hsent _ (by decide) (by decide)])
              (by rw [hsent' _ (by decide), hsent _ (by decide) (by decide)]) fun capW => do
              if capW ≥ 0 then do
                let n ← DB.activeLeaseCount o
                if n ≥ capW then pure (.error "cap") else sv.grantInHours o wsp pl
              else sv.grantInHours o wsp pl
            change Decides sv F w o wsp pl _ (Prog.run (Prog.refusing F _ ((Server.effectiveCap o pl).bind _)) w)
            rw [hcap]
            exact run_grantCapped_refusing sv hc ha hw

end Decision

/-! ## The grant -/

/-- The rows that `GrantLease` inserts. -/
def newWorker (w : World) (o wsp : Id) : WorkerInstance where
  id := "wki" ++ "_" ++ w.ulid w.drawn
  orgId := o
  workspaceId := wsp
  status := .running
  lastHeartbeatAt := some w.now

def newLease (w : World) (o wsp : Id) (ttlSec : Int) (autoRenew : Bool) : Lease where
  id := "lse" ++ "_" ++ w.ulid (w.drawn + 1)
  orgId := o
  workerInstanceId := (newWorker w o wsp).id
  expiresAt := if ttlSec > 0 then some (w.now + ttlSec * second) else none
  autoRenew := autoRenew

/-- The three statements of `GrantLease`, and what they make of the store. -/
def hired (F : String → Nat → Option DbErr) (w : World) (o wsp : Id) : Except DbErr Store :=
  answer F "GrantLease (worker_instance)" 0 (insert .all .workerInstance (newWorker w o wsp) w.db)

def leased (F : String → Nat → Option DbErr) (l : Lease) (s : Store) : Except DbErr Store :=
  answer F "GrantLease (lease)" 0 (insert .all .lease l s)

def linked (F : String → Nat → Option DbErr) (l : Lease) (s : Store) : Except DbErr Store :=
  answer F "GrantLease (link)" 0 <|
    (update .all .workerInstance (fun r => decide (r.id = l.workerInstanceId))
      (fun r => { r with leaseId := some l.id }) s).map (·.1)

/-- Where `GrantLease` stops, and whether with an error. -/
def grantedFrom (F : String → Nat → Option DbErr) (l : Lease) (s : Store) : Store × Except DbErr Unit :=
  match leased F l s with
  | .error e => (s, .error e)
  | .ok s' =>
      match linked F l s' with
      | .error e => (s', .error e)
      | .ok s'' => (s'', .ok ())

def granted (F : String → Nat → Option DbErr) (w : World) (o wsp : Id) (l : Lease) : Store × Except DbErr Unit :=
  match hired F w o wsp with
  | .error e => (w.db, .error e)
  | .ok s => grantedFrom F l s

section Grant

variable (sv : Server) {pl : DB.PlanLimits} {c : String → Nat}

/-- The lease that the plan gives. -/
def leaseFor (w : World) (o wsp : Id) (pl : DB.PlanLimits) : Lease :=
  newLease w o wsp (sv.cfg.ttlSec (some pl)) (decide (pl.plan ≠ .free))

theorem run_inserted {n : String} {t : Tbl} {r : Time → Row t} {k : Except DbErr Unit → Cmd β} {s : Store}
    (h : c n = 0) (hx : answer F n 0 (insert .all t (r w.now) w.db) = .ok s) :
    (((DB.insertRow n t r).bind k).refusing F c).run w =
      ((k (.ok ())).refusing F (Prog.sentOnce c n)).run { w with db := s } := by
  rw [DB.insertRow, run_wrote, h, answer_map, hx]
  rfl

theorem run_not_inserted {n : String} {t : Tbl} {r : Time → Row t} {k : Except DbErr Unit → Cmd β} {e : DbErr}
    (h : c n = 0) (hx : answer F n 0 (insert .all t (r w.now) w.db) = .error e) :
    (((DB.insertRow n t r).bind k).refusing F c).run w = ((k (.error e)).refusing F (Prog.sentOnce c n)).run w := by
  rw [DB.insertRow, run_wrote, h, answer_map, hx]
  rfl

theorem key_linked (leaseID : Id) (v : WorkerInstance) :
    key .workerInstance { v with leaseId := some leaseID } = key .workerInstance v := rfl

/-- `GrantLease` once the worker is in, and once the lease is in. -/
def grantLink (workerID leaseID : Id) (exp : Option Time) : Cmd (Except DbErr DB.Granted) := do
  match ← exec "GrantLease (link)" fun _ s =>
      (update .all .workerInstance (fun w => decide (w.id = workerID))
        (fun w => { w with leaseId := some leaseID }) s (key_linked leaseID)).map fun r => (r.1, ()) with
  | .error e => pure (.error e)
  | .ok () => pure (.ok { workerID := workerID, leaseID := leaseID, expMs := (exp.map fun t => t / 1000000).getD 0 })

def grantTo (o workerID : Id) (ttlSec : Int) (autoRenew : Bool) : Cmd (Except DbErr DB.Granted) := do
  let leaseID ← newID "lse"
  let now ← timeNow
  let exp := if ttlSec > 0 then some (now + ttlSec * second) else none
  match ← DB.insertRow "GrantLease (lease)" .lease fun _ =>
      { id := leaseID, orgId := o, workerInstanceId := workerID, expiresAt := exp, autoRenew := autoRenew } with
  | .error e => pure (.error e)
  | .ok () => grantLink workerID leaseID exp

theorem run_grantLink_refusing (hc : c "GrantLease (link)" = 0) (l : Lease) (k : Except DbErr DB.Granted → Cmd β) :
    ∃ c' w' g, w'.db = ((linked F l w.db).toOption.getD w.db) ∧
      (((grantLink l.workerInstanceId l.id l.expiresAt).bind k).refusing F c).run w =
        ((k ((linked F l w.db).map fun _ => g)).refusing F c').run w' := by
  rw [grantLink, Prog.bind_def, Prog.bind_assoc, run_wrote, hc, answer_map]
  unfold linked
  rw [answer_map]
  generalize answer F "GrantLease (link)" 0 (update .all .workerInstance
    (fun r => decide (r.id = l.workerInstanceId)) (fun r => { r with leaseId := some l.id }) w.db fun _ => rfl) = x
  cases x with
  | error e => exact ⟨_, _, ⟨"", "", 0⟩, rfl, rfl⟩
  | ok r => exact ⟨_, _, _, rfl, rfl⟩

theorem run_grantTo_refusing (hc : c "GrantLease (lease)" = 0) (hc' : c "GrantLease (link)" = 0) (ttlSec : Int)
    (autoRenew : Bool) (k : Except DbErr DB.Granted → Cmd β) (s : Store) :
    ∃ c' w' g, w'.db = (grantedFrom F (newLease w o wsp ttlSec autoRenew) s).1 ∧
      (((grantTo o (newWorker w o wsp).id ttlSec autoRenew).bind k).refusing F c).run
          { w with drawn := w.drawn + 1, db := s } =
        ((k ((grantedFrom F (newLease w o wsp ttlSec autoRenew) s).2.map fun _ => g)).refusing F c').run w' := by
  have hlease : (((grantTo o (newWorker w o wsp).id ttlSec autoRenew).bind k).refusing F c).run
      { w with drawn := w.drawn + 1, db := s } =
      (((DB.insertRow "GrantLease (lease)" .lease fun _ => newLease w o wsp ttlSec autoRenew).bind fun r =>
        (match r with
        | .error e => pure (.error e)
        | .ok () => grantLink (newWorker w o wsp).id (newLease w o wsp ttlSec autoRenew).id
            (newLease w o wsp ttlSec autoRenew).expiresAt : Cmd (Except DbErr DB.Granted)).bind k).refusing F c).run
              { w with drawn := w.drawn + 2, db := s } := rfl
  rw [hlease]
  unfold grantedFrom
  cases hl : leased F (newLease w o wsp ttlSec autoRenew) s with
  | error e =>
      rw [run_not_inserted hc (by exact hl)]
      exact ⟨_, _, ⟨"", "", 0⟩, rfl, rfl⟩
  | ok s' =>
      rw [run_inserted hc (by exact hl)]
      obtain ⟨c', w', g, hw', hrun⟩ := run_grantLink_refusing (F := F)
        (w := { w with drawn := w.drawn + 2, db := s' }) (c := Prog.sentOnce c "GrantLease (lease)")
        (by rw [Prog.sentOnce_of_ne (by decide), hc']) (newLease w o wsp ttlSec autoRenew) k
      dsimp only at hw' hrun ⊢
      refine ⟨c', w', g, ?_, hrun.trans ?_⟩
      · rw [hw']
        cases linked F (newLease w o wsp ttlSec autoRenew) s' <;> rfl
      · cases linked F (newLease w o wsp ttlSec autoRenew) s' <;> rfl

variable (wsp) in
theorem run_grantLease_refusing (hc : OnlyLocks c) (ttlSec : Int) (autoRenew : Bool)
    (k : Except DbErr DB.Granted → Cmd β) :
    ∃ c' w' g, w'.db = (granted F w o wsp (newLease w o wsp ttlSec autoRenew)).1 ∧
      (((DB.grantLease o wsp ttlSec autoRenew).bind k).refusing F c).run w =
        ((k ((granted F w o wsp (newLease w o wsp ttlSec autoRenew)).2.map fun _ => g)).refusing F c').run w' := by
  have hworker : (((DB.grantLease o wsp ttlSec autoRenew).bind k).refusing F c).run w =
      (((DB.insertRow "GrantLease (worker_instance)" .workerInstance fun now =>
        { newWorker w o wsp with lastHeartbeatAt := some now }).bind fun r =>
          (match r with
          | .error e => pure (.error e)
          | .ok () => grantTo o (newWorker w o wsp).id ttlSec autoRenew : Cmd (Except DbErr DB.Granted)).bind
            k).refusing F c).run { w with drawn := w.drawn + 1 } := rfl
  rw [hworker]
  unfold granted
  cases hh : hired F w o wsp with
  | error e =>
      rw [run_not_inserted (hc "GrantLease (worker_instance)" (by decide)) (by exact hh)]
      exact ⟨_, { w with drawn := w.drawn + 1 }, ⟨"", "", 0⟩, rfl, rfl⟩
  | ok s =>
      rw [run_inserted (hc "GrantLease (worker_instance)" (by decide)) (by exact hh)]
      exact run_grantTo_refusing (by rw [Prog.sentOnce_of_ne (by decide)]; exact hc _ (by decide))
        (by rw [Prog.sentOnce_of_ne (by decide)]; exact hc _ (by decide)) ttlSec autoRenew k s

/-- What `tryGrant` makes of the outcome of `GrantLease`. -/
def grantAnswer (o : Id) (pl : DB.PlanLimits) : Except DbErr DB.Granted → Cmd (Except String LeaseGranted)
  | .error _ => pure (.error "internal")
  | .ok g => do
      let _ ← DB.recordUsage o g.workerID g.leaseID .worker_started
      let _ ← DB.recordUsage o g.workerID g.leaseID .lease_issued
      pure (.ok
        { leaseId := g.leaseID, workerId := g.workerID, expiresAt := g.expMs, autoRenew := decide (pl.plan ≠ .free) })

theorem grant_eq : sv.grant o wsp pl =
    (DB.grantLease o wsp (sv.cfg.ttlSec (some pl)) (decide (pl.plan ≠ .free))).bind (grantAnswer o pl) := by
  unfold Server.grant
  refine congrArg (Prog.bind _) (funext fun r => ?_)
  cases r <;> rfl

/-- A grant that fails is answered `internal`, and the store stays as `GrantLease` left it. -/
theorem run_grant_refusing (hc : OnlyLocks c) :
    match (granted F w o wsp (leaseFor sv w o wsp pl)).2 with
    | .error _ => ∃ w', w'.db = (granted F w o wsp (leaseFor sv w o wsp pl)).1 ∧
        ((sv.grant o wsp pl).refusing F c).run w = (w', some (.error "internal"))
    | .ok _ => ∃ g, (((sv.grant o wsp pl).refusing F c).run w).2 = some (.ok g) := by
  obtain ⟨c', w', g, hw', hrun⟩ := run_grantLease_refusing (F := F) (w := w) (o := o) wsp hc
    (sv.cfg.ttlSec (some pl)) (decide (pl.plan ≠ .free)) (grantAnswer o pl)
  rw [← grant_eq] at hrun
  rw [hrun]
  unfold leaseFor
  cases hg : (granted F w o wsp (newLease w o wsp (sv.cfg.ttlSec (some pl)) (decide (pl.plan ≠ .free)))).2 with
  | error e => exact ⟨w', hw', rfl⟩
  | ok u => exact ⟨_, rfl⟩

variable (wsp) in
/-- A request that passes every lock ends as `GrantLease` does; another one is denied with a reason of a lock. -/
theorem run_tryGrant_passing (h : (viewOf F w o).Passes sv.cfg pl) :
    match (granted F w o wsp (leaseFor sv w o wsp pl)).2 with
    | .error _ => ∃ w', w'.db = (granted F w o wsp (leaseFor sv w o wsp pl)).1 ∧
        ((sv.tryGrant o wsp).refusing F unsent).run w = (w', some (.error "internal"))
    | .ok _ => ∃ g, (((sv.tryGrant o wsp).refusing F unsent).run w).2 = some (.ok g) := by
  have hrun := run_tryGrant_refusing (F := F) (w := w) (o := o) wsp sv
  rw [if_neg (by rw [h.1]; decide), h.2.1] at hrun
  have hnone : (viewOf F w o).denial sv.cfg = none := by
    rw [LockView.denial, if_neg (by rw [h.1]; decide), h.2.1]
    dsimp only
    rw [if_neg h.2.2.1, if_neg h.2.2.2]
  rw [hnone] at hrun
  obtain ⟨c, hc, hgrant⟩ := hrun
  rw [hgrant]
  exact run_grant_refusing sv hc

variable (wsp) in
theorem run_tryGrant_locked (h : ∀ pl, ¬ (viewOf F w o).Passes sv.cfg pl) :
    ∃ reason, reason ≠ "internal" ∧
      ((sv.tryGrant o wsp).refusing F unsent).run w = (w, some (.error reason)) := by
  have hrun := run_tryGrant_refusing (F := F) (w := w) (o := o) wsp sv
  by_cases hp : (viewOf F w o).paused = true
  · rw [if_pos hp] at hrun
    exact ⟨_, by decide, hrun⟩
  · rw [if_neg hp] at hrun
    cases hl : (viewOf F w o).limits with
    | none =>
        rw [hl] at hrun
        exact ⟨_, by decide, hrun⟩
    | some pl =>
        rw [hl] at hrun
        dsimp only at hrun
        have hdenial : (viewOf F w o).denial sv.cfg =
            if (viewOf F w o).full pl then some "cap"
            else if (viewOf F w o).spent sv.cfg pl then some "hours_cap" else none := by
          rw [LockView.denial, if_neg hp, hl]
        by_cases hfull : (viewOf F w o).full pl
        · rw [hdenial, if_pos hfull] at hrun
          exact ⟨_, by decide, hrun⟩
        · by_cases hspent : (viewOf F w o).spent sv.cfg pl
          · rw [hdenial, if_neg hfull, if_pos hspent] at hrun
            exact ⟨_, by decide, hrun⟩
          · exact absurd ⟨Bool.eq_false_iff.2 hp, hl, hfull, hspent⟩ (h pl)

end Grant

/-! ## Queries that fail -/

section Claims

variable (sv : Server)

/-- No statement is refused. -/
def sound : String → Nat → Option DbErr := fun _ _ => none

/-- The queries of the locks are the only statements refused. -/
def LockFaults (F : String → Nat → Option DbErr) : Prop := ∀ n i, n ∉ lockQueries → F n i = none

/-- The request of the org is granted. -/
def Grants (F : String → Nat → Option DbErr) (w : World) (o wsp : Id) : Prop :=
  ∃ g, (((sv.tryGrant o wsp).refusing F unsent).run w).2 = some (.ok g)

theorem grants_iff : Grants sv F w o wsp ↔
    ∃ pl, (viewOf F w o).Passes sv.cfg pl ∧ (granted F w o wsp (leaseFor sv w o wsp pl)).2 = .ok () := by
  by_cases h : ∃ pl, (viewOf F w o).Passes sv.cfg pl
  · obtain ⟨pl, hp⟩ := h
    have hrun := run_tryGrant_passing wsp sv hp
    have huniq : ∀ pl', (viewOf F w o).Passes sv.cfg pl' → pl' = pl := fun pl' hp' => by
      have hl := hp'.2.1
      rw [hp.2.1] at hl
      exact (Option.some.inj hl).symm
    cases hg : (granted F w o wsp (leaseFor sv w o wsp pl)).2 with
    | ok u =>
        rw [hg] at hrun
        exact ⟨fun _ => ⟨pl, hp, hg⟩, fun _ => hrun⟩
    | error e =>
        rw [hg] at hrun
        obtain ⟨w', -, hrun⟩ := hrun
        refine ⟨fun ⟨g, hgr⟩ => ?_, fun ⟨pl', hp', hok⟩ => ?_⟩
        · rw [hrun] at hgr
          cases hgr
        · rw [huniq pl' hp', hg] at hok
          cases hok
  · obtain ⟨reason, -, hrun⟩ := run_tryGrant_locked wsp sv fun pl hp => h ⟨pl, hp⟩
    refine ⟨fun ⟨g, hgr⟩ => ?_, fun ⟨pl, hp, _⟩ => absurd ⟨pl, hp⟩ h⟩
    rw [hrun] at hgr
    cases hgr

/-- The plan answers and no lock denies as the refused queries show it, though one denies by the true
answers, and the statements of `GrantLease` go through. -/
def OpenedLock (F : String → Nat → Option DbErr) (w : World) (o wsp : Id) : Prop :=
  ∃ pl, (viewOf F w o).Passes sv.cfg pl ∧
    ((viewOf sound w o).paused = true ∨ (viewOf sound w o).full pl ∨ (viewOf sound w o).spent sv.cfg pl) ∧
    (granted sound w o wsp (leaseFor sv w o wsp pl)).2 = .ok ()

theorem granted_lockFaults (hF : LockFaults F) (l : Lease) : granted F w o wsp l = granted sound w o wsp l := by
  unfold granted grantedFrom hired leased linked answer
  rw [hF "GrantLease (worker_instance)" 0 (by decide), hF "GrantLease (lease)" 0 (by decide),
    hF "GrantLease (link)" 0 (by decide)]
  rfl

/-- With failing queries a lease is granted only if it is granted without, unless they open a lock. -/
theorem grants_closed_iff (hF : LockFaults F) :
    (Grants sv F w o wsp → ∃ g, ((sv.tryGrant o wsp).run w).2 = some (.ok g)) ↔ ¬ OpenedLock sv F w o wsp := by
  have hsound : (∃ g, ((sv.tryGrant o wsp).run w).2 = some (.ok g)) ↔ Grants sv sound w o wsp := by
    change _ ↔ ∃ g, (((sv.tryGrant o wsp).refusing (fun _ _ => none) unsent).run w).2 = some (.ok g)
    rw [Prog.refusing_none]
  have hlimits : ∀ pl, (viewOf F w o).limits = some pl → (viewOf sound w o).limits = some pl := fun pl h => by
    change (if (F "GetPlanLimits" 0).isSome then none else DB.planLimits w.db o) = some pl at h
    split_ifs at h
    exact h
  rw [hsound, grants_iff, grants_iff]
  constructor
  · rintro h ⟨pl, hp, hdenies, hg⟩
    obtain ⟨pl', hp', -⟩ := h ⟨pl, hp, by rwa [granted_lockFaults hF]⟩
    have hl := hp'.2.1
    rw [hlimits pl hp.2.1] at hl
    cases hl
    rcases hdenies with hpaused | hfull | hspent
    · rw [hp'.1] at hpaused
      cases hpaused
    · exact hp'.2.2.1 hfull
    · exact hp'.2.2.2 hspent
  · rintro h ⟨pl, hp, hg⟩
    rw [granted_lockFaults hF] at hg
    by_cases hdenies :
        (viewOf sound w o).paused = true ∨ (viewOf sound w o).full pl ∨ (viewOf sound w o).spent sv.cfg pl
    · exact absurd ⟨pl, hp, hdenies, hg⟩ h
    · refine ⟨pl, ⟨Bool.eq_false_iff.2 fun hp => ?_, hlimits pl hp.2.1, fun hf => ?_, fun hs => ?_⟩, hg⟩
      · exact hdenies (.inl hp)
      · exact hdenies (.inr (.inl hf))
      · exact hdenies (.inr (.inr hs))

instance isGranted (x : Option (Except String LeaseGranted)) : Decidable (∃ g, x = some (.ok g)) :=
  match x with
  | some (.ok g) => .isTrue ⟨g, rfl⟩
  | some (.error _) => .isFalse fun ⟨_, h⟩ => by cases h
  | none => .isFalse fun ⟨_, h⟩ => by cases h

instance (F : String → Nat → Option DbErr) : Decidable (Grants sv F w o wsp) :=
  inferInstanceAs (Decidable (∃ _, _ = _))

/-! ## Statements of the grant that fail -/

/-- The rows of workers and leases are as they were. -/
def NothingLeft (w w' : World) : Prop :=
  (w'.db .workerInstance).rows = (w.db .workerInstance).rows ∧ (w'.db .lease).rows = (w.db .lease).rows

/-- Every lock passes, the worker goes in, and one of the two statements after it fails. -/
def Halfway (F : String → Nat → Option DbErr) (w : World) (o wsp : Id) : Prop :=
  ∃ pl s, (viewOf F w o).Passes sv.cfg pl ∧ hired F w o wsp = .ok s ∧
    ((leased F (leaseFor sv w o wsp pl) s).toOption = none ∨
      ∃ s', leased F (leaseFor sv w o wsp pl) s = .ok s' ∧ (linked F (leaseFor sv w o wsp pl) s').toOption = none)

theorem answer_ok {x : Except DbErr α} {n : String} {i : Nat} {a : α} (h : answer F n i x = .ok a) : x = .ok a := by
  unfold answer at h
  split at h
  · cases h
  · exact h

/-- Once the worker is in, the lease's insert does not take it away. -/
theorem grantedFrom_worker {s : Store} {l : Lease} {e : DbErr} (h : (grantedFrom F l s).2 = .error e) :
    (grantedFrom F l s).1 .workerInstance = s .workerInstance ∧
      ((leased F l s).toOption = none ∨ ∃ s', leased F l s = .ok s' ∧ (linked F l s').toOption = none) := by
  unfold grantedFrom at h ⊢
  cases hl : leased F l s with
  | error e' => exact ⟨rfl, .inl rfl⟩
  | ok s' =>
      rw [hl] at h
      dsimp only at h ⊢
      cases hk : linked F l s' with
      | error e' => exact ⟨insert_other (answer_ok hl) (by decide), .inr ⟨s', rfl, by rw [hk]; rfl⟩⟩
      | ok s'' =>
          rw [hk] at h
          cases h

theorem grantedFrom_halfway {s : Store} {l : Lease}
    (h : (leased F l s).toOption = none ∨ ∃ s', leased F l s = .ok s' ∧ (linked F l s').toOption = none) :
    ∃ e, (grantedFrom F l s).2 = .error e := by
  unfold grantedFrom
  rcases h with h | ⟨s', h, h'⟩
  · cases hl : leased F l s with
    | error e => exact ⟨e, rfl⟩
    | ok s' =>
        rw [hl] at h
        cases h
  · rw [h]
    dsimp only
    cases hk : linked F l s' with
    | error e => exact ⟨e, rfl⟩
    | ok s'' =>
        rw [hk] at h'
        cases h'

/-- A grant answered `internal` leaves nothing behind, unless it stopped halfway. -/
theorem internal_clean_iff :
    ((((sv.tryGrant o wsp).refusing F unsent).run w).2 = some (.error "internal") →
      NothingLeft w (((sv.tryGrant o wsp).refusing F unsent).run w).1 ∧
        DB.activeLeases (((sv.tryGrant o wsp).refusing F unsent).run w).1.db o = DB.activeLeases w.db o) ↔
      ¬ Halfway sv F w o wsp := by
  constructor
  · rintro h ⟨pl, s, hp, hh, hstop⟩
    have hrun := run_tryGrant_passing wsp sv hp
    obtain ⟨e, he⟩ := grantedFrom_halfway hstop
    have hworker := (grantedFrom_worker he).1
    have hgr : granted F w o wsp (leaseFor sv w o wsp pl) = grantedFrom F (leaseFor sv w o wsp pl) s := by
      rw [granted, hh]
    rw [hgr, he] at hrun
    obtain ⟨w', hw', hrun⟩ := hrun
    rw [hrun] at h
    have hrows := (h rfl).1.1
    rw [hw', hworker, insert_rows (answer_ok hh)] at hrows
    exact absurd (congrArg List.length hrows) (by simp)
  · intro h hint
    by_cases hp : ∃ pl, (viewOf F w o).Passes sv.cfg pl
    · obtain ⟨pl, hp⟩ := hp
      have hrun := run_tryGrant_passing wsp sv hp
      cases hh : hired F w o wsp with
      | error e =>
          have hgr : granted F w o wsp (leaseFor sv w o wsp pl) = (w.db, .error e) := by rw [granted, hh]
          rw [hgr] at hrun
          obtain ⟨w', hw', hrun⟩ := hrun
          rw [hrun]
          dsimp only at hw' ⊢
          exact ⟨⟨by rw [hw'], by rw [hw']⟩, by rw [hw']⟩
      | ok s =>
          have hgr : granted F w o wsp (leaseFor sv w o wsp pl) = grantedFrom F (leaseFor sv w o wsp pl) s := by
            rw [granted, hh]
          rw [hgr] at hrun
          cases hg : (grantedFrom F (leaseFor sv w o wsp pl) s).2 with
          | error e => exact absurd ⟨pl, s, hp, hh, (grantedFrom_worker hg).2⟩ h
          | ok u =>
              rw [hg] at hrun
              obtain ⟨g, hrun⟩ := hrun
              rw [hint] at hrun
              cases hrun
    · obtain ⟨reason, hne, hrun⟩ := run_tryGrant_locked wsp sv fun pl h => hp ⟨pl, h⟩
      rw [hrun]
      exact ⟨⟨rfl, rfl⟩, rfl⟩

end Claims

/-! ## Two failures -/

namespace Sample

/-- The free org of the sample has its only lease. -/
def taken : World := ((({} : Server).tryGrant "org_a" "wsp_a").run world).1

def broken (n : String) : String → Nat → Option DbErr := fun m _ => if m = n then some (.other "timeout") else none

end Sample

/-- The count of the active leases fails, and the org gets a second lease. -/
theorem grants_uncounted :
    LockFaults (Sample.broken "ActiveLeaseCount") ∧
      Grants {} (Sample.broken "ActiveLeaseCount") Sample.taken "org_a" "wsp_a" ∧
        ¬ ∃ g, ((({} : Server).tryGrant "org_a" "wsp_a").run Sample.taken).2 = some (.ok g) := by
  refine ⟨fun n i hn => ?_, by decide +kernel, by decide +kernel⟩
  rw [Sample.broken, if_neg fun h => hn (by rw [h]; decide)]

theorem grants_closed_iff_sample : ¬ OpenedLock {} (Sample.broken "GetPlanLimits") Sample.taken "org_a" "wsp_a" := by
  refine (grants_closed_iff {} fun n i hn => ?_).1 fun h => absurd h (by decide +kernel)
  rw [Sample.broken, if_neg fun h => hn (by rw [h]; decide)]

/-- The link of the worker to its lease fails: the request is denied and its lease stays. -/
theorem internal_unlinked :
    (((({} : Server).tryGrant "org_a" "wsp_a").refusing (Sample.broken "GrantLease (link)") unsent).run
        Sample.world).2 = some (.error "internal") ∧
      (DB.activeLeases ((({} : Server).tryGrant "org_a" "wsp_a").refusing (Sample.broken "GrantLease (link)")
        unsent |>.run Sample.world).1.db "org_a").length = 1 ∧ DB.activeLeases Sample.world.db "org_a" = [] := by
  decide +kernel

end Apifor
