import Apifor.Lemmas.Screens
import Apifor.Theorems.Denials
import Mathlib.Algebra.Order.BigOperators.Group.List

/-!
# The usage report and the locks

`GET /v1/usage` and `tryGrant` compute the limits of an org twice: the report from the plan, the locks
also from the pool's mode. The theorem says what of the decision the report's figures tell.
-/

namespace Apifor

namespace Usage

open API (usageVal)

variable {a : API} {u : Caller} {w : World} {o wsp : Id} {pl : DB.PlanLimits}

/-! ## The figures -/

/-- The limits and the usage of a report; `maxWorkers` is null for a plan without one. -/
structure Figures where
  maxWorkers : Option Int
  activeWorkers : Int
  weekCapSeconds : Int
  weekSecondsUsed : Int
  deriving DecidableEq

def intOf : Val → Option Int
  | .int n => some n
  | _ => none

def nullable : Val → Option (Option Int)
  | .null => some none
  | .int n => some (some n)
  | _ => none

/-- What a client reads of the answer. -/
def figures : Body → Option Figures
  | .json (.obj fields) => do
      let maxWorkers ← (fields.lookup "max_workers").bind nullable
      let activeWorkers ← (fields.lookup "active_workers").bind intOf
      let weekCapSeconds ← (fields.lookup "week_cap_seconds").bind intOf
      let weekSecondsUsed ← (fields.lookup "week_seconds_used").bind intOf
      some ⟨maxWorkers, activeWorkers, weekCapSeconds, weekSecondsUsed⟩
  | _ => none

/-- The number of active workers has come to the limit. -/
def Figures.Full (f : Figures) : Prop := ∃ n, f.maxWorkers = some n ∧ n ≤ f.activeWorkers

/-- The week's hours are used up. -/
def Figures.Spent (f : Figures) : Prop := 0 < f.weekCapSeconds ∧ f.weekCapSeconds ≤ f.weekSecondsUsed

/-- The API as `main` builds it, with the overrides of the server. -/
def wired (a : API) : API :=
  { a with hoursCapOverrideSec := a.server.cfg.hoursCapOverrideSec, leaseTTLOverrideSec := a.server.cfg.leaseTTLOverrideSec }

/-- `GET /v1/usage` answers with the figures. -/
def Reports (a : API) (u : Caller) (w : World) (f : Figures) : Prop :=
  ∃ resp, (((wired a).usage u).cmd a.server.rls).run w = (w, some resp) ∧ figures resp.body = some f

theorem capOr_eq (cfg : EnforceConfig) (pl : DB.PlanLimits) :
    API.capOr pl.weeklyHours cfg.hoursCapOverrideSec 3600 = cfg.capSec (some pl) := by
  unfold API.capOr EnforceConfig.capSec
  cases h : pl.weeklyHours <;> simp [h]

/-- The figures that the report gets from the plan and the store. -/
def figuresOf (cfg : EnforceConfig) (w : World) (o : Id) (pl : DB.PlanLimits) : Figures where
  maxWorkers := pl.maxWorkers
  activeWorkers := (DB.activeLeases w.db o).length
  weekCapSeconds := cfg.capSec (some pl)
  weekSecondsUsed := DB.weekSeconds w.db w.now o

theorem figures_usageVal (pl : DB.PlanLimits) (active used : Int) :
    figures (.json (a.usageVal pl active used)) =
      some ⟨pl.maxWorkers, active, API.capOr pl.weeklyHours a.hoursCapOverrideSec 3600, used⟩ := by
  cases h : pl.maxWorkers <;>
    simp only [figures, API.usageVal, h, nullable, intOf, List.lookup_cons, String.reduceBEq, Option.bind_some,
      Option.map_some, Option.map_none, Option.getD_some, Option.getD_none, Option.bind_eq_bind]

theorem run_pooled {α : Type} (name : String) (f : Time → Store → α) (ok : α → Response) (rls : Bool) :
    ((API.pooled u name f ok).cmd rls).run w = (w, some (ok (f w.now w.db))) :=
  Prog.run_bind_of_eq (run_query name (fun now s => .ok (f now s)) w)

theorem run_usage (rls : Bool) : ((a.usage u).cmd rls).run w =
    (w, some (match DB.planLimits w.db u.orgID with
      | none => fail 500 "internal" "sem plano"
      | some pl =>
          writeJSON 200
            (a.usageVal pl (DB.activeLeases w.db u.orgID).length (DB.weekSeconds w.db w.now u.orgID)))) := by
  refine (run_pooled ..).trans ?_
  cases DB.planLimits w.db u.orgID <;> rfl

theorem reports_iff {f : Figures} : Reports a u w f ↔
    ∃ pl, DB.planLimits w.db u.orgID = some pl ∧ f = figuresOf a.server.cfg w u.orgID pl := by
  unfold Reports
  rw [run_usage]
  cases hpl : DB.planLimits w.db u.orgID with
  | none =>
      refine ⟨?_, fun ⟨pl, h, _⟩ => nomatch h⟩
      rintro ⟨resp, hrun, hf⟩
      cases hrun
      cases hf
  | some pl =>
      have hfig := figures_usageVal (a := wired a) pl (DB.activeLeases w.db u.orgID).length
        (DB.weekSeconds w.db w.now u.orgID)
      rw [show (wired a).hoursCapOverrideSec = a.server.cfg.hoursCapOverrideSec from rfl, capOr_eq] at hfig
      constructor
      · rintro ⟨resp, hrun, hf⟩
        cases hrun
        exact ⟨pl, rfl, Option.some.inj (hf.symm.trans hfig)⟩
      · rintro ⟨pl', h, rfl⟩
        cases h
        exact ⟨_, rfl, hfig⟩

/-! ## The decision -/

/-- The request is denied with the reason. -/
def Denied (sv : Server) (w : World) (o wsp : Id) (reason : String) : Prop :=
  ((sv.tryGrant o wsp).run w).2 = some (.error reason)

/-- In mode `pinned` the active workers have come to the summed concurrency of the pinned ones. -/
def Lowered (s : Store) (o : Id) (f : Figures) : Prop :=
  DB.modeOf s o = "pinned" ∧ DB.concurrencyOf s o ≤ f.activeWorkers

theorem grant_error (sv : Server) {reason : String} (h : ((sv.grant o wsp pl).run w).2 = some (.error reason)) :
    reason = "internal" := by
  unfold Server.grant at h
  rw [Prog.bind_def, Prog.run_bind] at h
  split at h
  · next r _ =>
      cases r with
      | error e =>
          cases h
          rfl
      | ok g =>
          have hend : ∀ v : World, ((do
              let _ ← DB.recordUsage o g.workerID g.leaseID .worker_started
              let _ ← DB.recordUsage o g.workerID g.leaseID .lease_issued
              pure (.ok { leaseId := g.leaseID, workerId := g.workerID, expiresAt := g.expMs,
                          autoRenew := decide (pl.plan ≠ .free) }) : Cmd (Except String LeaseGranted)).run v).2 ≠
                some (.error reason) := by
            intro v
            rw [Prog.bind_def, Prog.run_bind]
            split
            · rw [Prog.bind_def, Prog.run_bind]
              split
              · intro hres
                cases hres
              · intro hres
                cases hres
            · intro hres
              cases hres
          exact absurd h (hend _)
  · cases h

theorem refusing_sound {α : Type} (p : Cmd α) (c : String → Nat) : p.refusing sound c = p := Prog.refusing_none p c

theorem denied_iff (sv : Server) (wsp : Id) {reason : String} (hreason : reason ≠ "internal")
    (hpaused : DB.flagOf w.db o (·.paused) = false) (hpl : DB.planLimits w.db o = some pl) :
    Denied sv w o wsp reason ↔
      (if (viewOf sound w o).full pl then some "cap"
        else if (viewOf sound w o).spent sv.cfg pl then some "hours_cap" else none) = some reason := by
  have hrun := run_tryGrant_refusing (F := sound) (w := w) (o := o) wsp sv
  have hp : (viewOf sound w o).paused = false := hpaused
  have hl : (viewOf sound w o).limits = some pl := hpl
  rw [if_neg (by simp [hp]), hl, refusing_sound, LockView.denial, if_neg (by simp [hp]), hl] at hrun
  dsimp only at hrun
  unfold Denied
  cases hd : (if (viewOf sound w o).full pl then some "cap"
      else if (viewOf sound w o).spent sv.cfg pl then some "hours_cap" else none) with
  | some d =>
      rw [hd] at hrun
      rw [show (sv.tryGrant o wsp).run w = _ from hrun]
      simp
  | none =>
      rw [hd] at hrun
      obtain ⟨c, -, hgrant⟩ := hrun
      rw [hgrant, refusing_sound]
      exact iff_of_false (fun h => hreason (grant_error sv h)) fun h => by cases h

/-- The store of an installation: no limit of the seeded catalog is negative, and no worker was stored with
a negative concurrency. -/
structure Installed where
  world : World
  limits : ∀ p ∈ (world.db .planCatalog).rows, ∀ n, p.maxWorkers = some n → 0 ≤ n
  concurrency : ∀ p ∈ (world.db .pinnedWorker).rows, 0 ≤ p.concurrency

namespace Installed

theorem maxWorkers_nonneg (i : Installed) {n : Int} (hpl : DB.planLimits i.world.db o = some pl)
    (hn : pl.maxWorkers = some n) : 0 ≤ n := by
  unfold DB.planLimits at hpl
  obtain ⟨p, -, hp⟩ := Option.bind_eq_some_iff.1 hpl
  obtain ⟨c, hc, rfl⟩ := Option.map_eq_some_iff.1 hp
  exact i.limits c (Table.get?_eq_some.1 hc).1 n hn

theorem concurrencyOf_nonneg (i : Installed) (o : Id) : 0 ≤ DB.concurrencyOf i.world.db o := by
  refine List.sum_nonneg fun n hn => ?_
  obtain ⟨p, hp, rfl⟩ := List.mem_map.1 hn
  exact i.concurrency p (List.mem_filter.1 hp).1

end Installed

/-! Both functions that store a concurrency keep it so. -/

def Stored (s s' : Store) : Prop :=
  (∀ p ∈ (s .pinnedWorker).rows, 0 ≤ p.concurrency) → ∀ p ∈ (s' .pinnedWorker).rows, 0 ≤ p.concurrency

instance : IsPreorder Store Stored where
  refl _ h := h
  trans _ _ _ h h' hs := h' (h hs)

theorem clamped_nonneg (n : Int) : 0 ≤ if n < 1 then 1 else n := by split <;> omega

theorem createPinnedWorker_stored (focus repoID : String) (n : Int) (st : PinnedSettings) :
    OrgM.Each Stored (DB.createPinnedWorker (B := o) focus repoID n st) := by
  refine DB.firstWorkspace_each.bind fun wsp => (OrgM.Each.newID _).bind fun id => .tx (.bind ?_ fun _ => .pure _)
  intro sc now s s' x hx hs p hp
  rw [insert_rows (Tx.insert_ok hx)] at hp
  rcases List.mem_cons.1 hp with rfl | hp
  · exact clamped_nonneg n
  · exact hs p hp

theorem updatePinnedWorker_stored (id focus repoID : String) (n : Int) (st : PinnedSettings) :
    OrgM.Each Stored (DB.updatePinnedWorker (B := o) id focus repoID n st) := by
  refine .tx (.bind ?_ fun _ => .ite (.fail _) (.pure _))
  intro sc now s s' x hx hs p hp
  rw [update_rows (t := .pinnedWorker) hx] at hp
  obtain ⟨q, hq, rfl⟩ := List.mem_map.1 hp
  split
  · exact clamped_nonneg n
  · exact hs q hq

theorem pinnedMode_iff : (viewOf sound w o).pinnedMode = true ↔ DB.modeOf w.db o = "pinned" := by
  change decide ((DB.poolRow w.db (w.db.firstWorkspace o)).map DB.modeText = some "pinned") = true ↔
    ((DB.poolRow w.db (w.db.firstWorkspace o)).map DB.modeText).getD "pool" = "pinned"
  rw [decide_eq_true_eq]
  cases DB.poolRow w.db (w.db.firstWorkspace o) <;> simp

/-- The lock on the number of workers, in terms of the figures. -/
theorem full_iff (i : Installed) (cfg : EnforceConfig) (hpl : DB.planLimits i.world.db o = some pl) :
    (viewOf sound i.world o).full pl ↔
      (figuresOf cfg i.world o pl).Full ∨ Lowered i.world.db o (figuresOf cfg i.world o pl) := by
  have hpin : (viewOf sound i.world o).pinned = DB.concurrencyOf i.world.db o := rfl
  have hactive : (viewOf sound i.world o).active = (figuresOf cfg i.world o pl).activeWorkers := rfl
  have hconc := i.concurrencyOf_nonneg o
  have hfull : (figuresOf cfg i.world o pl).Full ↔
      0 ≤ Server.capWorkers pl ∧ Server.capWorkers pl ≤ (figuresOf cfg i.world o pl).activeWorkers := by
    unfold Figures.Full Server.capWorkers
    cases hn : pl.maxWorkers with
    | none => simp [figuresOf, hn]
    | some n => simp [figuresOf, hn, i.maxWorkers_nonneg hpl hn]
  unfold LockView.full LockView.cap Lowered
  rw [hfull, ← pinnedMode_iff, hpin, hactive]
  cases (viewOf sound i.world o).pinnedMode with
  | false => simp
  | true =>
      simp only [if_true, true_and]
      split
      · omega
      · omega

/-- The figures tell the decision, but for the pinned workers. -/
theorem usage_predicts (a : API) (i : Installed) (u : Caller) (wsp : Id) {f : Figures}
    (hpaused : DB.flagOf i.world.db u.orgID (·.paused) = false) (hf : Reports a u i.world f) :
    (Denied a.server i.world u.orgID wsp "cap" ↔ f.Full ∨ Lowered i.world.db u.orgID f) ∧
      (Denied a.server i.world u.orgID wsp "hours_cap" ↔
        ¬ (f.Full ∨ Lowered i.world.db u.orgID f) ∧ f.Spent) := by
  obtain ⟨pl, hpl, rfl⟩ := reports_iff.1 hf
  have hspent : (viewOf sound i.world u.orgID).spent a.server.cfg pl ↔
      (figuresOf a.server.cfg i.world u.orgID pl).Spent := Iff.rfl
  rw [denied_iff a.server wsp (by decide) hpaused hpl, denied_iff a.server wsp (by decide) hpaused hpl,
    ← full_iff i a.server.cfg hpl, ← hspent]
  constructor <;> split_ifs <;> simp_all

/-! ## A pool of pinned workers -/

end Usage

namespace Sample

/-- A plan of four workers, one pinned worker with concurrency 1 and one active lease. -/
def pinnedPool : Usage.Installed where
  world :=
    { db := Store.ofRows (plans ++
        [⟨.appUser, { id := "usr_a", email := "ana@a.dev", createdAt := 0 }⟩,
          ⟨.org, { id := "org_a", name := "A", ownerUserId := "usr_a", plan := .pro, createdAt := 0 }⟩,
          ⟨.workspace, { id := "wsp_a", orgId := "org_a", name := "Principal" }⟩,
          ⟨.poolConfig, { id := "pcf_a", workspaceId := "wsp_a", behavior := { mode := some "pinned" } }⟩,
          ⟨.pinnedWorker, { id := "pwk_a", orgId := "org_a", workspaceId := "wsp_a", repoId := none, focus := none }⟩,
          ⟨.workerInstance, { id := "wki_a", orgId := "org_a", workspaceId := "wsp_a" }⟩,
          ⟨.lease, { id := "lse_a", orgId := "org_a", workerInstanceId := "wki_a" }⟩]) }
  limits := by decide +kernel
  concurrency := by decide +kernel

def ownerOfA : Caller := ⟨"usr_a", "org_a", "owner"⟩

end Sample

namespace Usage

theorem reports_pinnedPool : Reports {} Sample.ownerOfA Sample.pinnedPool.world ⟨some 4, 1, 0, 0⟩ :=
  reports_iff.2 ⟨{ plan := .pro, maxWorkers := some 4, leaseTTLMin := none, weeklyHours := none }, by decide +kernel,
    by decide +kernel⟩

theorem usage_predicts_sample :
    (Denied {} Sample.pinnedPool.world "org_a" "wsp_a" "cap" ↔
      Figures.Full ⟨some 4, 1, 0, 0⟩ ∨ Lowered Sample.pinnedPool.world.db "org_a" ⟨some 4, 1, 0, 0⟩) ∧
      (Denied {} Sample.pinnedPool.world "org_a" "wsp_a" "hours_cap" ↔
        ¬ (Figures.Full ⟨some 4, 1, 0, 0⟩ ∨ Lowered Sample.pinnedPool.world.db "org_a" ⟨some 4, 1, 0, 0⟩) ∧
          Figures.Spent ⟨some 4, 1, 0, 0⟩) :=
  usage_predicts {} Sample.pinnedPool Sample.ownerOfA "wsp_a" (by decide +kernel) reports_pinnedPool

/-- The report shows one worker of four, and the next request is denied. -/
theorem usage_pinned : ¬ ∀ (a : API) (i : Installed) (u : Caller) (wsp : Id) (f : Figures),
    DB.flagOf i.world.db u.orgID (·.paused) = false → Reports a u i.world f →
      (Denied a.server i.world u.orgID wsp "cap" ↔ f.Full) ∧
        (Denied a.server i.world u.orgID wsp "hours_cap" ↔ ¬ f.Full ∧ f.Spent) := by
  intro h
  have hcap := (h {} Sample.pinnedPool Sample.ownerOfA "wsp_a" _ (by decide +kernel) reports_pinnedPool).1
  have hdenied : Denied {} Sample.pinnedPool.world "org_a" "wsp_a" "cap" := by
    unfold Denied
    decide +kernel
  obtain ⟨n, hn, hle⟩ := hcap.1 hdenied
  cases hn
  exact absurd hle (by decide)

end Usage
end Apifor
