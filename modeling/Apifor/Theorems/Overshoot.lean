import Apifor.Lemmas.Reaping
import Apifor.Theorems.Cap
import Apifor.Theorems.Denials
import Mathlib.Algebra.Order.Ring.Int

/-!
# The weekly cap

The reaper charges and cuts lease by lease: the leases charged before their org comes to its weekly cap
survive the pass, and are charged once more. That bounds how far an org goes past its cap.
-/

namespace Apifor

/-- What happens in a week: time goes by, the reaper makes a pass, an org requests a lease. -/
inductive Beat
  | tick (d : Nat)
  | reap
  | request (org wsp : Id)

namespace Beat

variable (sv : Server) {w w' : World} {o : Id} {es : List Beat} {l : DB.ActiveLease}

/-- Passes and requests run without interleaving. -/
def next (w : World) : Beat → World
  | .tick d => { w with now := w.now + d }
  | .reap => (sv.reapOnce.run w).1
  | .request org wsp => ((sv.tryGrant org wsp).run w).1

/-- The week does not end, and the limits of the org's plan stay as they are. -/
def Steady (o : Id) (w : World) (e : Beat) : Prop :=
  weekStart (next sv w e).now = weekStart w.now ∧ DB.planLimits (next sv w e).db o = DB.planLimits w.db o

instance (o : Id) (w : World) (e : Beat) : Decidable (Steady sv o w e) := inferInstanceAs (Decidable (_ ∧ _))

def seconds (w : World) (o : Id) : Int := DB.weekSeconds w.db w.now o

def active (w : World) (o : Id) : Nat := (DB.activeLeases w.db o).length

/-! ## The leases that survive a pass -/

/-- The lease is active after the pass. -/
def survives (w' : World) (l : DB.ActiveLease) : Bool :=
  (w'.db .lease).rows.any fun r => decide (r.id = l.leaseID ∧ r.endedAt = none)

theorem judge_active {v : Verdict} {now : Time} {r : Lease} (h : (v.judge now r).endedAt = none) :
    r.endedAt = none ∧ ∀ reason, v ≠ .ended reason := by
  cases v with
  | kept => exact ⟨h, nofun⟩
  | renewed ttl => exact ⟨h, nofun⟩
  | ended reason =>
      by_cases he : r.endedAt = none
      · rw [Verdict.judge, if_pos he] at h
        cases h
      · rw [Verdict.judge, if_neg he] at h
        exact absurd h he

theorem judge_org (v : Verdict) (now : Time) (r : Lease) : (v.judge now r).orgId = r.orgId := by
  cases v with
  | kept => rfl
  | renewed ttl => rfl
  | ended reason =>
      unfold Verdict.judge
      split_ifs <;> rfl

section Fate

variable {S : Setting} {C : Id × Int → Option Int} {ls : List DB.ActiveLease} {r : Lease}

theorem active_of_fate (h : (S.fate sv C ls r).endedAt = none) : r.endedAt = none := by
  induction ls generalizing C r with
  | nil => exact h
  | cons l ls ih =>
      have hr := ih h
      split_ifs at hr with hid
      · exact (judge_active hr).1
      · exact hr

theorem fate_id : (S.fate sv C ls r).id = r.id := by
  induction ls generalizing C r with
  | nil => rfl
  | cons l ls ih =>
      rw [Setting.fate, ih]
      split_ifs
      · exact Setting.judge_id _ _ _
      · rfl

theorem fate_org : (S.fate sv C ls r).orgId = r.orgId := by
  induction ls generalizing C r with
  | nil => rfl
  | cons l ls ih =>
      rw [Setting.fate, ih]
      split_ifs
      · exact judge_org _ _ _
      · rfl

end Fate

/-- Whether a lease survives is told by its own row. -/
theorem spared_iff {S : Setting} {C : Id × Int → Option Int} {ls : List DB.ActiveLease} {rows : List Lease}
    (hids : (rows.map (·.id)).Nodup) (hw : (w'.db .lease).rows = rows.map (S.fate sv C ls)) {r : Lease} (hr : r ∈ rows) :
    survives w' (DB.activeLeaseRow r) = true ↔ (S.fate sv C ls r).endedAt = none := by
  rw [survives, hw, List.any_map, List.any_eq_true]
  constructor
  · rintro ⟨r', hr', h⟩
    obtain ⟨hid, he⟩ := of_decide_eq_true h
    have hsame : r' = r := List.inj_on_of_nodup_map hids hr' hr ((fate_id sv).symm.trans hid)
    rwa [← hsame]
  · exact fun h => ⟨r, hr, decide_eq_true ⟨fate_id sv, h⟩⟩

theorem active_passed (hrows : (w'.db .lease).rows = (w.db .lease).rows) {w'' : World}
    (h : Passed sv (liveLeases w.db) w' w'') :
    active w'' o = (liveLeases w.db).countP fun l => decide (l.orgID = o) && survives w'' l := by
  have hfate : (w''.db .lease).rows =
      (w.db .lease).rows.map ((settingOf w').fate sv (counters w'.db) (liveLeases w.db)) := by
    rw [h.leases, Setting.judgeAll_eq, hrows]
  rw [active, DB.activeLeases, ← List.countP_eq_length_filter, hfate, List.countP_map, liveLeases, List.countP_map,
    List.countP_filter, List.countP_reverse]
  refine List.countP_congr fun r hr => ?_
  have hiff := spared_iff sv (lease_ids w.db) hfate hr
  simp only [Function.comp_apply, Bool.and_eq_true, hiff, decide_eq_true_iff]
  constructor
  · rintro ⟨horg, he⟩
    exact ⟨⟨(fate_org sv).symm.trans horg, he⟩, active_of_fate sv he⟩
  · rintro ⟨⟨horg, he⟩, -⟩
    exact ⟨(fate_org sv).trans horg, he⟩

theorem verdict_kept {rev : Bool} {pl : Option DB.PlanLimits} {used : Int} {now : Time}
    (h : ∀ reason, sv.verdict rev pl used now l ≠ .ended reason) (hcap : 0 < sv.cfg.capSec pl) :
    used < sv.cfg.capSec pl := by
  cases rev with
  | true => exact absurd rfl (h .killed)
  | false => exact Int.not_le.1 fun hle => h .hours_cap (by rw [Server.verdict, if_neg (by decide), if_pos ⟨hcap, hle⟩])

/-- The weekly seconds are below the cap when the turn of a lease comes that survives. -/
theorem below_of_survives {pre post : List DB.ActiveLease} (hnodup : ((pre ++ l :: post).map (·.leaseID)).Nodup)
    (h : Passed sv (pre ++ l :: post) w w') (hl : survives w' l = true)
    (hcap : 0 < sv.cfg.capSec (DB.planLimits w.db l.orgID)) :
    seconds w l.orgID + sv.cfg.reaperTickSec * ((pre ++ [l]).countP fun l' => decide (l'.orgID = l.orgID)) <
      sv.cfg.capSec (DB.planLimits w.db l.orgID) := by
  obtain ⟨hpre, hpost⟩ := apart_of_nodup hnodup
  rw [survives, h.leases, Setting.judgeAll_eq, List.any_map, List.any_eq_true] at hl
  obtain ⟨r, -, hr⟩ := hl
  obtain ⟨hid, he⟩ := of_decide_eq_true hr
  have hfate := (settingOf w).fate_mem sv (C := counters w.db) ((fate_id sv).symm.trans hid) hpre hpost
  rw [hfate] at he
  have hbelow := verdict_kept sv (judge_active he).2 hcap
  have hused := used_before sv (pre ++ [l]) hcap
  rw [seconds, ← hused]
  exact hbelow

/-! ## A pass -/

theorem last_of_countP {α : Type} {p : α → Bool} (xs : List α) :
    xs.countP p = 0 ∨ ∃ pre x post, xs = pre ++ x :: post ∧ p x = true ∧ xs.countP p = (pre ++ [x]).countP p := by
  induction xs with
  | nil => exact .inl rfl
  | cons y xs ih =>
      rcases ih with hzero | ⟨pre, x, post, rfl, hx, hcount⟩
      · cases hy : p y with
        | true =>
            refine .inr ⟨[], y, xs, rfl, hy, ?_⟩
            rw [List.countP_cons, hzero, List.nil_append, List.countP_singleton, hy, Nat.zero_add]
        | false =>
            refine .inl ?_
            rw [List.countP_cons, hzero, hy]
            rfl
      · refine .inr ⟨y :: pre, x, post, rfl, hx, ?_⟩
        rw [List.countP_cons, hcount, List.cons_append, List.countP_cons]

/-- What a pass makes of the seconds and the leases of an org with a weekly cap. -/
theorem reap_org (hw : Live w) (hs : Steady sv o w .reap) (hcap : 0 < sv.cfg.capSec (DB.planLimits w.db o)) :
    Live (next sv w .reap) ∧
      seconds (next sv w .reap) o = seconds w o + sv.cfg.reaperTickSec * active w o ∧
      active (next sv w .reap) o ≤ active w o ∧
      (0 ≤ sv.cfg.reaperTickSec → active (next sv w .reap) o = 0 ∨
        seconds w o + sv.cfg.reaperTickSec * active (next sv w .reap) o < sv.cfg.capSec (DB.planLimits w.db o)) := by
  obtain ⟨w', hrun, h⟩ := run_reapOnceBy sv hw (liveLeases w.db)
  have hnext : next sv w .reap = w' := by
    rw [next, run_reapOnce sv hw, hrun]
  have hplan : DB.planLimits (dunned w).db o = DB.planLimits w.db o := by
    have hlim := congrFun (congrArg Setting.limits h.setting) o
    have hsteady := hs.2
    rw [hnext] at hsteady
    exact hlim.symm.trans hsteady
  have hfirst : seconds (dunned w) o = seconds w o := by
    have hfoot := (Server.dunning_within (K := fun _ _ => True)).keeps w
    have hcount : (dunned w).db .workerHoursCounter = w.db .workerHoursCounter :=
      Table.ext (hfoot.db.rows_eq rfl fun _ => rfl)
    have hnow : (dunned w).now = w.now := hfoot.now
    rw [seconds, seconds, DB.weekSeconds, DB.weekSeconds, hcount, hnow]
  rw [← hplan] at hcap ⊢
  rw [hnext]
  have hactive := active_passed sv (o := o) (dunning_leases w) h
  refine ⟨h.live, ?_, ?_, fun htick => ?_⟩
  · have hused := used_before sv (liveLeases w.db) hcap
    rw [count_live] at hused
    rw [← hfirst, seconds, weekSeconds_eq, h.charged, active]
    have hnow : w'.now = (dunned w).now := congrArg Setting.now h.setting
    rw [hnow]
    exact hused
  · rw [hactive, active, ← count_live]
    exact List.countP_mono_left fun l _ hl => (Bool.and_eq_true _ _ |>.mp hl).1
  · rw [hactive, ← hfirst]
    rcases last_of_countP (p := fun l => decide (l.orgID = o) && survives w' l) (liveLeases w.db) with
      hzero | ⟨pre, l, post, hls, hl, hcount⟩
    · exact .inl hzero
    · right
      obtain ⟨horg, hsurv⟩ := Bool.and_eq_true _ _ |>.mp hl
      have horg : l.orgID = o := of_decide_eq_true horg
      subst horg
      have hnodup := nodup_live w.db
      rw [hls] at hnodup h
      have hbelow := below_of_survives sv hnodup h hsurv hcap
      have hle : ((pre ++ [l]).countP fun l' => decide (l'.orgID = l.orgID) && survives w' l') ≤
          (pre ++ [l]).countP fun l' => decide (l'.orgID = l.orgID) :=
        List.countP_mono_left fun l _ hl => (Bool.and_eq_true _ _ |>.mp hl).1
      rw [hcount]
      have hmul := mul_le_mul_of_nonneg_left (Int.ofNat_le.2 hle) htick
      omega

/-! ## A request -/

/-- No step of the program touches a channel. -/
abbrev Mute {α : Type} (c : Cmd α) : Prop := Prog.Each (fun w w' : World => w'.hub = w.hub) c

theorem mute_exec {α : Type} (n : String) (f : Time → Store → Except DbErr (Store × α)) : Mute (exec n f) :=
  each_exec fun _ _ _ _ => rfl

theorem mute_readOnly {α : Type} {c : Cmd α} (h : DB.ReadOnly c) : Mute c := h.steps.mono fun _ _ heq => by rw [heq]

theorem mute_recordUsage (org worker lease : Id) (type : UsageEventType) : Mute (DB.recordUsage org worker lease type) :=
  Prog.Each.bind (Prog.Each.lift fun _ => rfl) fun _ => mute_exec _ _

theorem mute_grantLease (org wsp : Id) (ttl : Int) (auto : Bool) : Mute (DB.grantLease org wsp ttl auto) := by
  refine Prog.Each.bind (Prog.Each.lift fun _ => rfl) fun worker => Prog.Each.bind (mute_exec _ _) fun r => ?_
  cases r with
  | error e => exact .done _
  | ok _ =>
      refine Prog.Each.bind (Prog.Each.lift fun _ => rfl) fun lease => Prog.Each.bind (Prog.Each.lift fun _ => rfl) fun now => ?_
      refine Prog.Each.bind (mute_exec _ _) fun r => ?_
      cases r with
      | error e => exact .done _
      | ok _ => exact Prog.Each.bind (mute_exec _ _) fun r => by cases r <;> exact .done _

theorem mute_grantInHours (org wsp : Id) (pl : DB.PlanLimits) : Mute (sv.grantInHours org wsp pl) := by
  have hgrant : Mute (sv.grant org wsp pl) := by
    refine Prog.Each.bind (mute_grantLease _ _ _ _) fun r => ?_
    cases r with
    | error e => exact .done _
    | ok g => exact Prog.Each.bind (mute_recordUsage _ _ _ _) fun _ => Prog.Each.bind (mute_recordUsage _ _ _ _) fun _ => .done _
  unfold Server.grantInHours
  dsimp only
  split
  · refine Prog.Each.bind (mute_readOnly (Server.readOnly_weekSecondsUsed _)) fun n => ?_
    split
    · exact .done _
    · exact hgrant
  · exact hgrant

theorem mute_tryGrant (org wsp : Id) : Mute (sv.tryGrant org wsp) := by
  refine Prog.Each.bind (mute_readOnly (DB.readOnly_poolFlag _ _)) fun paused => ?_
  split
  · exact .done _
  · refine Prog.Each.bind (mute_readOnly (Server.readOnly_getPlanLimits _)) fun pl => ?_
    rcases pl with e | pl
    · exact .done _
    · cases pl with
      | none => exact .done _
      | some pl =>
          refine Prog.Each.bind (mute_readOnly (Server.readOnly_effectiveCap _ _)) fun cap => ?_
          split
          · refine Prog.Each.bind (mute_readOnly (Server.readOnly_activeLeaseCount _)) fun n => ?_
            split
            · exact .done _
            · exact mute_grantInHours sv _ _ _
          · exact mute_grantInHours sv _ _ _

/-- A request charges nobody, and gives an org that is at its cap no lease. -/
theorem request_org (hw : Live w) (org wsp : Id) :
    Live (next sv w (.request org wsp)) ∧ seconds (next sv w (.request org wsp)) o = seconds w o ∧
      (0 < sv.cfg.capSec (DB.planLimits w.db o) → sv.cfg.capSec (DB.planLimits w.db o) ≤ seconds w o →
        active (next sv w (.request org wsp)) o ≤ active w o) := by
  have hfoot := (Server.tryGrant_within (K := fun _ _ => True) sv org wsp).keeps w
  have hhub := Prog.Each.keeps (R := fun w w' : World => w'.hub = w.hub) (fun _ => rfl) (fun _ _ _ h h' => h'.trans h)
    (mute_tryGrant sv org wsp) w
  refine ⟨?_, ?_, fun hcap hspent => ?_⟩
  · change ((sv.tryGrant org wsp).run w).1.hub.Open
    rw [hhub]
    exact hw
  · have hcount : ((sv.tryGrant org wsp).run w).1.db .workerHoursCounter = w.db .workerHoursCounter :=
      Table.ext (hfoot.db.rows_eq rfl fun _ => rfl)
    change DB.weekSeconds ((sv.tryGrant org wsp).run w).1.db ((sv.tryGrant org wsp).run w).1.now o = _
    rw [hfoot.now, DB.weekSeconds, hcount]
    rfl
  · by_cases ho : org = o
    · subst ho
      have hlocked : ∀ pl, ¬ (viewOf sound w org).Passes sv.cfg pl := fun pl hp => by
        refine hp.2.2.2 ?_
        have hlim : DB.planLimits w.db org = some pl := hp.2.1
        rw [hlim] at hcap hspent
        exact ⟨hcap, hspent⟩
      obtain ⟨reason, -, hrun⟩ := run_tryGrant_locked wsp sv hlocked
      have hnone : (sv.tryGrant org wsp).refusing sound unsent = sv.tryGrant org wsp := Prog.refusing_none _ _
      rw [hnone] at hrun
      change active ((sv.tryGrant org wsp).run w).1 org ≤ _
      rw [hrun]
    · have hcalm : Calm o (sv.tryGrant org wsp) := calm_tryGrant sv ho
      exact Int.ofNat_le.1 (Prog.Each.keeps (NoGain.refl o) (fun _ _ _ h h' => Int.le_trans h' h) hcalm w)

/-! ## The phases of a week -/

section Phases

variable {c K U : Int}

/-- The org has not come to its cap. -/
structure Below (c : Int) (o : Id) (w : World) : Prop where
  live : Live w
  cap : sv.cfg.capSec (DB.planLimits w.db o) = c
  below : seconds w o < c

/-- The org has come to its cap, with few enough leases left. -/
structure Crossed (c K : Int) (o : Id) (w : World) : Prop where
  live : Live w
  cap : sv.cfg.capSec (DB.planLimits w.db o) = c
  spent : c ≤ seconds w o
  tick : 0 ≤ sv.cfg.reaperTickSec
  bound : seconds w o + sv.cfg.reaperTickSec * active w o < K

/-- The org has no lease for the rest of the week. -/
structure Spent (c U : Int) (o : Id) (w : World) : Prop where
  live : Live w
  cap : sv.cfg.capSec (DB.planLimits w.db o) = c
  spent : c ≤ seconds w o
  none : active w o = 0
  stays : seconds w o = U

theorem Spent.next {e : Beat} (h : Spent sv c U o w) (hc : 0 < c) (hs : Steady sv o w e) : Spent sv c U o (next sv w e) := by
  have hcap := (congrArg sv.cfg.capSec hs.2).trans h.cap
  cases e with
  | tick d =>
      have hsame : seconds (Beat.next sv w (.tick d)) o = seconds w o := by
        change DB.weekSeconds w.db (w.now + d) o = DB.weekSeconds w.db w.now o
        have hweek : weekStart (w.now + d) = weekStart w.now := hs.1
        rw [DB.weekSeconds, DB.weekSeconds, hweek]
      exact ⟨h.live, hcap, by rw [hsame]; exact h.spent, h.none, hsame.trans h.stays⟩
  | reap =>
      obtain ⟨hlive, hsec, hact, -⟩ := reap_org sv h.live hs (by rw [h.cap]; exact hc)
      rw [h.none, Int.natCast_zero, Int.mul_zero, Int.add_zero] at hsec
      exact ⟨hlive, hcap, by rw [hsec]; exact h.spent, Nat.le_zero.1 (h.none ▸ hact), hsec.trans h.stays⟩
  | request org wsp =>
      obtain ⟨hlive, hsec, hact⟩ := request_org sv (o := o) h.live org wsp
      have hact := hact (by rw [h.cap]; exact hc) (by rw [h.cap]; exact h.spent)
      exact ⟨hlive, hcap, by rw [hsec]; exact h.spent, Nat.le_zero.1 (h.none ▸ hact), hsec.trans h.stays⟩

theorem Crossed.reap (h : Crossed sv c K o w) (hc : 0 < c) (hs : Steady sv o w .reap) :
    ∃ U, Spent sv c U o (Beat.next sv w .reap) ∧ U < K := by
  have hcap := (congrArg sv.cfg.capSec hs.2).trans h.cap
  obtain ⟨hlive, hsec, -, hact⟩ := reap_org sv h.live hs (by rw [h.cap]; exact hc)
  have hcharge : 0 ≤ sv.cfg.reaperTickSec * active w o := mul_nonneg h.tick (Int.natCast_nonneg _)
  have hrest : 0 ≤ sv.cfg.reaperTickSec * active (Beat.next sv w .reap) o :=
    mul_nonneg h.tick (Int.natCast_nonneg _)
  have hspent := h.spent
  have hnone : active (Beat.next sv w .reap) o = 0 := by
    refine (hact h.tick).resolve_right fun hlt => ?_
    rw [h.cap] at hlt
    omega
  refine ⟨_, ⟨hlive, hcap, ?_, hnone, rfl⟩, ?_⟩
  · rw [hsec]
    omega
  · rw [hsec]
    exact h.bound

theorem Crossed.next {e : Beat} (h : Crossed sv c K o w) (hc : 0 < c) (hs : Steady sv o w e) (he : e ≠ .reap) :
    Crossed sv c K o (Beat.next sv w e) := by
  have hcap := (congrArg sv.cfg.capSec hs.2).trans h.cap
  cases e with
  | tick d =>
      have hsame : seconds (Beat.next sv w (.tick d)) o = seconds w o := by
        change DB.weekSeconds w.db (w.now + d) o = DB.weekSeconds w.db w.now o
        have hweek : weekStart (w.now + d) = weekStart w.now := hs.1
        rw [DB.weekSeconds, DB.weekSeconds, hweek]
      exact ⟨h.live, hcap, by rw [hsame]; exact h.spent, h.tick, by rw [hsame]; exact h.bound⟩
  | reap => exact absurd rfl he
  | request org wsp =>
      obtain ⟨hlive, hsec, hact⟩ := request_org sv (o := o) h.live org wsp
      have hact := hact (by rw [h.cap]; exact hc) (by rw [h.cap]; exact h.spent)
      refine ⟨hlive, hcap, by rw [hsec]; exact h.spent, h.tick, ?_⟩
      have hmul := mul_le_mul_of_nonneg_left (Int.ofNat_le.2 hact) h.tick
      have hbound := h.bound
      rw [hsec]
      omega

theorem Below.next {e : Beat} (h : Below sv c o w) (hc : 0 < c) (hs : Steady sv o w e) :
    Below sv c o (Beat.next sv w e) ∨
      e = .reap ∧ Crossed sv c (c + sv.cfg.reaperTickSec * active w o) o (Beat.next sv w e) := by
  have hcap := (congrArg sv.cfg.capSec hs.2).trans h.cap
  have hbelow := h.below
  cases e with
  | tick d =>
      have hsame : seconds (Beat.next sv w (.tick d)) o = seconds w o := by
        change DB.weekSeconds w.db (w.now + d) o = DB.weekSeconds w.db w.now o
        have hweek : weekStart (w.now + d) = weekStart w.now := hs.1
        rw [DB.weekSeconds, DB.weekSeconds, hweek]
      exact .inl ⟨h.live, hcap, by rw [hsame]; exact hbelow⟩
  | reap =>
      obtain ⟨hlive, hsec, -, hact⟩ := reap_org sv h.live hs (by rw [h.cap]; exact hc)
      by_cases hreach : c ≤ seconds (Beat.next sv w .reap) o
      · right
        have htick : 0 ≤ sv.cfg.reaperTickSec := by
          by_contra hneg
          have hcharge : sv.cfg.reaperTickSec * active w o ≤ 0 :=
            mul_nonpos_of_nonpos_of_nonneg (Int.le_of_lt (Int.not_le.1 hneg)) (Int.natCast_nonneg _)
          omega
        refine ⟨rfl, hlive, hcap, hreach, htick, ?_⟩
        rcases hact htick with hzero | hlt
        · rw [hsec, hzero]
          simp only [Int.natCast_zero, Int.mul_zero]
          omega
        · rw [h.cap] at hlt
          rw [hsec]
          omega
      · exact .inl ⟨hlive, hcap, Int.not_le.1 hreach⟩
  | request org wsp =>
      obtain ⟨hlive, hsec, -⟩ := request_org sv (o := o) h.live org wsp
      exact .inl ⟨hlive, hcap, by rw [hsec]; exact hbelow⟩

/-! ## Runs -/

theorem Spent.run (h : Spent sv c U o w) (hc : 0 < c) (hs : Runs.Meets (Beat.next sv) (Steady sv o) w es) :
    Spent sv c U o (Runs.exec (Beat.next sv) w es) :=
  (Runs.always_of_meets (fun _ _ h hs => Spent.next sv h hc hs) h hs).last

theorem Crossed.run {es' : List Beat} (h : Crossed sv c K o w) (hc : 0 < c)
    (hs : Runs.Meets (Beat.next sv) (Steady sv o) w (es ++ es')) :
    seconds (Runs.exec (Beat.next sv) w es) o < K ∧
      (.reap ∈ es → active (Runs.exec (Beat.next sv) w es) o = 0 ∧
        seconds (Runs.exec (Beat.next sv) w (es ++ es')) o = seconds (Runs.exec (Beat.next sv) w es) o) := by
  induction es generalizing w with
  | nil =>
      have hcharge : 0 ≤ sv.cfg.reaperTickSec * active w o := mul_nonneg h.tick (Int.natCast_nonneg _)
      have hbound := h.bound
      exact ⟨by rw [Runs.exec_nil]; omega, nofun⟩
  | cons e es ih =>
      by_cases he : e = .reap
      · subst he
        obtain ⟨U, hspent, hU⟩ := Crossed.reap sv h hc hs.1
        have hhere := Spent.run sv hspent hc (Runs.meets_append.1 hs.2).1
        have hend : Spent sv c U o (Runs.exec (Beat.next sv) (Beat.next sv w .reap) (es ++ es')) :=
          Spent.run sv hspent hc hs.2
        rw [Runs.exec_cons, List.cons_append, Runs.exec_cons, hhere.stays, hend.stays]
        exact ⟨hU, fun _ => ⟨hhere.none, rfl⟩⟩
      · obtain ⟨hbound, hafter⟩ := ih (Crossed.next sv h hc hs.1 he) hs.2
        exact ⟨hbound, fun hmem => hafter ((List.mem_cons.1 hmem).resolve_left (Ne.symm he))⟩

/-- Where a run has come to: below the cap, or past the pass in which the org came to it. -/
theorem Below.run {es' : List Beat} (h : Below sv c o w) (hc : 0 < c)
    (hs : Runs.Meets (Beat.next sv) (Steady sv o) w (es ++ es')) :
    seconds (Runs.exec (Beat.next sv) w es) o < c ∨ ∃ es₀ es₁, es = es₀ ++ .reap :: es₁ ∧
      Runs.Always (Beat.next sv) (fun w => seconds w o < c) w es₀ ∧
      c ≤ seconds (Runs.exec (Beat.next sv) w (es₀ ++ [.reap])) o ∧
      seconds (Runs.exec (Beat.next sv) w es) o <
        c + sv.cfg.reaperTickSec * active (Runs.exec (Beat.next sv) w es₀) o ∧
      (.reap ∈ es₁ → active (Runs.exec (Beat.next sv) w es) o = 0 ∧
        seconds (Runs.exec (Beat.next sv) w (es ++ es')) o = seconds (Runs.exec (Beat.next sv) w es) o) := by
  induction es generalizing w with
  | nil => exact .inl h.below
  | cons e es ih =>
      rcases Below.next sv h hc hs.1 with hbelow | ⟨rfl, hcross⟩
      · refine (ih hbelow hs.2).imp id ?_
        rintro ⟨es₀, es₁, rfl, hfirst, hreach, hbound, hafter⟩
        exact ⟨e :: es₀, es₁, rfl, ⟨h.below, hfirst⟩, hreach, hbound, hafter⟩
      · obtain ⟨hbound, hafter⟩ := Crossed.run sv hcross hc hs.2
        exact .inr ⟨[], es, rfl, h.below, hcross.spent, hbound, hafter⟩

end Phases

/-- In a week in which the plan of an org stays as it is, the org goes past its weekly cap by less than a
tick for each lease that it has when the pass starts in which it comes to the cap. After one more pass it
has no lease, and its seconds stay as they are. -/
theorem overshoot (w : World) (es es' : List Beat) (hw : Live w)
    (hcap : 0 < sv.cfg.capSec (DB.planLimits w.db o)) (hzero : seconds w o = 0)
    (hs : Runs.Meets (Beat.next sv) (Steady sv o) w (es ++ es')) :
    seconds (Runs.exec (Beat.next sv) w es) o < sv.cfg.capSec (DB.planLimits w.db o) ∨
      ∃ es₀ es₁, es = es₀ ++ .reap :: es₁ ∧
        Runs.Always (Beat.next sv) (fun s => seconds s o < sv.cfg.capSec (DB.planLimits w.db o)) w es₀ ∧
        sv.cfg.capSec (DB.planLimits w.db o) ≤ seconds (Runs.exec (Beat.next sv) w (es₀ ++ [.reap])) o ∧
        seconds (Runs.exec (Beat.next sv) w es) o < sv.cfg.capSec (DB.planLimits w.db o) +
          sv.cfg.reaperTickSec * active (Runs.exec (Beat.next sv) w es₀) o ∧
        (.reap ∈ es₁ → active (Runs.exec (Beat.next sv) w es) o = 0 ∧
          seconds (Runs.exec (Beat.next sv) w (es ++ es')) o = seconds (Runs.exec (Beat.next sv) w es) o) :=
  Below.run sv ⟨hw, rfl, by rw [hzero]; exact hcap⟩ hcap hs

end Beat

namespace Sample

/-- An org with two leases, and no seconds charged. -/
def fresh : World :=
  { db := Store.ofRows (plans ++ rows ++
      [⟨.workerInstance, { id := "wki_1", orgId := "org_a", workspaceId := "wsp_a", status := .running }⟩,
        ⟨.workerInstance, { id := "wki_2", orgId := "org_a", workspaceId := "wsp_a", status := .running }⟩,
        ⟨.lease, { id := "lse_1", orgId := "org_a", workerInstanceId := "wki_1" }⟩,
        ⟨.lease, { id := "lse_2", orgId := "org_a", workerInstanceId := "wki_2" }⟩]) }

/-- `WORKER_HOURS_CAP_SEC=100`, with the default tick of 30. -/
def hundred : Server := { cfg := { hoursCapOverrideSec := 100 } }

end Sample

/-- Charged 60, 120 and 150 of 100 seconds: below 100 and two ticks. -/
theorem overshoot_sample :
    ∃ es₀ es₁, [Beat.reap, .reap, .reap] = es₀ ++ .reap :: es₁ ∧
      Runs.Always (Beat.next Sample.hundred) (fun s => Beat.seconds s "org_a" <
        Sample.hundred.cfg.capSec (DB.planLimits Sample.fresh.db "org_a")) Sample.fresh es₀ ∧
      Sample.hundred.cfg.capSec (DB.planLimits Sample.fresh.db "org_a") ≤
        Beat.seconds (Runs.exec (Beat.next Sample.hundred) Sample.fresh (es₀ ++ [.reap])) "org_a" ∧
      Beat.seconds (Runs.exec (Beat.next Sample.hundred) Sample.fresh [Beat.reap, .reap, .reap]) "org_a" <
        Sample.hundred.cfg.capSec (DB.planLimits Sample.fresh.db "org_a") + Sample.hundred.cfg.reaperTickSec *
          Beat.active (Runs.exec (Beat.next Sample.hundred) Sample.fresh es₀) "org_a" ∧
      (.reap ∈ es₁ →
        Beat.active (Runs.exec (Beat.next Sample.hundred) Sample.fresh [Beat.reap, .reap, .reap]) "org_a" = 0 ∧
          Beat.seconds (Runs.exec (Beat.next Sample.hundred) Sample.fresh
              ([Beat.reap, .reap, .reap] ++ [.request "org_a" "wsp_a", .reap])) "org_a" =
            Beat.seconds (Runs.exec (Beat.next Sample.hundred) Sample.fresh [Beat.reap, .reap, .reap]) "org_a") := by
  have h := Beat.overshoot Sample.hundred Sample.fresh [.reap, .reap, .reap] [.request "org_a" "wsp_a", .reap]
    (o := "org_a") Hub.open_new (by decide +kernel) (by decide +kernel) (by decide +kernel)
  exact h.resolve_left (by decide +kernel)

end Apifor
