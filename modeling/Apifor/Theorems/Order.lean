import Apifor.Lemmas.Reaping
import Apifor.System
import Mathlib.Algebra.Order.Ring.Int

/-!
# The order of a pass

`ActiveLeases` has no `ORDER BY`. The charges of a pass add up alike in every order; the leases that it
ends depend on the order when an org comes to its weekly cap in the middle of the pass.
-/

namespace Apifor

variable (sv : Server) {w : World} {o : Id} {ls ls' : List DB.ActiveLease} {l : DB.ActiveLease} {r : Lease}

/-- The leases with their ends. -/
def ends (s : Store) : List (Id × Option Time × Option LeaseEndReason) :=
  (s .lease).rows.map fun l => (l.id, l.endedAt, l.endReason)

/-- The first lease of the org and its last one are on different sides of the weekly cap when their turn
comes, whichever they are. -/
def Crosses (w : World) (o : Id) : Prop :=
  DB.revokedDevice w.db o = false ∧ 0 < sv.cfg.capSec (DB.planLimits w.db o) ∧ DB.activeLeases w.db o ≠ [] ∧
    ¬ (sv.cfg.capSec (DB.planLimits w.db o) ≤ DB.weekSeconds w.db w.now o + sv.cfg.reaperTickSec ↔
      sv.cfg.capSec (DB.planLimits w.db o) ≤
        DB.weekSeconds w.db w.now o + sv.cfg.reaperTickSec * (DB.activeLeases w.db o).length)

instance (w : World) (o : Id) : Decidable (Crosses sv w o) := inferInstanceAs (Decidable (_ ∧ _))

/-! ## The verdicts of a pass -/

/-- The counters matter to a verdict only through the weekly cap. -/
theorem verdict_congr {rev : Bool} {pl : Option DB.PlanLimits} {used used' : Int} {now : Time}
    (h : rev = false → 0 < sv.cfg.capSec pl → (sv.cfg.capSec pl ≤ used ↔ sv.cfg.capSec pl ≤ used')) :
    sv.verdict rev pl used now l = sv.verdict rev pl used' now l := by
  cases rev with
  | true => rfl
  | false =>
      have hiff : (0 < sv.cfg.capSec pl ∧ sv.cfg.capSec pl ≤ used) ↔ (0 < sv.cfg.capSec pl ∧ sv.cfg.capSec pl ≤ used') :=
        and_congr_right fun hcap => h rfl hcap
      simp only [Server.verdict, hiff]

/-- Between two values on one side of a bound, every multiple of a tick is on that side. -/
theorem between_iff {c u t : Int} {j k : Nat} (h1 : 1 ≤ j) (hk : j ≤ k) (h : c ≤ u + t ↔ c ≤ u + t * k) :
    c ≤ u + t * j ↔ c ≤ u + t := by
  have hj : (1 : Int) ≤ j := by exact_mod_cast h1
  have hjk : (j : Int) ≤ k := by exact_mod_cast hk
  rcases Int.le_total 0 t with ht | ht
  · have h2 : t ≤ t * j := le_mul_of_one_le_right ht hj
    have h3 : t * j ≤ t * k := mul_le_mul_of_nonneg_left hjk ht
    omega
  · have h2 : t * j ≤ t * 1 := mul_le_mul_of_nonpos_left hj ht
    have h3 : t * k ≤ t * j := mul_le_mul_of_nonpos_left hjk ht
    omega

/-! ## The same charges -/

theorem bumped_comm (K : Id → Bool) (C : Id × Int → Option Int) (a b : Id × Int) (sec : Int) :
    bumped (K b.1) (bumped (K a.1) C a sec) b sec = bumped (K a.1) (bumped (K b.1) C b sec) a sec := by
  by_cases hab : a = b
  · rw [hab]
  · have hother : ∀ (p q : Id × Int) (k : Bool), p ≠ q → bumped k C p sec q = C q := fun p q k hpq => by
      unfold bumped
      split_ifs
      · exact Function.update_of_ne (Ne.symm hpq) _ _
      · rfl
    have ha := hother b a (K b.1) (Ne.symm hab)
    have hb := hother a b (K a.1) hab
    rw [bumped, hb, bumped.eq_1 (K a.1) (bumped (K b.1) C b sec), ha]
    unfold bumped
    split_ifs
    · exact Function.update_comm hab _ _ _
    · rfl
    · rfl
    · rfl

/-- A pass charges the same in every order. -/
theorem charge_perm (S : Setting) (C : Id × Int → Option Int) (h : ls.Perm ls') :
    S.charge sv C ls = S.charge sv C ls' := by
  refine h.foldl_eq' (fun l _ l' _ C => ?_) C
  exact bumped_comm S.known C (l.orgID, weekStart S.now) (l'.orgID, weekStart S.now) sv.cfg.reaperTickSec

/-! ## The same ends -/

/-- The verdict on a lease whose org stays on one side of its cap. -/
def settled (w : World) (l : DB.ActiveLease) : Verdict :=
  sv.verdict (DB.revokedDevice w.db l.orgID) (DB.planLimits w.db l.orgID)
    (DB.weekSeconds w.db w.now l.orgID + sv.cfg.reaperTickSec) w.now l

theorem verdict_settled {pre post : List DB.ActiveLease} (hls : (pre ++ l :: post).Perm (liveLeases w.db))
    (hno : ¬ Crosses sv w l.orgID) :
    (settingOf w).verdict sv ((settingOf w).charge sv (counters w.db) (pre ++ [l])) l = settled sv w l := by
  refine verdict_congr sv fun hrev hcap => ?_
  have hcount := (hls.countP_eq fun l' => decide (l'.orgID = l.orgID)).trans (count_live w.db l.orgID)
  have hpre : (pre ++ [l]).countP (fun l' => decide (l'.orgID = l.orgID)) ≤ (DB.activeLeases w.db l.orgID).length := by
    rw [← hcount, List.append_cons pre l post]
    exact Nat.le.intro List.countP_append.symm
  have hone : 1 ≤ (pre ++ [l]).countP fun l' => decide (l'.orgID = l.orgID) := by
    rw [List.countP_append]
    simp
  have hne : DB.activeLeases w.db l.orgID ≠ [] := fun h => by
    rw [h] at hpre
    exact absurd (Nat.le_trans hone hpre) (by decide)
  change sv.cfg.capSec (DB.planLimits w.db l.orgID) ≤ (settingOf w).used _ l.orgID ↔ _
  rw [used_before sv _ hcap]
  exact between_iff hone hpre (not_not.1 fun h => hno ⟨hrev, hcap, hne, h⟩)

theorem fate_settled (hls : ls.Perm (liveLeases w.db)) (hno : ∀ o, ¬ Crosses sv w o) (hl : l ∈ liveLeases w.db)
    (hid : r.id = l.leaseID) :
    (settingOf w).fate sv (counters w.db) ls r = (settled sv w l).judge w.now r := by
  obtain ⟨pre, post, rfl⟩ := List.append_of_mem (hls.mem_iff.2 hl)
  have hnodup := ((hls.map (·.leaseID)).nodup_iff).2 (nodup_live w.db)
  obtain ⟨hpre, hpost⟩ := apart_of_nodup hnodup
  rw [(settingOf w).fate_mem sv hid hpre hpost, verdict_settled sv hls (hno _)]
  rfl

/-! ## Passes -/

/-- The leases after a pass, in the order given. -/
theorem ends_passed {w' : World} (h : Passed sv ls w w') :
    ends w'.db = (w.db .lease).rows.map fun r =>
      ((settingOf w).fate sv (counters w.db) ls r |> fun r => (r.id, r.endedAt, r.endReason)) := by
  rw [ends, h.leases, Setting.judgeAll_eq, List.map_map]
  rfl

/-! ## An order that matters -/

theorem verdict_over {pl : Option DB.PlanLimits} {used : Int} {now : Time} (hcap : 0 < sv.cfg.capSec pl)
    (hused : sv.cfg.capSec pl ≤ used) : sv.verdict false pl used now l = .ended .hours_cap := by
  rw [Server.verdict, if_neg (by decide), if_pos ⟨hcap, hused⟩]

theorem verdict_under {pl : Option DB.PlanLimits} {used : Int} (now : Time) (hused : ¬ sv.cfg.capSec pl ≤ used) :
    sv.verdict false pl used now l = .kept ∨ (∃ ttl, sv.verdict false pl used now l = .renewed ttl) ∨
      sv.verdict false pl used now l = .ended .expired := by
  rw [Server.verdict, if_neg (by decide), if_neg fun h => hused h.2]
  cases l.expiresAt with
  | none => exact .inl rfl
  | some exp =>
      dsimp only
      split_ifs
      · exact .inr (.inl ⟨_, rfl⟩)
      · exact .inr (.inr rfl)
      · exact .inl rfl

/-- How a verdict ends an active lease. -/
def endOf (v : Verdict) (now : Time) (r : Lease) : Option Time × Option LeaseEndReason :=
  ((v.judge now r).endedAt, (v.judge now r).endReason)

theorem endOf_capped (now : Time) (he : r.endedAt = none) :
    endOf (.ended .hours_cap) now r = (some now, some .hours_cap) := by
  rw [endOf, Verdict.judge, if_pos he]

/-- Below the cap a lease does not end by it. -/
theorem endOf_under {pl : Option DB.PlanLimits} {used : Int} {now : Time} (hused : ¬ sv.cfg.capSec pl ≤ used)
    (he : r.endedAt = none) : endOf (sv.verdict false pl used now l) now r ≠ (some now, some .hours_cap) := by
  rcases verdict_under sv (l := l) now hused with h | ⟨ttl, h⟩ | h
  · rw [h, endOf, Verdict.judge, he]
    exact fun heq => by cases heq
  · rw [h, endOf, Verdict.judge, he]
    exact fun heq => by cases heq
  · rw [h, endOf, Verdict.judge, if_pos he]
    exact fun heq => by cases heq

/-- Where its round stands among those of its org decides on a lease. -/
theorem fate_at (pre post : List DB.ActiveLease) (hrev : DB.revokedDevice w.db r.orgId = false)
    (hcap : 0 < sv.cfg.capSec (DB.planLimits w.db r.orgId)) (hpre : ∀ l' ∈ pre, l'.leaseID ≠ r.id)
    (hpost : ∀ l' ∈ post, l'.leaseID ≠ r.id) :
    (settingOf w).fate sv (counters w.db) (pre ++ DB.activeLeaseRow r :: post) r =
      (sv.verdict false (DB.planLimits w.db r.orgId) (DB.weekSeconds w.db w.now r.orgId + sv.cfg.reaperTickSec *
        ((pre ++ [DB.activeLeaseRow r]).countP fun l => decide (l.orgID = r.orgId))) w.now (DB.activeLeaseRow r)).judge
          w.now r := by
  rw [(settingOf w).fate_mem sv rfl hpre hpost, ← used_before sv _ hcap, ← hrev]
  rfl

/-- The first lease of an org in one order is its last one in another. -/
theorem crossing_ends (hc : Crosses sv w o) :
    ∃ ls ls' : List DB.ActiveLease, ls.Perm (liveLeases w.db) ∧ ls'.Perm (liveLeases w.db) ∧
      ∃ r ∈ (w.db .lease).rows,
        (((settingOf w).fate sv (counters w.db) ls r).endedAt, ((settingOf w).fate sv (counters w.db) ls r).endReason) ≠
          (((settingOf w).fate sv (counters w.db) ls' r).endedAt,
            ((settingOf w).fate sv (counters w.db) ls' r).endReason) := by
  obtain ⟨hrev, hcap, hne, hcross⟩ := hc
  obtain ⟨r, hr⟩ := List.exists_mem_of_ne_nil _ hne
  obtain ⟨hmem, hactive⟩ := List.mem_filter.1 hr
  obtain ⟨rfl, he⟩ := of_decide_eq_true hactive
  have hl : DB.activeLeaseRow r ∈ liveLeases w.db :=
    List.mem_map_of_mem (List.mem_filter.2 ⟨List.mem_reverse.2 hmem, decide_eq_true he⟩)
  obtain ⟨pre, post, hlive⟩ := List.append_of_mem hl
  have hperm : (DB.activeLeaseRow r :: (pre ++ post)).Perm (liveLeases w.db) := by
    rw [hlive]
    exact List.perm_middle.symm
  have hperm' : ((pre ++ post) ++ [DB.activeLeaseRow r]).Perm (liveLeases w.db) :=
    (List.perm_append_singleton _ _).trans hperm
  have hnodup := ((hperm.map (·.leaseID)).nodup_iff).2 (nodup_live w.db)
  have hothers : ∀ l' ∈ pre ++ post, l'.leaseID ≠ r.id := fun l' hl' heq => by
    refine (List.nodup_cons.1 hnodup).1 ?_
    change r.id ∈ _
    rw [← heq]
    exact List.mem_map_of_mem hl'
  have hfirst := fate_at sv [] _ hrev hcap (fun _ h => by cases h) hothers
  have hlast := fate_at sv _ [] hrev hcap hothers fun _ h => by cases h
  have hone : ([] ++ [DB.activeLeaseRow r]).countP (fun l : DB.ActiveLease => decide (l.orgID = r.orgId)) = 1 := by
    simp [DB.activeLeaseRow]
  rw [hone, Int.natCast_one, Int.mul_one] at hfirst
  rw [(hperm'.countP_eq _).trans (count_live w.db r.orgId)] at hlast
  refine ⟨_, _, hperm, hperm', r, hmem, ?_⟩
  rw [List.nil_append] at hfirst
  rw [hfirst, hlast]
  change endOf _ _ _ ≠ endOf _ _ _
  by_cases hover : sv.cfg.capSec (DB.planLimits w.db r.orgId) ≤ DB.weekSeconds w.db w.now r.orgId + sv.cfg.reaperTickSec
  · have hunder := fun h => hcross ⟨fun _ => h, fun _ => hover⟩
    rw [verdict_over sv hcap hover, endOf_capped w.now he]
    exact Ne.symm (endOf_under sv hunder he)
  · have hover' := not_not.1 fun h => hcross ⟨fun h' => absurd h' hover, fun h' => absurd h' h⟩
    rw [verdict_over sv hcap hover', endOf_capped w.now he]
    exact endOf_under sv hover he

/-- A pass leaves the same counters in every order. It ends the same leases, with the same reasons, in
every order just when no org comes to its weekly cap in the middle of the pass. -/
theorem order_independent_iff (hw : Live w) :
    (∀ ls ls' : List DB.ActiveLease, ls.Perm (liveLeases w.db) → ls'.Perm (liveLeases w.db) →
      counters ((sv.reapOnceBy ls).run w).1.db = counters ((sv.reapOnceBy ls').run w).1.db) ∧
    ((∀ ls ls' : List DB.ActiveLease, ls.Perm (liveLeases w.db) → ls'.Perm (liveLeases w.db) →
      ends ((sv.reapOnceBy ls).run w).1.db = ends ((sv.reapOnceBy ls').run w).1.db) ↔
        ∀ o, ¬ Crosses sv (dunned w) o) := by
  have hpass : ∀ ls, Passed sv ls (dunned w) ((sv.reapOnceBy ls).run w).1 := fun ls => by
    obtain ⟨w', hrun, h⟩ := run_reapOnceBy sv hw ls
    rw [hrun]
    exact h
  refine ⟨fun ls ls' h h' => ?_, fun hall o hc => ?_, fun hno ls ls' h h' => ?_⟩
  · rw [(hpass ls).charged, (hpass ls').charged]
    exact charge_perm sv _ _ (h.trans h'.symm)
  · obtain ⟨ls, ls', hperm, hperm', r, hr, hne⟩ := crossing_ends sv hc
    rw [live_dunned] at hperm hperm'
    have heq := hall ls ls' hperm hperm'
    rw [ends_passed sv (hpass ls), ends_passed sv (hpass ls')] at heq
    exact hne (congrArg Prod.snd (List.map_inj_left.1 heq r hr))
  · rw [← live_dunned] at h h'
    rw [ends_passed sv (hpass ls), ends_passed sv (hpass ls')]
    refine List.map_congr_left fun r hr => ?_
    by_cases hl : ∃ l ∈ liveLeases (dunned w).db, l.leaseID = r.id
    · obtain ⟨l, hl, hid⟩ := hl
      rw [fate_settled sv h hno hl hid.symm, fate_settled sv h' hno hl hid.symm]
    · rw [(settingOf (dunned w)).fate_of_notMem sv fun l hl' hid => hl ⟨l, h.mem_iff.1 hl', hid⟩,
        (settingOf (dunned w)).fate_of_notMem sv fun l hl' hid => hl ⟨l, h'.mem_iff.1 hl', hid⟩]

/-! ## Two leases at the cap -/

namespace Sample

/-- An org with two leases, 40 seconds under its cap. -/
def crowded : World :=
  { db := Store.ofRows (plans ++ rows ++
      [⟨.workerInstance, { id := "wki_1", orgId := "org_a", workspaceId := "wsp_a", status := .running }⟩,
        ⟨.workerInstance, { id := "wki_2", orgId := "org_a", workspaceId := "wsp_a", status := .running }⟩,
        ⟨.lease, { id := "lse_1", orgId := "org_a", workerInstanceId := "wki_1" }⟩,
        ⟨.lease, { id := "lse_2", orgId := "org_a", workerInstanceId := "wki_2" }⟩,
        ⟨.workerHoursCounter, { orgId := "org_a", weekStart := 0, secondsUsed := 60 }⟩]) }

/-- `WORKER_HOURS_CAP_SEC=100`. -/
def capped : Server := { cfg := { hoursCapOverrideSec := 100 } }

end Sample

/-- The second lease is cut, whichever it is. -/
theorem order_matters :
    (liveLeases Sample.crowded.db).reverse.Perm (liveLeases Sample.crowded.db) ∧
      ends ((Sample.capped.reapOnceBy (liveLeases Sample.crowded.db)).run Sample.crowded).1.db =
          [("lse_2", some 0, some .hours_cap), ("lse_1", none, none)] ∧
        ends ((Sample.capped.reapOnceBy (liveLeases Sample.crowded.db).reverse).run Sample.crowded).1.db =
          [("lse_2", none, none), ("lse_1", some 0, some .hours_cap)] :=
  ⟨List.reverse_perm _, by decide +kernel, by decide +kernel⟩

theorem order_independent_iff_sample :
    ¬ ∀ ls ls' : List DB.ActiveLease, ls.Perm (liveLeases Sample.crowded.db) → ls'.Perm (liveLeases Sample.crowded.db) →
      ends ((Sample.capped.reapOnceBy ls).run Sample.crowded).1.db =
        ends ((Sample.capped.reapOnceBy ls').run Sample.crowded).1.db := fun hall =>
  (order_independent_iff Sample.capped Hub.open_new).2.1 hall "org_a" (by decide +kernel)

end Apifor
