import Apifor.Lemmas.Clerks

/-!
# The books of the leases

An invariant over the stages of the grants in progress and of the reaper: what the usage events of a
lease and the status of its worker say, together with what is still owed, is what the lease says. It is
about the rows of the three tables; each step of a plan keeps it.
-/

namespace Apifor

variable {w w' : World} {L : List Lease} {U : List UsageEvent} {W : List (Id × WorkerStatus)} {rc : ReaperStage}
  {gs xs ys : List GrantStage} {i : Id} {ty : UsageEventType}

/-! ## What the rows say -/

/-- The usage events of a lease of one type. -/
def entries (U : List UsageEvent) (i : Id) (ty : UsageEventType) : Nat := U.countP fun u => decide (Notes u i ty)

/-- The leases of an id that `q` selects. -/
def hits (L : List Lease) (i : Id) (q : Lease → Bool) : Nat := L.countP fun l => decide (l.id = i) && q l

/-- A lease ends with a reason, and by the reaper. -/
structure Reasoned (l : Lease) : Prop where
  both : l.endedAt.isSome = l.endReason.isSome
  known : ∀ r, l.endReason = some r → r = .expired ∨ r = .killed ∨ r = .hours_cap

/-- The status that the worker of a lease should have. -/
def statusOf (l : Lease) : WorkerStatus :=
  match l.endReason with
  | none => .running
  | some .expired => .paused
  | some _ => .stopped

theorem entries_cons {u : UsageEvent} {j : Id} {ty' : UsageEventType} (hu : Notes u j ty') :
    entries (u :: U) i ty = entries U i ty + if i = j ∧ ty = ty' then 1 else 0 := by
  rw [entries, entries, List.countP_cons]
  have hiff : Notes u i ty ↔ i = j ∧ ty = ty' := by
    rw [Notes, hu.1, hu.2]
    exact ⟨fun h => ⟨(Option.some.inj h.1).symm, h.2.symm⟩, fun h => ⟨congrArg some h.1.symm, h.2.symm⟩⟩
  simp only [hiff, decide_eq_true_eq]

theorem hits_cons (l : Lease) (q : Lease → Bool) :
    hits (l :: L) i q = hits L i q + if l.id = i ∧ q l = true then 1 else 0 := by
  rw [hits, hits, List.countP_cons]
  simp only [Bool.and_eq_true, decide_eq_true_eq]

theorem hits_eq_zero {q : Lease → Bool} (h : ∀ l ∈ L, l.id = i → q l = false) : hits L i q = 0 := by
  refine List.countP_eq_zero.2 fun l hl hq => ?_
  simp only [Bool.and_eq_true, decide_eq_true_eq] at hq
  rw [h l hl hq.1] at hq
  exact absurd hq.2 (by decide)

theorem hits_congr {q q' : Lease → Bool} (h : ∀ l ∈ L, l.id = i → q l = q' l) : hits L i q = hits L i q' := by
  refine List.countP_congr fun l hl => ?_
  simp only [Bool.and_eq_true, decide_eq_true_eq]
  exact and_congr_right fun hid => by rw [h l hl hid]

/-- Ids are unique. -/
theorem hits_of_mem {q : Lease → Bool} (hnd : (L.map (·.id)).Nodup) {l : Lease} (hl : l ∈ L) :
    hits L l.id q = if q l = true then 1 else 0 := by
  induction L with
  | nil => cases hl
  | cons r rs ih =>
      rw [List.map_cons, List.nodup_cons] at hnd
      rw [hits_cons]
      rcases List.mem_cons.1 hl with rfl | hl
      · rw [hits_eq_zero fun x hx heq => absurd (List.mem_map.2 ⟨x, hx, heq⟩) hnd.1]
        simp
      · have hne : r.id ≠ l.id := fun heq => hnd.1 (heq ▸ List.mem_map_of_mem hl)
        simp [ih hnd.2 hl, hne]

/-- A change of the rows that keeps their ids. -/
theorem hits_map {f : Lease → Lease} (hf : ∀ l, (f l).id = l.id) (q : Lease → Bool) :
    hits (L.map f) i q = hits L i (q ∘ f) := by
  rw [hits, hits, List.countP_map]
  refine List.countP_congr fun l _ => ?_
  simp [hf]

/-! ## The stages -/

namespace GrantStage

def owesStart (g : GrantStage) (i : Id) : Nat := if g = .leased i then 1 else 0

def owesIssue (g : GrantStage) (i : Id) : Nat := if g = .leased i ∨ g = .started i then 1 else 0

/-- The worker without a lease. -/
def worker? : GrantStage → Option Id
  | .hired x => some x
  | _ => none

/-- The usage events still to come. -/
def owed : GrantStage → Nat
  | .asking => 0
  | .hired _ | .leased _ => 2
  | .started _ => 1

end GrantStage

namespace ReaperStage

def owesExpired (i : Id) : ReaperStage → Nat
  | .ended l _ _ | .stopped l _ => if l.leaseID = i then 1 else 0
  | _ => 0

def owesStopped (i : Id) : ReaperStage → Nat
  | .ended l _ _ | .stopped l _ | .noted l _ => if l.leaseID = i then 1 else 0
  | .reaping .. => 0

/-- The status of a lease's worker: where the lease has just ended, the worker still runs. -/
def expects (l : Lease) : ReaperStage → WorkerStatus
  | .ended a _ _ => if a.leaseID = l.id then .running else statusOf l
  | _ => statusOf l

/-- What is left of the snapshot. -/
def left : ReaperStage → List DB.ActiveLease
  | .reaping _ ls | .ended _ _ ls | .stopped _ ls | .noted _ ls => ls

def owed : ReaperStage → Nat
  | .reaping .. => 0
  | .ended .. | .stopped .. => 2
  | .noted .. => 1

end ReaperStage

/-- The row of the snapshot is that of an active lease. A lease that is not renewed keeps its expiry. -/
structure Mirrors (a : DB.ActiveLease) (l : Lease) : Prop where
  id : l.id = a.leaseID
  worker : l.workerInstanceId = a.workerID
  active : l.endedAt = none ∧ l.endReason = none
  renews : l.autoRenew = a.autoRenew
  expires : a.autoRenew = false → l.expiresAt = a.expiresAt

/-- The lease that the reaper has just ended. -/
structure Dismissing (L : List Lease) (a : DB.ActiveLease) (reason : LeaseEndReason) : Prop where
  known : reason = .expired ∨ reason = .killed ∨ reason = .hours_cap
  row : ∃ l ∈ L, l.id = a.leaseID ∧ l.workerInstanceId = a.workerID ∧ l.endReason = some reason

def ReaperStage.Holds (L : List Lease) : ReaperStage → Prop
  | .ended a reason _ => a.leaseID ≠ "" ∧ Dismissing L a reason
  | .stopped a _ | .noted a _ => a.leaseID ≠ ""
  | .reaping .. => True

structure Books (L : List Lease) (U : List UsageEvent) (W : List (Id × WorkerStatus)) (rc : ReaperStage)
    (gs : List GrantStage) : Prop where
  ids : (L.map (·.id)).Nodup
  named : ∀ l ∈ L, l.id ≠ ""
  keys : (W.map (·.1)).Nodup
  reasoned : ∀ l ∈ L, Reasoned l
  started : ∀ i, entries U i .worker_started + (gs.map (·.owesStart i)).sum = hits L i fun _ => true
  issued : ∀ i, entries U i .lease_issued + (gs.map (·.owesIssue i)).sum = hits L i fun _ => true
  expired : ∀ i, entries U i .lease_expired + rc.owesExpired i = hits L i (·.endedAt.isSome)
  stopped : ∀ i, entries U i .worker_stopped + rc.owesStopped i = hits L i (·.endedAt.isSome)
  staff : ∀ l ∈ L, (l.workerInstanceId, rc.expects l) ∈ W
  hired : ∀ x ∈ gs.filterMap (·.worker?), (x, .running) ∈ W
  apart : (L.map (·.workerInstanceId) ++ gs.filterMap (·.worker?)).Nodup
  once : (rc.left.map (·.leaseID)).Nodup
  mirrors : ∀ a ∈ rc.left, ∃ l ∈ L, Mirrors a l
  holds : rc.Holds L

/-! ## The steps of a grant -/

namespace Books

theorem ask (h : Books L U W rc gs) : Books L U W rc (gs ++ [.asking]) where
  ids := h.ids
  named := h.named
  keys := h.keys
  reasoned := h.reasoned
  started i := by simpa [GrantStage.owesStart] using h.started i
  issued i := by simpa [GrantStage.owesIssue] using h.issued i
  expired := h.expired
  stopped := h.stopped
  staff := h.staff
  hired x hx := h.hired x (by simpa [GrantStage.worker?] using hx)
  apart := by simpa [GrantStage.worker?] using h.apart
  once := h.once
  mirrors := h.mirrors
  holds := h.holds

theorem hire (h : Books L U W rc (xs ++ .asking :: ys)) {worker : Id} (hnew : ∀ x ∈ W, x.1 ≠ worker) :
    Books L U ((worker, .running) :: W) rc (xs ++ .hired worker :: ys) where
  ids := h.ids
  named := h.named
  keys := List.nodup_cons.2 ⟨fun hx => by
    obtain ⟨x, hx, heq⟩ := List.mem_map.1 hx
    exact hnew x hx heq, h.keys⟩
  reasoned := h.reasoned
  started i := by simpa [GrantStage.owesStart] using h.started i
  issued i := by simpa [GrantStage.owesIssue] using h.issued i
  expired := h.expired
  stopped := h.stopped
  staff l hl := List.mem_cons_of_mem _ (h.staff l hl)
  hired x hx := by
    have hold := h.hired x
    simp only [List.filterMap_append, List.filterMap_cons, GrantStage.worker?, List.mem_append, List.mem_cons] at hx hold ⊢
    rcases hx with hx | rfl | hx
    · exact .inr (hold (.inl hx))
    · exact .inl rfl
    · exact .inr (hold (.inr hx))
  apart := by
    have hlease : worker ∉ L.map (·.workerInstanceId) := fun hx => by
      obtain ⟨l, hl, heq⟩ := List.mem_map.1 hx
      exact hnew _ (h.staff l hl) heq
    have hhired : worker ∉ (xs ++ .asking :: ys).filterMap (·.worker?) := fun hx => hnew _ (h.hired _ hx) rfl
    have hapart := h.apart
    simp only [List.filterMap_append, List.filterMap_cons, GrantStage.worker?, List.mem_append, not_or] at hhired hapart ⊢
    rw [← List.append_assoc] at hapart ⊢
    refine List.nodup_middle.2 (List.nodup_cons.2 ⟨?_, hapart⟩)
    simp only [List.mem_append, not_or]
    exact ⟨⟨hlease, hhired.1⟩, hhired.2⟩
  once := h.once
  mirrors := h.mirrors
  holds := h.holds

theorem lease {worker : Id} (h : Books L U W rc (xs ++ .hired worker :: ys)) (l : Lease)
    (hworker : l.workerInstanceId = worker) (hactive : l.endedAt = none ∧ l.endReason = none) (hid : l.id ≠ "")
    (hnew : ∀ r ∈ L, r.id ≠ l.id) : Books (l :: L) U W rc (xs ++ .leased l.id :: ys) where
  ids := List.nodup_cons.2 ⟨fun hx => by
    obtain ⟨r, hr, heq⟩ := List.mem_map.1 hx
    exact hnew r hr heq, h.ids⟩
  named := List.forall_mem_cons.2 ⟨hid, h.named⟩
  keys := h.keys
  reasoned := List.forall_mem_cons.2 ⟨⟨by rw [hactive.1, hactive.2]; rfl, by rw [hactive.2]; nofun⟩, h.reasoned⟩
  started i := by
    have hold := h.started i
    simp [hits_cons, GrantStage.owesStart] at hold ⊢
    omega
  issued i := by
    have hold := h.issued i
    simp [hits_cons, GrantStage.owesIssue] at hold ⊢
    omega
  expired i := by simpa [hits_cons, hactive.1] using h.expired i
  stopped i := by simpa [hits_cons, hactive.1] using h.stopped i
  staff := by
    refine List.forall_mem_cons.2 ⟨?_, h.staff⟩
    have hrun : rc.expects l = .running := by
      unfold ReaperStage.expects statusOf
      rw [hactive.2]
      split <;> simp
    rw [hrun, hworker]
    exact h.hired worker (by simp [GrantStage.worker?])
  hired x hx := h.hired x (by
    simp only [List.filterMap_append, List.filterMap_cons, GrantStage.worker?, List.mem_append, List.mem_cons] at hx ⊢
    exact hx.imp_right .inr)
  apart := by
    have hold := h.apart
    simp only [List.filterMap_append, List.filterMap_cons, GrantStage.worker?, List.map_cons, List.cons_append, hworker]
      at hold ⊢
    rw [← List.append_assoc] at hold ⊢
    exact List.nodup_middle.1 hold
  once := h.once
  mirrors a ha := by
    obtain ⟨r, hr, hm⟩ := h.mirrors a ha
    exact ⟨r, List.mem_cons_of_mem _ hr, hm⟩
  holds := by
    have hold := h.holds
    cases rc with
    | ended a reason ls =>
        obtain ⟨r, hr, hm⟩ := hold.2.row
        exact ⟨hold.1, hold.2.known, r, List.mem_cons_of_mem _ hr, hm⟩
    | stopped a ls => exact hold
    | noted a ls => exact hold
    | reaping since ls => trivial

theorem start {lease : Id} (h : Books L U W rc (xs ++ .leased lease :: ys)) (u : UsageEvent)
    (hu : Notes u lease .worker_started) : Books L (u :: U) W rc (xs ++ .started lease :: ys) where
  ids := h.ids
  named := h.named
  keys := h.keys
  reasoned := h.reasoned
  started i := by
    have hold := h.started i
    simp [entries_cons hu, GrantStage.owesStart, eq_comm] at hold ⊢
    omega
  issued i := by
    have hold := h.issued i
    simp [entries_cons hu, GrantStage.owesIssue] at hold ⊢
    omega
  expired i := by simpa [entries_cons hu] using h.expired i
  stopped i := by simpa [entries_cons hu] using h.stopped i
  staff := h.staff
  hired x hx := h.hired x (by simpa [GrantStage.worker?] using hx)
  apart := by simpa [GrantStage.worker?] using h.apart
  once := h.once
  mirrors := h.mirrors
  holds := h.holds

theorem issue {lease : Id} (h : Books L U W rc (xs ++ .started lease :: ys)) (u : UsageEvent)
    (hu : Notes u lease .lease_issued) : Books L (u :: U) W rc (xs ++ .asking :: ys) where
  ids := h.ids
  named := h.named
  keys := h.keys
  reasoned := h.reasoned
  started i := by simpa [entries_cons hu, GrantStage.owesStart] using h.started i
  issued i := by
    have hold := h.issued i
    simp [entries_cons hu, GrantStage.owesIssue, eq_comm] at hold ⊢
    omega
  expired i := by simpa [entries_cons hu] using h.expired i
  stopped i := by simpa [entries_cons hu] using h.stopped i
  staff := h.staff
  hired x hx := h.hired x (by simpa [GrantStage.worker?] using hx)
  apart := by simpa [GrantStage.worker?] using h.apart
  once := h.once
  mirrors := h.mirrors
  holds := h.holds

end Books

/-- A step of the plan of a grant keeps the books. -/
theorem GrantStep.books {g g' : GrantStage} {n : Option String} (hs : GrantStep w w' g n g')
    (h : Books (leasesOf w) (usageOf w) (standing w) rc (xs ++ g :: ys)) :
    Books (leasesOf w') (usageOf w') (standing w') rc (xs ++ g' :: ys) := by
  cases hs with
  | same hn h' => rw [h'.leases, h'.usage, h'.workers]; exact h
  | hire worker hnew h' => rw [h'.leases, h'.usage, h'.workers]; exact h.hire hnew
  | lease l hworker hactive hid hnew h' =>
      rw [h'.leases, h'.usage, h'.workers]
      exact h.lease l hworker hactive hid hnew
  | start u hu h' => rw [h'.leases, h'.usage, h'.workers]; exact h.start u hu
  | issue u hu h' => rw [h'.leases, h'.usage, h'.workers]; exact h.issue u hu

/-! ## The steps of the reaper -/

theorem mem_judged {v : Verdict} {now : Time} {j : Id} {l : Lease} (h : l ∈ judged v now j L) :
    ∃ r ∈ L, l = if r.id = j then v.judge now r else r := by
  obtain ⟨r, hr, rfl⟩ := List.mem_map.1 h
  exact ⟨r, hr, rfl⟩

theorem judged_mem (v : Verdict) (now : Time) {j : Id} {r : Lease} (h : r ∈ L) :
    (if r.id = j then v.judge now r else r) ∈ judged v now j L := List.mem_map.2 ⟨r, h, rfl⟩

theorem map_judged {v : Verdict} {now : Time} {j : Id} {β : Type} {g : Lease → β} (hg : ∀ l, g (v.judge now l) = g l) :
    (judged v now j L).map g = L.map g := by
  rw [judged, List.map_map]
  refine List.map_congr_left fun l _ => ?_
  rw [Function.comp_apply]
  split
  · exact hg l
  · rfl

theorem judge_id (v : Verdict) (now : Time) (l : Lease) : (v.judge now l).id = l.id := by
  cases v with
  | kept => rfl
  | renewed ttlSec => rfl
  | ended reason => unfold Verdict.judge; dsimp only; split <;> rfl

theorem judge_worker (v : Verdict) (now : Time) (l : Lease) : (v.judge now l).workerInstanceId = l.workerInstanceId := by
  cases v with
  | kept => rfl
  | renewed ttlSec => rfl
  | ended reason => unfold Verdict.judge; dsimp only; split <;> rfl

theorem hits_judged {v : Verdict} {now : Time} {j : Id} (q : Lease → Bool) :
    hits (judged v now j L) i q = hits L i fun l => q (if l.id = j then v.judge now l else l) := by
  refine hits_map (fun l => ?_) q
  split
  · exact judge_id v now l
  · rfl

namespace Books

theorem reap {since since' : Time} {ls ls' : List DB.ActiveLease} (h : Books L U W (.reaping since ls) gs)
    (honce : (ls'.map (·.leaseID)).Nodup) (hmirrors : ∀ a ∈ ls', ∃ l ∈ L, Mirrors a l) :
    Books L U W (.reaping since' ls') gs :=
  ⟨h.ids, h.named, h.keys, h.reasoned, h.started, h.issued, h.expired, h.stopped, h.staff, h.hired, h.apart, honce,
    hmirrors, trivial⟩

theorem renew {since : Time} {a : DB.ActiveLease} {ls : List DB.ActiveLease} (h : Books L U W (.reaping since ls) gs)
    (ttlSec : Int) (ha : a ∈ ls) (hauto : a.autoRenew = true) :
    Books (judged (.renewed ttlSec) since a.leaseID L) U W (.reaping since ls) gs where
  ids := by rw [map_judged (judge_id _ _)]; exact h.ids
  named l hl := by
    obtain ⟨r, hr, rfl⟩ := mem_judged hl
    split <;> exact h.named r hr
  keys := h.keys
  reasoned l hl := by
    obtain ⟨r, hr, rfl⟩ := mem_judged hl
    split <;> exact ⟨(h.reasoned r hr).both, (h.reasoned r hr).known⟩
  started i := by rw [hits_judged]; exact h.started i
  issued i := by rw [hits_judged]; exact h.issued i
  expired i := by
    rw [hits_judged, h.expired i]
    congr 1
    funext l
    split <;> rfl
  stopped i := by
    rw [hits_judged, h.stopped i]
    congr 1
    funext l
    split <;> rfl
  staff l hl := by
    obtain ⟨r, hr, rfl⟩ := mem_judged hl
    split <;> exact h.staff r hr
  hired := h.hired
  apart := by rw [map_judged (judge_worker _ _)]; exact h.apart
  once := h.once
  mirrors a' ha' := by
    obtain ⟨r, hr, hm⟩ := h.mirrors a' ha'
    refine ⟨_, judged_mem _ _ hr, ?_⟩
    split
    · next hid =>
        -- both rows of the snapshot show the same lease
        obtain ⟨r', hr', hm'⟩ := h.mirrors a ha
        obtain rfl : r = r' := List.inj_on_of_nodup_map h.ids hr hr' (hid.trans hm'.id.symm)
        refine ⟨hm.id, hm.worker, hm.active, hm.renews, fun hne => ?_⟩
        rw [← hm.renews, hm'.renews, hauto] at hne
        cases hne
    · exact hm
  holds := trivial

theorem endLease {since now : Time} {a : DB.ActiveLease} {ls all : List DB.ActiveLease} {reason : LeaseEndReason}
    (h : Books L U W (.reaping since all) gs) (hl : a :: ls <:+ all)
    (hreason : reason = .expired ∨ reason = .killed ∨ reason = .hours_cap) :
    Books (judged (.ended reason) now a.leaseID L) U W (.ended a reason ls) gs := by
  obtain ⟨r, hr, hm⟩ := h.mirrors a (hl.subset List.mem_cons_self)
  have honce := h.once.sublist (hl.sublist.map _)
  rw [List.map_cons, List.nodup_cons] at honce
  have hrow : ∀ l ∈ L, l.id = a.leaseID → l = r := fun l hl hid =>
    List.inj_on_of_nodup_map h.ids hl hr (hid.trans hm.id.symm)
  have hcount : ∀ i, hits (judged (.ended reason) now a.leaseID L) i (·.endedAt.isSome) =
      hits L i (·.endedAt.isSome) + if a.leaseID = i then 1 else 0 := by
    intro i
    rw [hits_judged]
    by_cases hi : a.leaseID = i
    · rw [← hi, ← hm.id, hits_of_mem h.ids hr, hits_of_mem h.ids hr]
      simp [hm.id, hm.active.1, Verdict.judge]
    · rw [if_neg hi, Nat.add_zero]
      refine hits_congr fun l _ hid => ?_
      rw [if_neg fun heq => hi (heq.symm.trans hid)]
  refine ⟨?_, ?_, h.keys, ?_, fun i => ?_, fun i => ?_, fun i => ?_, fun i => ?_, ?_, h.hired, ?_, honce.2, ?_, ?_⟩
  · rw [map_judged (judge_id _ _)]
    exact h.ids
  · intro l hl
    obtain ⟨x, hx, rfl⟩ := mem_judged hl
    split
    · rw [judge_id]
      exact h.named x hx
    · exact h.named x hx
  · intro l hl
    obtain ⟨x, hx, rfl⟩ := mem_judged hl
    split
    · next hid =>
        obtain rfl := hrow x hx hid
        simp only [Verdict.judge, hm.active.1, if_true]
        exact ⟨rfl, fun y hy => Option.some.inj hy ▸ hreason⟩
    · exact h.reasoned x hx
  · rw [hits_judged]
    exact h.started i
  · rw [hits_judged]
    exact h.issued i
  · rw [hcount, ← h.expired i]
    rfl
  · rw [hcount, ← h.stopped i]
    rfl
  · intro l hl
    obtain ⟨x, hx, rfl⟩ := mem_judged hl
    have hstaff := h.staff x hx
    split
    · next hid =>
        obtain rfl := hrow x hx hid
        have hrun : statusOf x = .running := by
          unfold statusOf
          rw [hm.active.2]
        rw [judge_worker]
        simp only [ReaperStage.expects, judge_id, hid, if_true]
        exact hrun ▸ hstaff
    · next hid =>
        simp only [ReaperStage.expects, if_neg (Ne.symm hid)]
        exact hstaff
  · rw [map_judged (judge_worker _ _)]
    exact h.apart
  · intro a' ha'
    obtain ⟨x, hx, hm'⟩ := h.mirrors a' (hl.subset (List.mem_cons_of_mem _ ha'))
    have hne : x.id ≠ a.leaseID := fun heq => honce.1 (heq ▸ hm'.id ▸ List.mem_map_of_mem ha')
    have hsame := judged_mem (.ended reason) now (j := a.leaseID) hx
    rw [if_neg hne] at hsame
    exact ⟨x, hsame, hm'⟩
  · refine ⟨hm.id ▸ h.named r hr, hreason, _, judged_mem _ _ hr, ?_⟩
    rw [if_pos hm.id]
    simp only [Verdict.judge, hm.active.1, if_true]
    exact ⟨hm.id, hm.worker, trivial⟩

theorem dismiss {a : DB.ActiveLease} {reason : LeaseEndReason} {ls : List DB.ActiveLease}
    (h : Books L U W (.ended a reason ls) gs) : Books L U (W.map (dismissed a.workerID reason)) (.stopped a ls) gs := by
  have hfst : ∀ x : Id × WorkerStatus, (dismissed a.workerID reason x).1 = x.1 := by
    intro x
    unfold dismissed
    split_ifs <;> rfl
  have hother : ∀ x : Id × WorkerStatus, x.1 ≠ a.workerID → dismissed a.workerID reason x = x := by
    intro x hx
    simp [dismissed, hx]
  obtain ⟨hne, hknown, r, hr, hid, hworker, hend⟩ := h.holds
  have hapart := List.nodup_append.1 h.apart
  refine ⟨h.ids, h.named, ?_, h.reasoned, h.started, h.issued, h.expired, h.stopped, fun l hl => ?_, fun x hx => ?_,
    h.apart, h.once, h.mirrors, hne⟩
  · have hmap : (W.map (dismissed a.workerID reason)).map (·.1) = W.map (·.1) := by
      rw [List.map_map]
      exact List.map_congr_left fun x _ => hfst x
    rw [hmap]
    exact h.keys
  · have hstaff := h.staff l hl
    by_cases hl' : l.id = a.leaseID
    · obtain rfl : l = r := List.inj_on_of_nodup_map h.ids hl hr (hl'.trans hid.symm)
      simp only [ReaperStage.expects, hid, if_true] at hstaff
      refine List.mem_map.2 ⟨_, hstaff, ?_⟩
      rcases hknown with rfl | rfl | rfl <;> simp [dismissed, hworker, ReaperStage.expects, statusOf, hend]
    · have hneworker : l.workerInstanceId ≠ a.workerID := fun heq =>
        hl' ((List.inj_on_of_nodup_map hapart.1 hl hr (heq.trans hworker.symm)) ▸ hid)
      simp only [ReaperStage.expects, if_neg (Ne.symm hl')] at hstaff
      exact List.mem_map.2 ⟨_, hstaff, hother _ hneworker⟩
  · refine List.mem_map.2 ⟨_, h.hired x hx, hother _ fun heq => ?_⟩
    exact hapart.2.2 _ (List.mem_map_of_mem hr) x hx (hworker.trans heq.symm)

theorem expire {a : DB.ActiveLease} {ls : List DB.ActiveLease} (h : Books L U W (.stopped a ls) gs) (u : UsageEvent)
    (hu : a.leaseID ≠ "" → Notes u a.leaseID .lease_expired) : Books L (u :: U) W (.noted a ls) gs where
  ids := h.ids
  named := h.named
  keys := h.keys
  reasoned := h.reasoned
  started i := by simpa [entries_cons (hu h.holds)] using h.started i
  issued i := by simpa [entries_cons (hu h.holds)] using h.issued i
  expired i := by
    have hold := h.expired i
    simp [entries_cons (hu h.holds), ReaperStage.owesExpired, eq_comm] at hold ⊢
    omega
  stopped i := by simpa [entries_cons (hu h.holds), ReaperStage.owesStopped] using h.stopped i
  staff := h.staff
  hired := h.hired
  apart := h.apart
  once := h.once
  mirrors := h.mirrors
  holds := h.holds

theorem stop {a : DB.ActiveLease} {ls : List DB.ActiveLease} {since : Time} (h : Books L U W (.noted a ls) gs)
    (u : UsageEvent) (hu : a.leaseID ≠ "" → Notes u a.leaseID .worker_stopped) :
    Books L (u :: U) W (.reaping since ls) gs where
  ids := h.ids
  named := h.named
  keys := h.keys
  reasoned := h.reasoned
  started i := by simpa [entries_cons (hu h.holds)] using h.started i
  issued i := by simpa [entries_cons (hu h.holds)] using h.issued i
  expired i := by simpa [entries_cons (hu h.holds), ReaperStage.owesExpired] using h.expired i
  stopped i := by
    have hold := h.stopped i
    simp [entries_cons (hu h.holds), ReaperStage.owesStopped, eq_comm] at hold ⊢
    omega
  staff := h.staff
  hired := h.hired
  apart := h.apart
  once := h.once
  mirrors := h.mirrors
  holds := trivial

end Books

theorem Warranted.known {since : Time} {a : DB.ActiveLease} {reason : LeaseEndReason} (h : Warranted since a reason) :
    reason = .expired ∨ reason = .killed ∨ reason = .hours_cap := by
  rcases h with h | h | h
  · exact .inr (.inl h)
  · exact .inr (.inr h)
  · exact .inl h.1

theorem mirrors_live (s : Store) (h : ∀ l ∈ (s .lease).rows, Reasoned l) :
    ∀ a ∈ liveLeases s, ∃ l ∈ (s .lease).rows, Mirrors a l := by
  intro a ha
  obtain ⟨l, hl, hend, rfl⟩ := mem_live ha
  have hreason : l.endReason.isSome = false := by rw [← (h l hl).both, hend]; rfl
  exact ⟨l, hl, rfl, rfl, ⟨hend, by simpa using hreason⟩, rfl, fun _ => rfl⟩

/-- A step of the plan of the reaper keeps the books. -/
theorem ReaperStep.books {rc' : ReaperStage} {n : Option String} (hs : ReaperStep w w' rc n rc')
    (h : Books (leasesOf w) (usageOf w) (standing w) rc gs) :
    Books (leasesOf w') (usageOf w') (standing w') rc' gs := by
  cases hs with
  | same hn h' => rw [h'.leases, h'.usage, h'.workers]; exact h
  | clock h' => rw [h'.leases, h'.usage, h'.workers]; exact h.reap h.once h.mirrors
  | snapshot h' =>
      rw [h'.leases, h'.usage, h'.workers]
      exact h.reap (nodup_live w.db) (mirrors_live w.db h.reasoned)
  | renew ttlSec hl hauto h' => rw [h'.leases, h'.usage, h'.workers]; exact h.renew ttlSec hl hauto
  | endLease reason hl hreason h' => rw [h'.leases, h'.usage, h'.workers]; exact h.endLease hl hreason.known
  | dismiss hn h' => rw [h'.leases, h'.usage, h'.workers]; exact h.dismiss
  | expire u hu h' => rw [h'.leases, h'.usage, h'.workers]; exact h.expire u hu
  | stop u hu h' => rw [h'.leases, h'.usage, h'.workers]; exact h.stop u hu

end Apifor
