import Apifor.Lemmas.Dispatch

/-!
# The kill-switch

Revoking a device bars it from opening a stream, and makes the reaper end the leases of its org. The
reaper looks at the org's devices, not at the one that a lease was granted to.
-/

namespace Apifor

variable {a : API} {w w' w'' : World} {e : Event} {s s' s'' : Store} {d o : Id} {α β : Type}

/-! ## Devices -/

/-- The device is enrolled and not revoked. -/
def Enrolled (s : Store) (d : Id) : Prop := ∃ r ∈ (s .device).rows, r.id = d ∧ r.revokedAt = none

/-! ## Who a lease was granted to -/

/-- The world, and the device on whose stream each lease was granted. -/
structure Granted where
  world : World
  device : Id → Option Id := fun _ => none

namespace Granted

def hasLease (s : Store) (i : Id) : Bool := ((s .lease).get? (i, 0)).isSome

def next (a : API) (t : Granted) (e : Event) : Granted where
  world := step a t.world e
  device := fun i =>
    match t.world.hears e with
    | some (st, _) => if hasLease (step a t.world e).db i && !hasLease t.world.db i then some st.device else t.device i
    | none => t.device i

/-- A pass of the reaper kills no active lease that was granted on a device that is not revoked. -/
def Spares (a : API) (t : Granted) (e : Event) : Prop :=
  e = .reap → ∀ l ∈ (t.world.db .lease).rows, l.endedAt = none → ∀ d, t.device l.id = some d → Enrolled t.world.db d →
    ∀ l' ∈ ((step a t.world e).db .lease).rows, l'.id = l.id → l'.endedAt ≠ none → l'.endReason ≠ some .killed

/-- A pass of the reaper finds no active lease that was granted on a device that is not revoked, in an
org that has a revoked device. -/
def Unmixed (t : Granted) (e : Event) : Prop :=
  e = .reap → t.world.crashed = false → ∀ l ∈ (t.world.db .lease).rows, l.endedAt = none →
    ∀ d, t.device l.id = some d → Enrolled t.world.db d → DB.revokedDevice t.world.db l.orgId = false

end Granted

/-! ## A pass of the reaper -/

/-- Since `s` only leases of orgs with a revoked device were killed. -/
structure Selective (s s' : Store) : Prop where
  device : (s' .device).rows = (s .device).rows
  lease : ∀ l' ∈ (s' .lease).rows, ∃ l ∈ (s .lease).rows, l.id = l'.id ∧ l.orgId = l'.orgId ∧
    (l'.endedAt = none ∨ l.endedAt ≠ none ∨ l'.endReason ≠ some .killed ∨ DB.revokedDevice s l.orgId = true)

theorem Selective.refl (s : Store) : Selective s s := ⟨rfl, fun l hl => ⟨l, hl, rfl, rfl, by tauto⟩⟩

theorem Selective.congr (h : Selective s s') (hd : (s'' .device).rows = (s' .device).rows) (hl : s'' .lease = s' .lease) :
    Selective s s'' := ⟨hd.trans h.device, by rw [hl]; exact h.lease⟩

/-- An update that ends a lease of an org without a revoked device only for another reason. -/
theorem Selective.update {p : Lease → Bool} {f : Lease → Lease} {hf : ∀ l, key .lease (f l) = key .lease l} {n : Nat}
    (h : Selective s s') (hu : Apifor.update .all .lease p f s' hf = .ok (s'', n)) (ho : ∀ l, (f l).orgId = l.orgId)
    (hk : ∀ l, p l = true → (f l).endedAt = l.endedAt ∧ (f l).endReason = l.endReason ∨
      (f l).endReason ≠ some .killed ∨ ∀ m ∈ (s .lease).rows, m.id = l.id → DB.revokedDevice s m.orgId = true) :
    Selective s s'' := by
  simp only [Apifor.update] at hu
  split_ifs at hu
  cases hu
  refine ⟨by rw [Store.set_of_ne _ _ (by decide)]; exact h.device, fun l' hl' => ?_⟩
  rw [Store.set_same, Table.rows_update] at hl'
  obtain ⟨l, hl, rfl⟩ := List.mem_map.1 hl'
  obtain ⟨m, hm, hid, horg, hcase⟩ := h.lease l hl
  split
  · next hp =>
      have hp : p l = true := by simpa [Scope.writes] using hp
      have hid' : (f l).id = l.id := congrArg Prod.fst (hf l)
      refine ⟨m, hm, hid.trans hid'.symm, horg.trans (ho l).symm, ?_⟩
      rcases hk l hp with ⟨hend, hreason⟩ | hreason | hrevoked
      · rw [hend, hreason]
        exact hcase
      · exact .inr (.inr (.inl hreason))
      · exact .inr (.inr (.inr (hrevoked m hm hid)))
  · exact ⟨m, hm, hid, horg, hcase⟩

/-- What is left selective since `s`. -/
def KeepsSelective (s : Store) (w w' : World) : Prop := Selective s w.db → Selective s w'.db

theorem selective_endLease {i : Id} {reason : LeaseEndReason}
    (h : reason = .killed → ∀ m ∈ (s .lease).rows, m.id = i → DB.revokedDevice s m.orgId = true) :
    Prog.Each (KeepsSelective s) (DB.endLease i reason) :=
  each_exec fun w s' x hs hsel => by
    obtain ⟨⟨s'', n⟩, hu, heq⟩ := map_eq_ok hs
    cases heq
    refine hsel.update hu (fun _ => rfl) fun l hp => .inr ?_
    by_cases hr : reason = .killed
    · refine .inr fun m hm hid => h hr m hm ?_
      simp only [decide_eq_true_eq] at hp
      rw [hid, hp.1]
    · exact .inl fun heq => hr (Option.some.inj heq)

theorem selective_renewLease {i : Id} {ttl : Int} : Prog.Each (KeepsSelective s) (DB.renewLease i ttl) :=
  Prog.Each.bind (Prog.Each.lift fun _ h => h) fun now => each_exec fun w s' x hs hsel => by
    obtain ⟨⟨s'', n⟩, hu, heq⟩ := map_eq_ok hs
    cases heq
    exact hsel.update hu (fun _ => rfl) fun l _ => .inl ⟨rfl, rfl⟩

theorem selective_within {T : Tbl → Bool} {K : Id → Envelope → Prop} {c : Cmd α} (hd : T .device = false)
    (hl : T .lease = false) (h : Within T K c) : Prog.Each (KeepsSelective s) c :=
  Prog.Each.mono (fun _ _ hf hsel => hsel.congr (hf.foot.db.rows_eq hd fun _ => rfl)
    (Table.ext (hf.foot.db.rows_eq hl fun _ => rfl))) h

theorem selective_ledger {c : Cmd α} (h : Within Server.ledgerTables (fun _ e => e.isWork = false) c) :
    Prog.Each (KeepsSelective s) c := selective_within rfl rfl h

theorem KeepsSelective.run {c : Cmd α} (h : Prog.Each (KeepsSelective s) c) (hs : Selective s w.db) :
    Selective s (c.run w).1.db := h.keeps (fun _ h => h) (fun _ _ _ h h' hs => h' (h hs)) w hs

theorem run_orgHasRevokedDevice (o : Id) :
    (DB.orgHasRevokedDevice o).run w = (w, some (DB.revokedDevice w.db o)) := by
  simp only [DB.orgHasRevokedDevice, Prog.bind_def, Prog.run_bind, DB.run_read]
  rfl

theorem revokedDevice_congr (h : (s' .device).rows = (s .device).rows) (o : Id) :
    DB.revokedDevice s' o = DB.revokedDevice s o := by rw [DB.revokedDevice, DB.revokedDevice, h]

/-- The reaper's round over one lease kills it only if its org has a revoked device. -/
theorem reapLease_selective (sv : Server) {l : DB.ActiveLease} (hl : ∀ m ∈ (s .lease).rows, m.id = l.leaseID → m.orgId = l.orgID)
    (hs : Selective s w.db) : Selective s ((sv.reapLease l).run w).1.db := by
  have hend : ∀ reason, reason ≠ .killed → Prog.Each (KeepsSelective s) (DB.endLease l.leaseID reason) := fun reason hne =>
    selective_endLease fun h => absurd h hne
  have hhours : Within Server.ledgerTables (fun _ e => e.isWork = false) (DB.addWorkerSeconds l.orgID sv.cfg.reaperTickSec) :=
    DB.addWorkerSeconds_within rfl
  have hfirst := KeepsSelective.run (selective_ledger hhours) hs
  simp only [Server.reapLease, Prog.bind_def, Prog.run_bind (p := DB.addWorkerSeconds l.orgID sv.cfg.reaperTickSec)]
  split
  · rw [Prog.run_bind_of_eq (run_orgHasRevokedDevice _)]
    split
    · next hrev =>
        refine KeepsSelective.run (Server.revoke_each selective_ledger (selective_endLease fun _ m hm hid => ?_)) hfirst
        rw [hl m hm hid, ← revokedDevice_congr hfirst.device]
        exact hrev
    · refine KeepsSelective.run (Prog.Each.bind (selective_ledger (.ofReadOnly (Server.readOnly_getPlanLimits _))) fun pl => ?_) hfirst
      have httl : ∀ pl, Prog.Each (KeepsSelective s) (sv.reapTTL l pl) := fun pl =>
        Server.reapTTL_each selective_ledger sv (hend _ (by decide)) fun _ => selective_renewLease
      split
      · refine Prog.Each.bind (selective_ledger (.ofReadOnly (Server.readOnly_weekSecondsUsed _))) fun used => ?_
        split
        · exact Server.revoke_each selective_ledger (hend _ (by decide))
        · exact httl _
      · exact httl _
  · exact hfirst

theorem reapLeases_selective (sv : Server) (ls : List DB.ActiveLease)
    (hls : ∀ l ∈ ls, ∀ m ∈ (s .lease).rows, m.id = l.leaseID → m.orgId = l.orgID) (hs : Selective s w.db) :
    Selective s ((sv.reapLeases ls).run w).1.db := by
  induction ls generalizing w with
  | nil => exact hs
  | cons l ls ih =>
      have hl := reapLease_selective sv (hls l List.mem_cons_self) hs
      simp only [Server.reapLeases, Prog.bind_def, Prog.run_bind]
      split
      · exact ih (fun l' hl' => hls l' (List.mem_cons_of_mem _ hl')) hl
      · exact hl

/-- A pass of the reaper kills leases of orgs with a revoked device only. -/
theorem reapOnce_selective (sv : Server) (w : World) : Selective w.db (sv.reapOnce.run w).1.db := by
  have hdun : Within Server.dunningTables (fun _ _ => True) Server.dunning := Server.dunning_within
  have hfirst := KeepsSelective.run (selective_within rfl rfl hdun) (Selective.refl w.db)
  simp only [Server.reapOnce, Prog.bind_def, Prog.run_bind (p := Server.dunning)]
  split
  · rw [DB.allActiveLeases, Prog.run_bind_of_eq (DB.run_read _ _)]
    refine reapLeases_selective sv _ (fun l hl m hm hid => ?_) hfirst
    obtain ⟨r, hr, rfl⟩ := List.mem_map.1 hl
    obtain ⟨m', hm', hid', horg, -⟩ := hfirst.lease r (List.mem_reverse.1 (List.mem_of_mem_filter hr))
    have heq : m = m' := (w.db .lease).eq_of_key_eq hm hm' (congrArg (·, (0 : Int)) (hid.trans hid'.symm))
    rw [heq, horg]
    rfl
  · exact hfirst

/-! ## Runs -/

theorem step_reap (hc : w.crashed = false) : step a w .reap = w.goroutine a.server.reapOnce := by
  simp only [step, hc, Bool.false_eq_true, if_false, react]

theorem Granted.Unmixed.spares {t : Granted} (h : t.Unmixed e) : t.Spares a e := by
  rintro rfl l hl hact d hd hlive l' hl' hid hend hkill
  cases hc : t.world.crashed with
  | true =>
      have hsame : step a t.world .reap = t.world := by rw [step, hc, if_pos rfl]
      rw [hsame] at hl'
      have heq : l' = l := (t.world.db .lease).eq_of_key_eq hl' hl (congrArg (·, (0 : Int)) hid)
      rw [heq] at hend
      exact hend hact
  | false =>
      have hsel := reapOnce_selective a.server t.world
      rw [step_reap hc, World.goroutine_db] at hl'
      obtain ⟨m, hm, hmid, -, hcase⟩ := hsel.lease l' hl'
      have heq : m = l := (t.world.db .lease).eq_of_key_eq hm hl (congrArg (·, (0 : Int)) (hmid.trans hid))
      subst heq
      rcases hcase with hnone | hended | hreason | hrevoked
      · exact hend hnone
      · exact hended hact
      · exact hreason hkill
      · rw [h rfl hc m hm hact d hd hlive] at hrevoked
        cases hrevoked

/-- In every run in which the reaper finds no active lease of a device that is not revoked in an org that
has a revoked one, it kills no lease that was granted on a device that is not revoked. -/
theorem killSwitch_selective (a : API) (t : Granted) (es : List Event)
    (h : Runs.Meets (Granted.next a) Granted.Unmixed t es) : Runs.Meets (Granted.next a) (Granted.Spares a) t es :=
  h.mono fun _ _ => Granted.Unmixed.spares

/-! ## Two devices of one org -/

instance (s : Store) (d : Id) : Decidable (Enrolled s d) := inferInstanceAs (Decidable (∃ r ∈ (s .device).rows, _))

namespace Sample

/-- The installation with the workspace of the seeds and a second device of the org. -/
def twoDevices : World :=
  { db := Store.ofRows (plans ++ rows ++
      [⟨.org, { id := "org_demo", name := "Demo", ownerUserId := "usr_a", createdAt := 0 }⟩,
        ⟨.workspace, { id := "wsp_demo", orgId := "org_demo", name := "Demo" }⟩,
        ⟨.device, { id := "dev_b", orgId := "org_a", userId := "usr_a", label := none, certSerial := some "s2" }⟩]) }

def leaseRequest (i : Nat) : Event := .recv i { type := .LEASE_REQUEST }

/-- The owner revokes a device. -/
def revoke (d : Id) : Event :=
  .rest { method := "POST", path := "/v1/devices/" ++ d ++ "/revoke",
          claims := some { subject := "usr_a", orgID := "org_a", role := "owner" } }

/-- The second device holds a lease when a device is revoked and the reaper passes. -/
def revokedRun (d : Id) : List Event := [.connect "s2", leaseRequest 0, revoke d, .reap]

end Sample

theorem Granted.not_spares {t : Granted} (h : ∃ l ∈ (t.world.db .lease).rows, l.endedAt = none ∧
    (∃ r ∈ (t.world.db .device).rows, r.revokedAt = none ∧ t.device l.id = some r.id) ∧
    ∃ l' ∈ ((step a t.world .reap).db .lease).rows, l'.id = l.id ∧ l'.endedAt ≠ none ∧ l'.endReason = some .killed) :
    ¬ t.Spares a .reap := by
  obtain ⟨l, hl, hact, ⟨r, hr, hlive, hdev⟩, l', hl', hid, hend, hkill⟩ := h
  exact fun hs => hs rfl l hl hact r.id hdev ⟨r, hr, rfl, hlive⟩ l' hl' hid hend hkill

/-- Revoking one device ends the lease of the other one. -/
theorem killed_bystander : ¬ Runs.Meets (Granted.next {}) (Granted.Spares {}) ⟨Sample.twoDevices, fun _ => none⟩
    (Sample.revokedRun "dev_a") := by
  rintro ⟨-, -, -, hreap, -⟩
  exact Granted.not_spares (by decide +kernel) hreap

theorem Granted.Unmixed.of_all {t : Granted} (h : ∀ l ∈ (t.world.db .lease).rows,
    ((t.device l.id).all fun d => decide (¬ Enrolled t.world.db d)) = true) : t.Unmixed e := by
  intro _ _ l hl _ d hd hlive
  have hnot := (Option.all_eq_true _ _).1 (h l hl) d hd
  exact absurd hlive (of_decide_eq_true hnot)

theorem killSwitch_selective_sample : Runs.Meets (Granted.next {}) (Granted.Spares {})
    ⟨Sample.twoDevices, fun _ => none⟩ (Sample.revokedRun "dev_b") :=
  killSwitch_selective {} _ _ ⟨nofun, nofun, nofun, .of_all (by decide +kernel), trivial⟩

end Apifor
