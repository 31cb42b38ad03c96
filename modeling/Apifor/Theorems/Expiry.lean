import Apifor.Theorems.Ledger

/-!
# The TTL of a lease

A lease ends with reason `expired` only if it is one that is not renewed, and after its expiry; and a pass of
the reaper that comes to such a lease after its expiry does not end before the lease has.
-/

namespace Apifor

variable {w w' : World} {L : List Lease} {rc rc' : ReaperStage} {gs gs' : List GrantStage}

/-! ## The terms of a lease -/

/-- A lease that has expired was not to be renewed, and its expiry was over. -/
def Lapsed (l : Lease) : Prop :=
  l.endReason = some .expired → l.autoRenew = false ∧ ∃ exp t, l.expiresAt = some exp ∧ l.endedAt = some t ∧ exp < t

/-- The terms of a lease are those of its grant, except that a renewed lease has a new expiry; a lease that has
ended stays so. -/
structure Terms (l l' : Lease) : Prop where
  id : l'.id = l.id
  renews : l'.autoRenew = l.autoRenew
  expires : l.autoRenew = false → l'.expiresAt = l.expiresAt
  ended : l.endedAt.isSome = true → l'.endedAt.isSome = true

theorem Terms.refl (l : Lease) : Terms l l := ⟨rfl, rfl, fun _ => rfl, fun h => h⟩

theorem Terms.trans {l l' l'' : Lease} (h : Terms l l') (h' : Terms l' l'') : Terms l l'' where
  id := h'.id.trans h.id
  renews := h'.renews.trans h.renews
  expires hl := (h'.expires (h.renews.trans hl)).trans (h.expires hl)
  ended hl := h'.ended (h.ended hl)

/-- The row of the snapshot has the terms of a lease. -/
structure Shows (a : DB.ActiveLease) (l : Lease) : Prop where
  id : l.id = a.leaseID
  renews : l.autoRenew = a.autoRenew
  expires : a.autoRenew = false → l.expiresAt = a.expiresAt

theorem Shows.terms {a : DB.ActiveLease} {l l' : Lease} (h : Shows a l) (ht : Terms l l') : Shows a l' where
  id := ht.id.trans h.id
  renews := ht.renews.trans h.renews
  expires ha := (ht.expires (h.renews.trans ha)).trans (h.expires ha)

/-- What the leases are after a step. -/
structure Lasting (w w' : World) : Prop where
  now : w.now ≤ w'.now
  terms : ∀ l ∈ leasesOf w, ∃ l' ∈ leasesOf w', Terms l l'

theorem Lasting.trans {w'' : World} (h : Lasting w w') (h' : Lasting w' w'') : Lasting w w'' where
  now := Int.le_trans h.now h'.now
  terms l hl := by
    obtain ⟨l', hl', ht⟩ := h.terms l hl
    obtain ⟨l'', hl'', ht'⟩ := h'.terms l' hl'
    exact ⟨l'', hl'', ht.trans ht'⟩

/-- What the reaper remembers: the time of its decision, and the terms of the leases it still has to see. -/
structure Recalls (w : World) (rc : ReaperStage) : Prop where
  since : ∀ t ls, rc = .reaping t ls → t ≤ w.now
  shows : ∀ a ∈ rc.left, ∃ l ∈ leasesOf w, Shows a l

structure Honoured (w : World) (rc : ReaperStage) : Prop where
  lapsed : ∀ l ∈ leasesOf w, Lapsed l
  recalls : Recalls w rc

theorem Lasting.same (hnow : w.now ≤ w'.now) (hl : leasesOf w' = leasesOf w) : Lasting w w' :=
  ⟨hnow, fun l h => ⟨l, hl ▸ h, .refl l⟩⟩

/-- A step that leaves the leases as they are. -/
theorem Honoured.same (h : Honoured w rc) (hnow : w.now ≤ w'.now) (hl : leasesOf w' = leasesOf w)
    (hsince : ∀ t ls, rc' = .reaping t ls → t ≤ w'.now) (hleft : ∀ a ∈ rc'.left, a ∈ rc.left) :
    Honoured w' rc' ∧ Lasting w w' := by
  refine ⟨⟨hl ▸ h.lapsed, hsince, fun a ha => ?_⟩, .same hnow hl⟩
  rw [hl]
  exact h.recalls.shows a (hleft a ha)

theorem GrantStep.honoured {g g' : GrantStage} {n : Option String} (hs : GrantStep w w' g n g') (h : Honoured w rc) :
    Honoured w' rc ∧ Lasting w w' := by
  have hquiet : ∀ {U W}, After w w' (leasesOf w) U W → Honoured w' rc ∧ Lasting w w' := fun h' =>
    h.same (Int.le_of_eq h'.now.symm) h'.leases (fun t ls hrc => h'.now ▸ h.recalls.since t ls hrc) fun a ha => ha
  cases hs with
  | same hn h' => exact hquiet h'
  | hire worker hnew h' => exact hquiet h'
  | lease l hworker hactive hid hnew h' =>
      refine ⟨⟨?_, fun t ls hrc => h'.now ▸ h.recalls.since t ls hrc, fun a ha => ?_⟩, Int.le_of_eq h'.now.symm, fun r hr => ?_⟩
      · rw [h'.leases]
        exact List.forall_mem_cons.2 ⟨fun hexp => absurd (hactive.2.symm.trans hexp) nofun, h.lapsed⟩
      · obtain ⟨r, hr, hshows⟩ := h.recalls.shows a ha
        exact ⟨r, h'.leases ▸ List.mem_cons_of_mem _ hr, hshows⟩
      · exact ⟨r, h'.leases ▸ List.mem_cons_of_mem _ hr, .refl r⟩
  | start u hu h' => exact hquiet h'
  | issue u hu h' => exact hquiet h'

/-- The row that a row of the snapshot shows. -/
theorem Shows.of_id {a : DB.ActiveLease} {r : Lease} (h : ∃ l ∈ leasesOf w, Shows a l) (hr : r ∈ leasesOf w)
    (hid : r.id = a.leaseID) : Shows a r := by
  obtain ⟨l, hl, hshows⟩ := h
  obtain rfl : r = l := List.inj_on_of_nodup_map (lease_ids w.db) hr hl (hid.trans hshows.id.symm)
  exact hshows

/-- A verdict of the reaper on a lease of its snapshot. -/
theorem Honoured.judged {v : Verdict} {now : Time} {a : DB.ActiveLease} (h : Honoured w rc) (ha : a ∈ rc.left)
    (hnow : w'.now = w.now) (hl : leasesOf w' = Apifor.judged v now a.leaseID (leasesOf w))
    (hleft : ∀ a ∈ rc'.left, a ∈ rc.left) (hsince : ∀ t ls, rc' = .reaping t ls → t ≤ w'.now)
    (hv : ∀ l, Shows a l → Lapsed l → Lapsed (v.judge now l) ∧ Terms l (v.judge now l)) :
    Honoured w' rc' ∧ Lasting w w' := by
  have hterms : ∀ l ∈ leasesOf w, Terms l (if l.id = a.leaseID then v.judge now l else l) := fun l hl => by
    split
    · next hid => exact (hv l (.of_id (h.recalls.shows a ha) hl hid) (h.lapsed l hl)).2
    · exact .refl l
  have hlast : Lasting w w' := ⟨Int.le_of_eq hnow.symm, fun l hmem => ⟨_, hl ▸ judged_mem v now hmem, hterms l hmem⟩⟩
  refine ⟨⟨fun l hmem => ?_, hsince, fun a' ha' => ?_⟩, hlast⟩
  · rw [hl] at hmem
    obtain ⟨r, hr, rfl⟩ := mem_judged hmem
    split
    · next hid => exact (hv r (.of_id (h.recalls.shows a ha) hr hid) (h.lapsed r hr)).1
    · exact h.lapsed r hr
  · obtain ⟨r, hr, hshows⟩ := h.recalls.shows a' (hleft a' ha')
    obtain ⟨r', hr', ht⟩ := hlast.terms r hr
    exact ⟨r', hr', hshows.terms ht⟩

theorem ReaperStep.honoured {n : Option String} (hs : ReaperStep w w' rc n rc') (h : Honoured w rc) :
    Honoured w' rc' ∧ Lasting w w' := by
  have hquiet : ∀ {U W}, After w w' (leasesOf w) U W → (∀ t ls, rc' = .reaping t ls → t ≤ w'.now) →
      (∀ a ∈ rc'.left, a ∈ rc.left) → Honoured w' rc' ∧ Lasting w w' := fun h' =>
    h.same (Int.le_of_eq h'.now.symm) h'.leases
  cases hs with
  | same hn h' => exact hquiet h' (fun t ls hrc => h'.now ▸ h.recalls.since t ls hrc) fun a ha => ha
  | clock h' => exact hquiet h' (fun t ls hrc => by cases hrc; exact Int.le_of_eq h'.now.symm) fun a ha => ha
  | snapshot h' =>
      refine ⟨⟨h'.leases ▸ h.lapsed, fun t ls hrc => ?_, fun a ha => ?_⟩, .same (Int.le_of_eq h'.now.symm) h'.leases⟩
      · cases hrc
        exact h'.now ▸ h.recalls.since _ _ rfl
      · obtain ⟨l, hl, -, rfl⟩ := mem_live ha
        exact ⟨l, h'.leases ▸ hl, rfl, rfl, fun _ => rfl⟩
  | renew ttlSec hl hauto h' =>
      refine h.judged hl h'.now h'.leases (fun a ha => ha) (fun t ls hrc => h'.now ▸ h.recalls.since t ls hrc) fun l hshows hover => ?_
      have hl' : l.autoRenew ≠ false := by rw [hshows.renews, hauto]; decide
      exact ⟨fun hexp => absurd (hover hexp).1 hl', rfl, rfl, fun hne => absurd hne hl', fun hend => hend⟩
  | endLease reason hl hreason h' =>
      refine h.judged (hl.subset List.mem_cons_self) h'.now h'.leases
        (fun a ha => hl.subset (List.mem_cons_of_mem _ ha)) nofun fun l hshows hover => ?_
      unfold Verdict.judge
      dsimp only
      split
      · next hactive =>
          refine ⟨fun hexp => ?_, rfl, rfl, fun _ => rfl, fun _ => rfl⟩
          rcases hreason with rfl | rfl | ⟨rfl, hauto, exp, hexpires, hlate⟩
          · cases hexp
          · cases hexp
          · exact ⟨hshows.renews.trans hauto, exp, w.now, (hshows.expires hauto).trans hexpires, rfl,
              Int.lt_of_lt_of_le hlate (h.recalls.since _ _ rfl)⟩
      · exact ⟨hover, .refl l⟩
  | dismiss hn h' => exact hquiet h' nofun fun a ha => ha
  | expire u hu h' => exact hquiet h' nofun fun a ha => ha
  | stop u hu h' => exact hquiet h' (fun t ls hrc => by cases hrc; exact Int.le_of_eq h'.now.symm) fun a ha => ha

theorem Move.honoured (hm : Move w w' rc gs rc' gs') (h : Honoured w rc) : Honoured w' rc' ∧ Lasting w w' := by
  cases hm with
  | wait d hw =>
      subst hw
      have hle : w.now ≤ w.now + d := Int.le_add_of_nonneg_right (Int.natCast_nonneg d)
      exact h.same hle rfl (fun t ls hrc => Int.le_trans (h.recalls.since t ls hrc) hle) fun a ha => ha
  | ask hw => subst hw; exact ⟨h, .same (Int.le_refl _) rfl⟩
  | grant hs => exact hs.honoured h
  | reap hs => exact hs.honoured h

/-! ## A pass that comes to an overdue lease -/

/-- The lease is active, is not renewed, and its expiry is over. -/
def Ripe (i : Id) (exp : Time) (w : World) : Prop :=
  exp < w.now ∧ ∃ l ∈ leasesOf w, l.id = i ∧ l.autoRenew = false ∧ l.expiresAt = some exp ∧ l.endedAt = none

section Busy

variable {i : Id} {exp : Time} {a : DB.ActiveLease} {ls : List DB.ActiveLease} (sv : Server)

/-- The first statement of a revocation ends the lease. -/
theorem busy_revoke (reason : LeaseEndReason) (ha : a.leaseID = i) :
    Prog.Busy DbErr.lost (Ripe i exp) (Server.revoke a reason) := by
  refine .stmt fun w _ hok hripe => absurd hripe ?_
  rintro ⟨-, l, hl, hid, -, -, hactive⟩
  cases hu : update .all .lease (fun l => decide (l.id = a.leaseID ∧ l.endedAt = none))
      (fun l => { l with endedAt := some w.now, endReason := some reason }) w.db (fun _ => rfl) with
  | error e => simp only [Prog.executes, hu, Except.map, update_lost hu, Bool.not_true, Bool.false_eq_true] at hok
  | ok r =>
      simp only [Prog.settle, hu, Except.map] at hl
      have hrows := (update_rows hu).trans (judged_endLease w.now a.leaseID reason (leasesOf w))
      rw [leasesOf, hrows] at hl
      obtain ⟨x, hx, rfl⟩ := mem_judged hl
      split at hactive
      · next h =>
          unfold Verdict.judge at hactive
          dsimp only at hactive
          split at hactive
          · cases hactive
          · next hne => exact hne hactive
      · next h =>
          rw [if_neg h] at hid
          exact h (hid.trans ha.symm)

theorem busy_reapTTL (pl : Option DB.PlanLimits) (ha : a.leaseID = i) (hauto : a.autoRenew = false)
    (hexp : a.expiresAt = some exp) : Prog.Busy DbErr.lost (Ripe i exp) (sv.reapTTL a pl) := by
  unfold Server.reapTTL
  rw [hexp]
  refine .act fun w hripe _ => ?_
  have hnot : ¬ a.autoRenew = true := by rw [hauto]; decide
  simp only [Prog.bind, gt_iff_lt, if_pos hripe.1, if_neg hnot]
  exact busy_revoke .expired ha

theorem busy_reapLease (ha : a.leaseID = i) (hauto : a.autoRenew = false) (hexp : a.expiresAt = some exp) :
    Prog.Busy DbErr.lost (Ripe i exp) (sv.reapLease a) := by
  refine .after _ fun _ => .after _ fun revoked => ?_
  split
  · exact busy_revoke .killed ha
  refine .after _ fun pl => ?_
  dsimp only
  split
  · refine .after _ fun used => ?_
    split
    · exact busy_revoke .hours_cap ha
    · exact busy_reapTTL sv _ ha hauto hexp
  · exact busy_reapTTL sv _ ha hauto hexp

theorem busy_reapLeases (hmem : a ∈ ls) (ha : a.leaseID = i) (hauto : a.autoRenew = false) (hexp : a.expiresAt = some exp) :
    Prog.Busy DbErr.lost (Ripe i exp) (sv.reapLeases ls) := by
  induction ls with
  | nil => cases hmem
  | cons b ls ih =>
      rcases List.mem_cons.1 hmem with rfl | hmem
      · exact (busy_reapLease sv ha hauto hexp).bind _
      · exact .after _ fun _ => ih hmem

theorem busy_reapOnce : Prog.Busy DbErr.lost (Ripe i exp) sv.reapOnce := by
  refine .after _ fun _ => .stmt fun w hripe _ _ => ?_
  obtain ⟨-, l, hl, hid, hauto, hexp, hactive⟩ := hripe
  refine busy_reapLeases sv (a := DB.activeLeaseRow l) ?_ hid hauto hexp
  exact List.mem_map_of_mem (List.mem_filter.2 ⟨List.mem_reverse.2 hl, by simpa using hactive⟩)

end Busy

/-! ## Runs -/

def Ended (i : Id) (w : World) : Prop := ∃ l ∈ leasesOf w, l.id = i ∧ l.endedAt.isSome = true

theorem Ripe.lasting {i : Id} {exp : Time} (h : Ripe i exp w) (hw : Lasting w w') : Ripe i exp w' ∨ Ended i w' := by
  obtain ⟨hlt, l, hl, hid, hauto, hexp, hactive⟩ := h
  obtain ⟨l', hl', ht⟩ := hw.terms l hl
  by_cases hend : l'.endedAt.isSome = true
  · exact .inr ⟨l', hl', ht.id.trans hid, hend⟩
  · refine .inl ⟨Int.lt_of_lt_of_le hlt hw.now, l', hl', ht.id.trans hid, ht.renews.trans hauto,
      (ht.expires hauto).trans hexp, by simpa using hend⟩

theorem Ended.lasting {i : Id} (h : Ended i w) (hw : Lasting w w') : Ended i w' := by
  obtain ⟨l, hl, hid, hend⟩ := h
  obtain ⟨l', hl', ht⟩ := hw.terms l hl
  exact ⟨l', hl', ht.id.trans hid, ht.ended hend⟩

namespace Desk

variable {s : Desk}

/-- The reaper's pass begins, or it comes to the row of the lease in its snapshot. -/
def Examines (sv : Server) (l : Lease) (s : Desk) : Prop :=
  s.reaper.prog = sv.reapOnce ∨ ∃ ls, s.reaper.prog = sv.reapLeases (DB.activeLeaseRow l :: ls)

def Timed (s : Desk) : Prop := ∃ rc ps, s.Plans rc ps ∧ Honoured s.world rc

theorem Timed.next (h : s.Timed) (sv : Server) {e : DeskEvent} (hok : s.succeeds e = true) :
    (s.next sv e).Timed ∧ Lasting s.world (s.next sv e).world := by
  obtain ⟨rc, ps, hp, hh⟩ := h
  obtain ⟨rc', ps', hp', hm⟩ := hp.next sv hok
  obtain ⟨hh', hlast⟩ := hm.honoured hh
  exact ⟨⟨rc', ps', hp', hh'⟩, hlast⟩

theorem Timed.exec (h : s.Timed) (sv : Server) {es : List DeskEvent}
    (hok : Runs.Meets (Desk.next sv) (fun s e => s.succeeds e = true) s es) :
    (Runs.exec (Desk.next sv) s es).Timed ∧ Lasting s.world (Runs.exec (Desk.next sv) s es).world := by
  induction es generalizing s with
  | nil => exact ⟨h, .same (Int.le_refl _) rfl⟩
  | cons e es ih =>
      obtain ⟨h', hlast⟩ := h.next sv hok.1
      obtain ⟨h'', hlast'⟩ := ih h' hok.2
      exact ⟨h'', hlast.trans hlast'⟩

/-- The lease has ended, or it is due and the pass does not end before it has. -/
def Pursued (i : Id) (exp : Time) (s : Desk) : Prop :=
  Ended i s.world ∨ Ripe i exp s.world ∧ Prog.Busy DbErr.lost (Ripe i exp) s.reaper.prog

theorem Pursued.next {i : Id} {exp : Time} (h : s.Pursued i exp) (ht : s.Timed) (sv : Server) {e : DeskEvent}
    (hok : s.succeeds e = true) : (s.next sv e).Pursued i exp := by
  obtain ⟨-, hlast⟩ := ht.next sv hok
  rcases h with hend | ⟨hripe, hbusy⟩
  · exact .inl (hend.lasting hlast)
  rcases hripe.lasting hlast with hripe' | hend
  · refine .inr ⟨hripe', ?_⟩
    cases e with
    | elapse d => exact hbusy
    | request org wsp => exact hbusy
    | pass =>
        have hsame : s.next sv .pass = s := by simp [Desk.next, hbusy.not_ended]
        rw [hsame]
        exact hbusy
    | grantTurn i =>
        simp only [Desk.next]
        cases s.grants[i]? with
        | none => exact hbusy
        | some t => exact hbusy
    | reaperTurn => exact hbusy.tick hok hripe hripe'
  · exact .inl hend

theorem Pursued.exec {i : Id} {exp : Time} (h : s.Pursued i exp) (ht : s.Timed) (sv : Server) {es : List DeskEvent}
    (hok : Runs.Meets (Desk.next sv) (fun s e => s.succeeds e = true) s es) :
    (Runs.exec (Desk.next sv) s es).Pursued i exp := by
  induction es generalizing s with
  | nil => exact h
  | cons e es ih => exact ih (h.next ht sv hok.1) (ht.next sv hok.1).1 hok.2

theorem Examines.pursued {sv : Server} {l l' : Lease} {exp : Time} (h : s.Examines sv l) (ht : Terms l l')
    (hl' : l' ∈ leasesOf s.world) (hauto : l.autoRenew = false) (hexp : l.expiresAt = some exp) (hlt : exp < s.world.now) :
    s.Pursued l.id exp := by
  by_cases hend : l'.endedAt.isSome = true
  · exact .inl ⟨l', hl', ht.id, hend⟩
  refine .inr ⟨⟨hlt, l', hl', ht.id, ht.renews.trans hauto, (ht.expires hauto).trans hexp, by simpa using hend⟩, ?_⟩
  rcases h with hprog | ⟨ls, hprog⟩
  · rw [hprog]
    exact busy_reapOnce sv
  · rw [hprog]
    exact busy_reapLeases sv List.mem_cons_self rfl hauto hexp

end Desk

/-- Take a lease as it was at some time of a run, such as when it was granted. If it ends with reason
`expired`, it was one with a TTL that is not renewed, and its expiry was over. And if such a lease is examined
after its expiry, by a pass of the reaper that begins or comes to it then, it has ended when the pass has. -/
theorem ttl_honoured (sv : Server) (w : World) (es pre post : List DeskEvent) (l : Lease)
    (hstart : ∀ l ∈ leasesOf w, Lapsed l)
    (hok : Runs.Meets (Desk.next sv) (fun s e => s.succeeds e = true) { world := w } (es ++ (pre ++ post)))
    (hl : l ∈ leasesOf (Runs.exec (Desk.next sv) { world := w } es).world) :
    ∃ l' ∈ leasesOf (Runs.exec (Desk.next sv) { world := w } (es ++ (pre ++ post))).world, l'.id = l.id ∧
      (l'.endReason = some .expired → l.autoRenew = false ∧ ∃ exp t, l.expiresAt = some exp ∧ l'.endedAt = some t ∧ exp < t) ∧
      (∀ exp, l.autoRenew = false → l.expiresAt = some exp →
        (Runs.exec (Desk.next sv) { world := w } (es ++ pre)).Examines sv l →
        exp < (Runs.exec (Desk.next sv) { world := w } (es ++ pre)).world.now →
        (Runs.exec (Desk.next sv) { world := w } (es ++ (pre ++ post))).reaper.prog.ended = true →
        l'.endedAt ≠ none) := by
  rw [Runs.meets_append, Runs.meets_append] at hok
  obtain ⟨hes, hpre, hpost⟩ := hok
  rw [Runs.exec_append, Runs.exec_append, Runs.exec_append]
  have h0 : Desk.Timed { world := w } :=
    ⟨_, _, Desk.plans_start w, hstart, fun t ls hrc => by cases hrc; exact Int.le_refl _, nofun⟩
  obtain ⟨h1, -⟩ := h0.exec sv hes
  obtain ⟨h2, hlast⟩ := h1.exec sv hpre
  obtain ⟨h3, hlast'⟩ := h2.exec sv hpost
  obtain ⟨l1, hl1, ht1⟩ := hlast.terms l hl
  obtain ⟨l2, hl2, ht2⟩ := hlast'.terms l1 hl1
  have ht := ht1.trans ht2
  refine ⟨l2, hl2, ht.id, fun hexpired => ?_, fun exp hauto hexp hex hlt hended => ?_⟩
  · obtain ⟨_, _, -, hh⟩ := h3
    obtain ⟨hauto, exp, t, hexp, hend, hlt⟩ := hh.lapsed l2 hl2 hexpired
    have hl : l.autoRenew = false := ht.renews.symm.trans hauto
    exact ⟨hl, exp, t, (ht.expires hl).symm.trans hexp, hend, hlt⟩
  · rcases (hex.pursued ht1 hl1 hauto hexp hlt).exec h2 sv hpost with ⟨r, hr, hid, hend⟩ | ⟨-, hbusy⟩
    · obtain rfl : r = l2 := List.inj_on_of_nodup_map (lease_ids _) hr hl2 (hid.trans ht.id.symm)
      exact Option.isSome_iff_ne_none.1 hend
    · rw [hbusy.not_ended] at hended
      cases hended

namespace Sample

/-- The only lease of the free plan, granted for 240 minutes. -/
def granted : Lease :=
  { id := "lse_1", orgId := "org_a", workerInstanceId := "wki_0", expiresAt := some (14400 * 1000000000) }

theorem no_leases : leasesOf world = [] := by decide +kernel

end Sample

theorem ttl_honoured_sample :
    ∃ l' ∈ leasesOf (Runs.exec (Desk.next {}) { world := Sample.world }
        (.request "org_a" "wsp_a" :: List.replicate 18 (.grantTurn 0) ++
          ([.elapse (15000 * 1000000000), .pass] ++ List.replicate 48 .reaperTurn))).world,
      l'.id = Sample.granted.id ∧
        (l'.endReason = some .expired → Sample.granted.autoRenew = false ∧
          ∃ exp t, Sample.granted.expiresAt = some exp ∧ l'.endedAt = some t ∧ exp < t) ∧
        l'.endedAt ≠ none := by
  obtain ⟨l', hl', hid, hexpired, hended⟩ :=
    ttl_honoured {} Sample.world (.request "org_a" "wsp_a" :: List.replicate 18 (.grantTurn 0))
      [.elapse (15000 * 1000000000), .pass] (List.replicate 48 .reaperTurn) Sample.granted
      (fun l hl => by rw [Sample.no_leases] at hl; cases hl) (by decide +kernel) (by decide +kernel)
  exact ⟨l', hl', hid, hexpired, hended _ rfl rfl (.inl rfl) (by decide +kernel) (by decide +kernel)⟩

end Apifor
