import Apifor.Lemmas.Billing

/-!
# The dunning deadline

An org whose payment failed keeps its plan for the grace, and then the reaper should take it back.
Each further failure of the payment moves `grace_until`, so the reaper only does so once the latest
failure is older than the grace.
-/

namespace Apifor

variable {a : API} {o : Id} {e : Event}

/-! ## Timed runs -/

/-- A state of a run, with the time at which the org's latest failed payment was handled. -/
structure Failing where
  world : World
  last : Time

def failsPayment (a : API) (o : Id) (w : World) (e : Event) : Bool :=
  match billed a w e with
  | some (org, ev) => decide (org = o) && decide (ev.type = "invoice.payment_failed")
  | none => false

namespace Failing

variable {s : Failing} {t : Time}

def next (a : API) (o : Id) (s : Failing) (e : Event) : Failing :=
  { world := step a s.world e, last := if failsPayment a o s.world e then s.world.now else s.last }

/-- The step handles no payment, no checkout and no change of plan for the org. -/
structure NoRescue (a : API) (o : Id) (s : Failing) (e : Event) : Prop where
  paid : ∀ ev, billed a s.world e = some (o, ev) → ev.type ≠ "invoice.payment_succeeded"
  checkout : ∀ ev, billed a s.world e = some (o, ev) → ev.type ≠ "checkout.session.completed"
  plan : askedPlan a s.world e ≠ some o

/-- The step is a pass of the reaper later than the grace after `t`. -/
structure LateReap (a : API) (t : Time) (s : Failing) (e : Event) : Prop where
  reap : e = .reap
  running : s.world.crashed = false
  late : t + a.graceSec * second < s.world.now

/-- A late pass leaves the org on the free plan. -/
def Downgrades (a : API) (o : Id) (t : Time) (s : Failing) (e : Event) : Prop :=
  LateReap a t s e → DB.planOf (step a s.world e).db o = some .free

/-- At a late pass the org is on the free plan already, or its latest failure is older than the grace. -/
def Unretried (a : API) (o : Id) (t : Time) (s : Failing) (e : Event) : Prop :=
  LateReap a t s e → DB.planOf s.world.db o = some .free ∨ s.last + a.graceSec * second < s.world.now

theorem NoRescue.of_failed {org : Id} {ev : API.StripeEvent} (hb : billed a s.world e = some (org, ev))
    (ht : ev.type = "invoice.payment_failed") : NoRescue a o s e := by
  refine ⟨fun ev' hb' => ?_, fun ev' hb' => ?_, fun hp => ?_⟩
  · rw [hb] at hb'
    cases hb'
    simp [ht]
  · rw [hb] at hb'
    cases hb'
    simp [ht]
  · rw [billed_of_askedPlan hp] at hb
    cases hb

/-! ## The invariant -/

/-- The grace of the subscriptions runs from the latest failure. -/
structure InGrace (a : API) (o : Id) (s : Failing) : Prop where
  plan : ∃ p, DB.planOf s.world.db o = some p
  some : subsOf s.world.db o ≠ []
  subs : ∀ b ∈ subsOf s.world.db o, b.status = .past_due ∧ b.graceUntil = Option.some (s.last + a.graceSec * second)

/-- The org is on the free plan, or in the grace. -/
def Dunned (a : API) (o : Id) (s : Failing) : Prop := DB.planOf s.world.db o = some .free ∨ InGrace a o s

theorem InGrace.overdue (h : InGrace a o s) :
    Overdue s.world.now s.world.db o ↔ s.last + a.graceSec * second < s.world.now := by
  constructor
  · rintro ⟨b, hb, -, g, hg, hlt⟩
    rw [(h.subs b hb).2] at hg
    cases hg
    exact hlt
  · intro hlt
    obtain ⟨b, hb⟩ := List.exists_mem_of_ne_nil _ h.some
    exact ⟨b, hb, (h.subs b hb).1, _, (h.subs b hb).2, hlt⟩

theorem not_failsPayment {w : World} (h : ∀ ev, billed a w e ≠ some (o, ev)) : failsPayment a o w e = false := by
  unfold failsPayment
  split
  · next org ev hb =>
      rw [Bool.and_eq_false_iff]
      refine .inl (decide_eq_false ?_)
      rintro rfl
      exact h ev hb
  · rfl

theorem failsPayment_eq {w : World} {ev : API.StripeEvent} (h : billed a w e = some (o, ev)) :
    failsPayment a o w e = decide (ev.type = "invoice.payment_failed") := by
  simp [failsPayment, h]

theorem InGrace.of_same {s' : Failing} (h : InGrace a o s) (hw : SameBill o s.world.db s'.world.db) (hl : s'.last = s.last) :
    InGrace a o s' := by
  obtain ⟨p, hp⟩ := h.plan
  refine ⟨⟨p, hw.plan p hp⟩, ?_, ?_⟩
  · rw [hw.subs]
    exact h.some
  · rw [hw.subs, hl]
    exact h.subs

/-- A failed payment starts the grace of an org that has a subscription. -/
theorem InGrace.of_failed {w : World} {s' : Failing} {ev : API.StripeEvent} (hp : ∃ p, DB.planOf w.db o = Option.some p)
    (hs : subsOf w.db o ≠ []) (ht : ev.type = "invoice.payment_failed") (h : API.EventBill a o ev w.now w.db s'.world.db)
    (hl : s'.last = w.now) : InGrace a o s' := by
  cases h with
  | failed _ plan subs =>
      refine ⟨by rwa [plan], by simpa [subs] using hs, fun b hb => ?_⟩
      rw [subs] at hb
      obtain ⟨b', -, rfl⟩ := List.mem_map.1 hb
      exact ⟨rfl, by rw [hl]⟩
  | deleted ht' => simp [ht] at ht'
  | paid ht' => simp [ht] at ht'
  | other ht' => exact absurd ht ht'

/-- A step that rescues nobody leaves the org on the free plan or in its grace. -/
theorem Dunned.next (h : Dunned a o s) (hr : NoRescue a o s e) : Dunned a o (s.next a o e) := by
  cases step_bill a o s.world e with
  | same hno _ hsame =>
      rcases h with hfree | hg
      · exact .inl (hsame.plan _ hfree)
      · exact .inr (hg.of_same hsame (by simp [Failing.next, not_failsPayment hno]))
  | event ev hb hev =>
      by_cases ht : ev.type = "invoice.payment_failed"
      · rcases h with hfree | hg
        · cases hev with
          | failed _ plan _ => exact .inl (plan.trans hfree)
          | deleted ht' => simp [ht] at ht'
          | paid ht' => simp [ht] at ht'
          | other ht' => exact absurd ht ht'
        · refine .inr (.of_failed hg.plan hg.some ht hev ?_)
          simp [Failing.next, failsPayment_eq hb, ht]
      · cases hev with
        | failed ht' => exact absurd ht' ht
        | deleted _ plan =>
            refine .inl ?_
            rcases h with hfree | hg
            · exact plan.trans (by rw [hfree]; rfl)
            · obtain ⟨p, hp⟩ := hg.plan
              exact plan.trans (by rw [hp]; rfl)
        | paid ht' =>
            rcases ht' with hc | hp
            · exact absurd hc (hr.checkout ev hb)
            · exact absurd hp (hr.paid ev hb)
        | other _ hsame =>
            rcases h with hfree | hg
            · exact .inl (hsame.plan _ hfree)
            · exact .inr (hg.of_same hsame (by simp [Failing.next, failsPayment_eq hb, ht]))
  | plan hp => exact absurd hp hr.plan
  | reap he hc hreap =>
      subst he
      by_cases hdue : Overdue s.world.now s.world.db o
      · rcases h with hfree | hg
        · exact .inl (hreap.due hdue _ hfree)
        · obtain ⟨p, hp⟩ := hg.plan
          exact .inl (hreap.due hdue _ hp)
      · have hsame := hreap.other hdue
        rcases h with hfree | hg
        · exact .inl (hsame.plan _ hfree)
        · exact .inr (hg.of_same hsame rfl)

/-- A late pass downgrades exactly the orgs whose latest failure is older than the grace. -/
theorem Dunned.downgrades (h : Dunned a o s) : Downgrades a o t s e ↔ Unretried a o t s e := by
  refine forall_congr' fun hlate => ?_
  obtain ⟨rfl, hc, -⟩ := hlate
  have hreap : ReapBill s.world.now o s.world.db (step a s.world .reap).db := by
    cases step_bill a o s.world .reap with
    | same _ hcr _ => rw [hcr rfl] at hc; cases hc
    | event ev hb _ => cases hb
    | plan hp => cases hp
    | reap _ _ hreap => exact hreap
  rcases h with hfree | hg
  · refine iff_of_true ?_ (.inl hfree)
    by_cases hdue : Overdue s.world.now s.world.db o
    · exact hreap.due hdue _ hfree
    · exact (hreap.other hdue).plan _ hfree
  · obtain ⟨p, hp⟩ := hg.plan
    rw [← hg.overdue]
    by_cases hdue : Overdue s.world.now s.world.db o
    · exact iff_of_true (hreap.due hdue _ hp) (.inr hdue)
    · rw [(hreap.other hdue).plan _ hp, hp]
      simp [hdue]

end Failing

/-! ## Runs -/

/-- After a failed payment, with no payment, checkout or change of plan, every late pass of the reaper
leaves the org on the free plan if and only if at each of them the org is there already or its latest
failure is older than the grace. -/
theorem dunning_deadline (a : API) (o : Id) (w : World) (e : Event) (es : List Event) (ev : API.StripeEvent)
    (hfail : billed a w e = some (o, ev)) (ht : ev.type = "invoice.payment_failed")
    (hplan : ∃ p, DB.planOf w.db o = some p) (hsubs : subsOf w.db o ≠ [])
    (hes : Runs.Meets (Failing.next a o) (Failing.NoRescue a o) ⟨step a w e, w.now⟩ es) :
    Runs.Meets (Failing.next a o) (Failing.Downgrades a o w.now) ⟨step a w e, w.now⟩ es ↔
      Runs.Meets (Failing.next a o) (Failing.Unretried a o w.now) ⟨step a w e, w.now⟩ es := by
  have hstart : Failing.Dunned a o ⟨step a w e, w.now⟩ := by
    cases step_bill a o w e with
    | same hno _ _ => exact absurd hfail (hno ev)
    | event ev' hb hev =>
        rw [hb] at hfail
        cases hfail
        exact .inr (.of_failed hplan hsubs ht hev rfl)
    | plan hp =>
        rw [billed_of_askedPlan hp] at hfail
        cases hfail
    | reap he _ _ => subst he; cases hfail
  exact Runs.meets_congr (P := Failing.Dunned a o) (fun s e h hr => h.next hr) (fun s e h _ => h.downgrades) hstart hes

/-! ## A payment that keeps failing -/

namespace Sample

/-- An installation that takes billing events for the sample org. -/
def paying : API := { stripeWebhookSecret := "whsec", hmac := fun _ _ => [10] }

def stripeBody (type : String) : String :=
  "\x7b\"type\":\"" ++ type ++ "\",\"data\":\x7b\"object\":\x7b\"client_reference_id\":\"org_a\"\x7d\x7d\x7d"

/-- A billing event that was signed at the given second. -/
def stripe (type : String) (sec : Nat) : Event :=
  .rest { method := "POST", path := "/v1/billing/webhook", signature := "t=" ++ toString sec ++ ",v1=0a",
          body := stripeBody type }

/-- The sample org on a plan it pays for. -/
def subscribed : World :=
  { db := (Store.ofRows (plans ++ rows ++
      [⟨.subscription, { id := "sub_a", orgId := "org_a", plan := .pro, status := .active }⟩])).setPlan "org_a" .pro }

/-- The sample org right after its first failed payment. -/
def failing : Failing := ⟨step paying subscribed (stripe "invoice.payment_failed" 0), subscribed.now⟩

/-- The payment fails again just before the week is over. -/
def retriedRun : List Event :=
  [.tick 604799000000000, stripe "invoice.payment_failed" 604799, .tick 2000000000, .reap]

/-- The week passes. -/
def unpaidRun : List Event := [.tick 604801000000000, .reap]

theorem payment_fails : ∃ ev, billed paying subscribed (stripe "invoice.payment_failed" 0) = some ("org_a", ev) ∧
    ev.type = "invoice.payment_failed" := by
  have hany : (billed paying subscribed (stripe "invoice.payment_failed" 0)).any
      (fun q => decide (q.1 = "org_a") && decide (q.2.type = "invoice.payment_failed")) = true := by decide +kernel
  obtain ⟨⟨org, ev⟩, hb, hq⟩ := (Option.any_eq_true _ _).1 hany
  simp only [Bool.and_eq_true, decide_eq_true_eq] at hq
  exact ⟨ev, by rw [hb, hq.1], hq.2⟩

theorem payment_fails_again : ∃ org ev,
    billed paying (failing.next paying "org_a" (.tick 604799000000000)).world (stripe "invoice.payment_failed" 604799) =
      some (org, ev) ∧ ev.type = "invoice.payment_failed" := by
  have hany : (billed paying (failing.next paying "org_a" (.tick 604799000000000)).world
      (stripe "invoice.payment_failed" 604799)).any (fun q => decide (q.2.type = "invoice.payment_failed")) = true := by
    decide +kernel
  obtain ⟨⟨org, ev⟩, hb, hq⟩ := (Option.any_eq_true _ _).1 hany
  exact ⟨org, ev, hb, of_decide_eq_true hq⟩

end Sample

/-- A payment that fails again within the grace keeps the plan past the deadline. -/
theorem retried_dunning :
    Runs.Meets (Failing.next Sample.paying "org_a") (Failing.NoRescue Sample.paying "org_a") Sample.failing
        Sample.retriedRun ∧
      ¬ Runs.Meets (Failing.next Sample.paying "org_a")
        (Failing.Downgrades Sample.paying "org_a" Sample.subscribed.now) Sample.failing Sample.retriedRun := by
  refine ⟨⟨⟨nofun, nofun, nofun⟩, ?_, ⟨nofun, nofun, nofun⟩, ⟨nofun, nofun, nofun⟩, trivial⟩, ?_⟩
  · obtain ⟨org, ev, hb, ht⟩ := Sample.payment_fails_again
    exact .of_failed hb ht
  · rintro ⟨-, -, -, hdown, -⟩
    have hlate (s : Failing) (h : (s.world.crashed = false ∧ Sample.subscribed.now + Sample.paying.graceSec * second <
        s.world.now) ∧ DB.planOf (step Sample.paying s.world .reap).db "org_a" ≠ some .free) :
        ¬ Failing.Downgrades Sample.paying "org_a" Sample.subscribed.now s .reap :=
      fun hd => h.2 (hd ⟨rfl, h.1.1, h.1.2⟩)
    exact hlate _ (by decide +kernel) hdown

theorem dunning_deadline_sample :
    Runs.Meets (Failing.next Sample.paying "org_a") (Failing.Downgrades Sample.paying "org_a" Sample.subscribed.now)
      Sample.failing Sample.unpaidRun := by
  obtain ⟨ev, hb, ht⟩ := Sample.payment_fails
  have hsub : DB.planOf Sample.subscribed.db "org_a" = some .pro ∧ subsOf Sample.subscribed.db "org_a" ≠ [] := by
    decide +kernel
  refine (dunning_deadline _ _ _ _ Sample.unpaidRun ev hb ht ⟨.pro, hsub.1⟩ hsub.2 ?_).2 ?_
  · exact ⟨⟨nofun, nofun, nofun⟩, ⟨nofun, nofun, nofun⟩, trivial⟩
  · refine ⟨fun h => ?_, fun _ => .inr ?_, trivial⟩
    · cases h.reap
    · decide +kernel

end Apifor
