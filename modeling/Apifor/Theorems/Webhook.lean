import Apifor.Lemmas.Deliveries
import Apifor.Theorems.Payments

/-!
# Deliveries of billing events

Stripe delivers an event again until it is acknowledged, and may do so afterwards. A payment that is
delivered twice is recorded twice; an event whose statements fail is acknowledged all the same.
-/

namespace Apifor

variable {o : Id} {s s' : Store} {w w' : World} {F : String → Option DbErr} {p : OrgPlan}

/-! ## The books -/

/-- A subscription up to its id and its clock value. -/
def Subscription.plain (b : Subscription) : Subscription := { b with id := "", graceUntil := b.graceUntil.map fun _ => 0 }

/-- An invoice up to its id and its clock value. -/
def Invoice.plain (i : Invoice) : Invoice := { i with id := "", createdAt := 0 }

/-- The same orgs, subscriptions and invoices up to generated ids and clock values. -/
structure SameBooks (s s' : Store) : Prop where
  orgs : (s' .org).rows = (s .org).rows
  subs : (s' .subscription).rows.map Subscription.plain = (s .subscription).rows.map Subscription.plain
  invoices : (s' .invoice).rows.map Invoice.plain = (s .invoice).rows.map Invoice.plain

namespace SameBooks

theorem refl (s : Store) : SameBooks s s := ⟨rfl, rfl, rfl⟩

theorem trans {s'' : Store} (h : SameBooks s s') (h' : SameBooks s' s'') : SameBooks s s'' :=
  ⟨h'.orgs.trans h.orgs, h'.subs.trans h.subs, h'.invoices.trans h.invoices⟩

/-- A plan that is given again. -/
theorem setPlan (h : ∀ q, DB.planOf s o = some q → q = p) : SameBooks s (s.setPlan o p) := by
  refine ⟨?_, by rw [setPlan_other (by decide)], by rw [setPlan_other (by decide)]⟩
  rw [Store.setPlan, Store.setOrg, Store.set_same, Table.rows_update]
  refine (List.map_congr_left fun y hy => ?_).trans (List.map_id _)
  split
  · next ho =>
      have hplan : DB.planOf s o = some y.plan := by
        rw [DB.planOf, Table.get?_eq_some.2 ⟨hy, congrArg (·, (0 : Int)) (of_decide_eq_true ho)⟩]
        rfl
      rw [← h _ hplan]
      rfl
  · rfl

/-- An update of the org's subscriptions that changes clock values at most. -/
theorem setSubs {f : Subscription → Subscription} (hf : ∀ b, (f b).id = b.id)
    (h : ∀ b ∈ subsOf s o, (f b).plain = b.plain) : SameBooks s (s.setSubs o f hf) := by
  refine ⟨by rw [setSubs_other (by decide)], ?_, by rw [setSubs_other (by decide)]⟩
  rw [Store.setSubs, Store.set_same, Table.rows_update, List.map_map]
  refine List.map_congr_left fun b hb => ?_
  rw [Function.comp_apply]
  split
  · next ho => exact h b (List.mem_filter.2 ⟨hb, ho⟩)
  · rfl

end SameBooks

theorem subsOf_cons_own {b : Subscription} {t : Table (key .subscription)} (ht : t.rows = b :: (s .subscription).rows)
    (h : b.orgId = o) : subsOf (s.set .subscription t) o = b :: subsOf s o := by
  rw [subsOf, Store.set_same, ht, List.filter_cons, decide_eq_true h]
  rfl

/-! ## A delivery that is handled twice -/

namespace API

variable {x : StripeObject} {ev : StripeEvent} {a : API}

/-- No statement is refused. -/
abbrev sound : String → Option DbErr := fun _ => none

theorem checkedOut_checkedOut (b : Subscription) : checkedOut p x (checkedOut p x b) = checkedOut p x b := by
  have hkeep : ∀ (c : String) (v : Option String), DB.orKeep c (DB.orKeep c v) = DB.orKeep c v := fun c v => by
    unfold DB.orKeep
    split <;> rfl
  simp only [checkedOut, hkeep]

theorem checkedOut_newSub {i : Id} : checkedOut p x (newSub o p x i) = newSub o p x i := by
  have hkeep : ∀ c : String, DB.orKeep c (DB.nullIfEmpty c) = DB.nullIfEmpty c := fun c => by
    unfold DB.orKeep DB.nullIfEmpty
    split <;> rfl
  simp only [checkedOut, newSub, hkeep]

theorem subsOf_made {i : Id} {t : Table (key .subscription)} (hs : subsOf s o = [])
    (ht : t.rows = newSub o p x i :: (s .subscription).rows) :
    subsOf ((s.setPlan o p).set .subscription t) o = [newSub o p x i] := by
  refine (subsOf_cons_own (o := o) (b := newSub o p x i) ?_ rfl).trans ?_
  · rw [ht, setPlan_other (by decide)]
  · rw [subsOf_setPlan, hs]

/-- After a checkout its org is on the plan, and its subscriptions, if it exists, are paid. -/
theorem Upserted.settled (h : Upserted sound o p x w w') :
    (∀ q, DB.planOf w'.db o = some q → q = p) ∧ (∀ b ∈ subsOf w'.db o, checkedOut p x b = b) ∧
      (subsOf w'.db o = [] → w'.db.has .org o = false) := by
  have hplan : ∀ q, DB.planOf (w.db.setPlan o p) o = some q → q = p := fun q hq => by
    rw [planOf_setPlan, if_pos rfl, Option.map_eq_some_iff] at hq
    obtain ⟨-, -, rfl⟩ := hq
    rfl
  cases h with
  | refused h => cases h
  | halved _ h => cases h
  | updated _ _ hs =>
      have hsubs : subsOf ((w.db.setPlan o p).setSubs o (checkedOut p x) checkedOut_id) o = (subsOf w.db o).map (checkedOut p x) := by
        rw [subsOf_setSubs (f := checkedOut p x) (fun _ => rfl), if_pos rfl, subsOf_setPlan]
      refine ⟨fun q hq => hplan q ?_, fun b hb => ?_, fun hnil => ?_⟩
      · dsimp only at hq
        rwa [planOf_setSubs] at hq
      · obtain ⟨b', -, rfl⟩ := List.mem_map.1 (hsubs ▸ hb)
        exact checkedOut_checkedOut b'
      · exact absurd (List.map_eq_nil_iff.1 (hsubs.symm.trans hnil)) hs
  | unmade _ _ hs h =>
      refine ⟨hplan, fun b hb => ?_, fun _ => has_setPlan.trans (h.resolve_left nofun)⟩
      rw [subsOf_setPlan, hs] at hb
      cases hb
  | made _ _ hs _ _ t ht =>
      have hsubs := subsOf_made (p := p) hs ht
      refine ⟨fun q hq => hplan q ?_, fun b hb => ?_, fun hnil => ?_⟩
      · dsimp only at hq
        rwa [DB.planOf, Store.set_of_ne _ _ (by decide)] at hq
      · rw [hsubs] at hb
        rw [List.mem_singleton.1 hb]
        exact checkedOut_newSub
      · rw [hsubs] at hnil
        cases hnil

/-- A checkout that is handled again changes nothing. -/
theorem Upserted.again {w1 w2 : World} (h : Upserted sound o p x w w') (hdb : w1.db = w'.db)
    (h2 : Upserted sound o p x w1 w2) : SameBooks w'.db w2.db := by
  obtain ⟨hplan, hsubs, hnil⟩ := h.settled
  rw [← hdb] at hplan hsubs hnil ⊢
  have hbooks : SameBooks w1.db (w1.db.setPlan o p) := .setPlan hplan
  cases h2 with
  | refused h => cases h
  | halved _ h => cases h
  | updated _ _ _ =>
      refine hbooks.trans (.setSubs checkedOut_id fun b hb => ?_)
      rw [subsOf_setPlan] at hb
      rw [hsubs b hb]
  | unmade _ _ _ _ => exact hbooks
  | made _ _ hs _ ho t ht =>
      rw [hnil hs] at ho
      cases ho

/-- The event makes an invoice for its org. -/
def Invoices (o : Id) (ev : StripeEvent) (s : Store) : Prop :=
  ev.type = "invoice.payment_succeeded" ∧ int4 ev.object.amountPaid = true ∧ s.has .org o = true

theorem subsOf_setSubs_all {f : Subscription → Subscription} {hf : ∀ b, (f b).id = b.id}
    (ho : ∀ b, (f b).orgId = b.orgId) {P : Subscription → Prop} (hP : ∀ b, P (f b)) :
    ∀ b ∈ subsOf (s.setSubs o f hf) o, P b := by
  intro b hb
  rw [subsOf_setSubs ho, if_pos rfl] at hb
  obtain ⟨b', -, rfl⟩ := List.mem_map.1 hb
  exact hP b'

theorem Invoiced.again {w1 w2 : World} (h : Invoiced sound o x w w') (hdb : w1.db = w'.db)
    (h2 : Invoiced sound o x { w1 with db := w1.db.setSubs o active active_id } w2)
    (hact : ∀ b ∈ subsOf w'.db o, active b = b) :
    SameBooks w'.db w2.db ↔ ¬ (int4 x.amountPaid = true ∧ w.db.has .org o = true) := by
  have hbooks : SameBooks w'.db (w1.db.setSubs o active active_id) := by
    rw [hdb]
    exact .setSubs _ fun b hb => by rw [hact b hb]
  have horg : ∀ {s : Store}, (s.setSubs o active active_id).has .org o = s.has .org o := fun {s} => by
    rw [Store.has, setSubs_other (by decide), Store.has]
  cases h with
  | unmade hno =>
      refine ⟨fun _ hi => ?_, fun _ => ?_⟩
      · rcases hno with hno | hno | hno
        · cases hno
        · rw [hno] at hi
          cases hi.1
        · rw [hno] at hi
          cases hi.2
      · cases h2 with
        | unmade _ => exact hbooks
        | made _ hx ho t ht =>
            dsimp only at ho
            rw [horg, hdb] at ho
            rcases hno with hno | hno | hno
            · cases hno
            · rw [hno] at hx
              cases hx
            · rw [ho] at hno
              cases hno
  | made _ hx ho t ht =>
      refine ⟨fun hsame => ?_, fun hno => absurd ⟨hx, ho⟩ hno⟩
      have ho1 : (w1.db.setSubs o active active_id).has .org o = true := by
        rw [horg, hdb]
        dsimp only
        rwa [Store.has, Store.set_of_ne _ _ (by decide)]
      cases h2 with
      | unmade hno =>
          dsimp only at hno
          rw [hx, ho1] at hno
          simp at hno
      | made _ _ _ u hu =>
          -- there is one invoice more
          have hlen := congrArg List.length hsame.invoices
          dsimp only at hlen hu
          rw [setSubs_other (by decide), hdb] at hu
          rw [Store.set_same, hu, List.length_map, List.length_map, List.length_cons] at hlen
          exact absurd hlen (Nat.succ_ne_self _)

theorem sameBooks_freed : SameBooks (freed s o) (freed (freed s o) o) := by
  have hplan : SameBooks (freed s o) ((freed s o).setPlan o .free) := .setPlan fun q hq => by
    rw [planOf_freed, if_pos rfl, Option.map_eq_some_iff] at hq
    obtain ⟨-, -, rfl⟩ := hq
    rfl
  refine hplan.trans (.setSubs _ fun b hb => ?_)
  rw [subsOf_setPlan, freed] at hb
  revert b
  refine subsOf_setSubs_all ?_ ?_
  · exact fun _ => rfl
  · exact fun _ => rfl

/-- An event that is handled again changes the books only if it makes an invoice. -/
theorem Applied.again {w1 w2 : World} (h : Applied sound a o ev w w') (hdb : w1.db = w'.db)
    (h2 : Applied sound a o ev w1 w2) : SameBooks w'.db w2.db ↔ ¬ Invoices o ev w.db := by
  by_cases hs : ev.type = "invoice.payment_succeeded"
  · have horg : (w.db.setSubs o active active_id).has .org o = w.db.has .org o := by
      rw [Store.has, setSubs_other (by decide), Store.has]
    have hinv : Invoiced sound o ev.object { w with db := w.db.setSubs o active active_id } w' := h.succeeded_inv hs
    have hact : ∀ b ∈ subsOf w'.db o, active b = b := by
      have hall : ∀ b ∈ subsOf (w.db.setSubs o active active_id) o, active b = b :=
        subsOf_setSubs_all (f := active) (P := fun b => active b = b) (fun _ => rfl) fun _ => rfl
      cases hinv with
      | unmade _ => exact hall
      | made _ _ _ t ht =>
          intro b hb
          dsimp only at hb
          rw [subsOf, Store.set_of_ne _ _ (by decide)] at hb
          exact hall b hb
    rw [hinv.again hdb (h2.succeeded_inv hs) hact, Invoices, and_iff_right hs]
    dsimp only
    rw [horg]
  · refine ⟨fun _ hi => hs hi.1, fun _ => ?_⟩
    by_cases hc : ev.type = "checkout.session.completed"
    · rcases h.checkout_inv hc with ⟨hp, rfl⟩ | ⟨p, hp, h⟩
      · rcases h2.checkout_inv hc with ⟨-, rfl⟩ | ⟨p, hp', -⟩
        · rw [hdb]
          exact .refl _
        · rw [hp] at hp'
          cases hp'
      · rcases h2.checkout_inv hc with ⟨hp', -⟩ | ⟨p', hp', h2⟩
        · rw [hp] at hp'
          cases hp'
        · cases hp.symm.trans hp'
          exact h.again hdb h2
    · by_cases hf : ev.type = "invoice.payment_failed"
      · have hdb1 : w'.db = w.db.setSubs o (pastDue (w.now + a.graceSec * second)) pastDue_id := h.failed_inv hf
        have hdb2 : w2.db = w1.db.setSubs o (pastDue (w1.now + a.graceSec * second)) pastDue_id := h2.failed_inv hf
        rw [hdb2, hdb, hdb1]
        exact .setSubs _ (subsOf_setSubs_all (f := pastDue (w.now + a.graceSec * second))
          (P := fun b => (pastDue (w1.now + a.graceSec * second) b).plain = b.plain) (fun _ => rfl) fun _ => rfl)
      · by_cases hd : ev.type = "customer.subscription.deleted"
        · have hdb1 : w'.db = freed w.db o := h.deleted_inv hd
          have hdb2 : w2.db = freed w1.db o := h2.deleted_inv hd
          rw [hdb2, hdb, hdb1]
          exact sameBooks_freed
        · have hn : ev.type ∉ ["checkout.session.completed", "invoice.payment_failed", "invoice.payment_succeeded",
              "customer.subscription.deleted"] := by simp [hs, hc, hf, hd]
          rw [h2.other_inv hn, hdb]
          exact .refl _

/-- A subscription that the checkout has paid. -/
structure CheckedOut (p : OrgPlan) (x : StripeObject) (b : Subscription) : Prop where
  plan : b.plan = p
  status : b.status = .active
  customer : x.customer ≠ "" → b.stripeCustomerId = some x.customer
  sub : x.subscription ≠ "" → b.stripeSubscriptionId = some x.subscription
  grace : b.graceUntil = none

/-- The invoice is that of the payment. -/
def Bills (o : Id) (x : StripeObject) (i : Invoice) : Prop :=
  i.orgId = o ∧ i.stripeInvoiceId = some x.id ∧ i.amountCents = some x.amountPaid ∧ i.currency = defCur x.currency ∧
    i.status = some "paid" ∧ i.pdfUrl = DB.nullIfEmpty x.hostedInvoiceURL

def Paid (b : Subscription) : Prop := b.status = .active ∧ b.graceUntil = none

def Owing (g : Time) (b : Subscription) : Prop := b.status = .past_due ∧ b.graceUntil = some g

def Ended (b : Subscription) : Prop := b.plan = .free ∧ b.status = .canceled ∧ b.graceUntil = none

/-- The full effect of the event is in the store. -/
def InEffect (a : API) (o : Id) (ev : StripeEvent) (now : Time) (s : Store) : Prop :=
  if ev.type = "checkout.session.completed" then
    ∃ p, (PgEnum.ofText? (paidPlan ev.object) : Option OrgPlan) = some p ∧ DB.planOf s o = some p ∧
      subsOf s o ≠ [] ∧ ∀ b ∈ subsOf s o, CheckedOut p ev.object b
  else if ev.type = "invoice.payment_failed" then ∀ b ∈ subsOf s o, Owing (now + a.graceSec * second) b
  else if ev.type = "invoice.payment_succeeded" then
    (∀ b ∈ subsOf s o, Paid b) ∧ ∃ i ∈ (s .invoice).rows, Bills o ev.object i
  else if ev.type = "customer.subscription.deleted" then OnFree s o ∧ ∀ b ∈ subsOf s o, Ended b
  else True

/-- The statement is refused. -/
def Refused (F : String → Option DbErr) (n : String) : Prop := (F n).isSome = true

/-- What the statements that are refused should have done is in the store already, and the others can do
their part. -/
def Settles (F : String → Option DbErr) (a : API) (o : Id) (ev : StripeEvent) (now : Time) (s : Store) : Prop :=
  if ev.type = "checkout.session.completed" then
    ∃ p, (PgEnum.ofText? (paidPlan ev.object) : Option OrgPlan) = some p ∧ s.has .org o = true ∧
      (Refused F "UpsertSubscription (org)" → DB.planOf s o = some p) ∧
      (Refused F "UpsertSubscription (org)" ∨ Refused F "UpsertSubscription (subscription)" →
        subsOf s o ≠ [] ∧ ∀ b ∈ subsOf s o, CheckedOut p ev.object b) ∧
      (subsOf s o = [] → ¬ Refused F "UpsertSubscription (insert)")
  else if ev.type = "invoice.payment_failed" then
    Refused F "SetSubscriptionPastDue" → ∀ b ∈ subsOf s o, Owing (now + a.graceSec * second) b
  else if ev.type = "invoice.payment_succeeded" then
    (Refused F "SetSubscriptionActive" → ∀ b ∈ subsOf s o, Paid b) ∧
      ((∃ i ∈ (s .invoice).rows, Bills o ev.object i) ∨
        ¬ Refused F "CreateInvoice" ∧ int4 ev.object.amountPaid = true ∧ s.has .org o = true)
  else if ev.type = "customer.subscription.deleted" then
    (Refused F "DowngradeToFree (org)" → OnFree s o) ∧
      (Refused F "DowngradeToFree (org)" ∨ Refused F "DowngradeToFree (subscription)" → ∀ b ∈ subsOf s o, Ended b)
  else True

theorem has_org_iff : s.has .org o = true ↔ ∃ q, DB.planOf s o = some q := by
  rw [Store.has, List.any_eq_true]
  constructor
  · rintro ⟨y, hy, ho⟩
    refine ⟨y.plan, ?_⟩
    rw [DB.planOf, Table.get?_eq_some.2 ⟨hy, congrArg (·, (0 : Int)) (of_decide_eq_true ho)⟩]
    rfl
  · rintro ⟨q, hq⟩
    rw [DB.planOf, Option.map_eq_some_iff] at hq
    obtain ⟨y, hy, -⟩ := hq
    obtain ⟨hmem, hkey⟩ := Table.get?_eq_some.1 hy
    exact ⟨y, hmem, decide_eq_true (congrArg Prod.fst hkey)⟩

theorem planOf_setPlan_own : DB.planOf (s.setPlan o p) o = some p ↔ s.has .org o = true := by
  rw [planOf_setPlan, if_pos rfl, Option.map_eq_some_iff, has_org_iff]
  exact ⟨fun ⟨q, hq, _⟩ => ⟨q, hq⟩, fun ⟨q, hq⟩ => ⟨q, hq, rfl⟩⟩

theorem checkedOut_checked (b : Subscription) : CheckedOut p x (checkedOut p x b) :=
  ⟨rfl, rfl, fun h => if_neg h, fun h => if_neg h, rfl⟩

theorem newSub_checked {i : Id} : CheckedOut p x (newSub o p x i) :=
  ⟨rfl, rfl, fun h => if_neg h, fun h => if_neg h, rfl⟩

theorem Upserted.inEffect (h : Upserted F o p x w w') :
    (DB.planOf w'.db o = some p ∧ subsOf w'.db o ≠ [] ∧ ∀ b ∈ subsOf w'.db o, CheckedOut p x b) ↔
      (w.db.has .org o = true ∧ (Refused F "UpsertSubscription (org)" → DB.planOf w.db o = some p) ∧
        (Refused F "UpsertSubscription (org)" ∨ Refused F "UpsertSubscription (subscription)" →
          subsOf w.db o ≠ [] ∧ ∀ b ∈ subsOf w.db o, CheckedOut p x b) ∧
        (subsOf w.db o = [] → ¬ Refused F "UpsertSubscription (insert)")) := by
  have hsound : ∀ {n : String}, F n = none → ¬ Refused F n := fun h => by
    rw [Refused, h]
    decide
  cases h with
  | refused h1 =>
      constructor
      · rintro ⟨hplan, hne, hall⟩
        exact ⟨has_org_iff.2 ⟨p, hplan⟩, fun _ => hplan, fun _ => ⟨hne, hall⟩, fun hnil => absurd hnil hne⟩
      · rintro ⟨-, hplan, hall, -⟩
        exact ⟨hplan h1, hall (.inl h1)⟩
  | halved h1 h2 =>
      dsimp only
      rw [planOf_setPlan_own, subsOf_setPlan]
      constructor
      · rintro ⟨ho, hne, hall⟩
        exact ⟨ho, fun h => absurd h (hsound h1), fun _ => ⟨hne, hall⟩, fun hnil => absurd hnil hne⟩
      · rintro ⟨ho, -, hall, -⟩
        exact ⟨ho, hall (.inr h2)⟩
  | updated h1 h2 hs =>
      dsimp only
      rw [planOf_setSubs, planOf_setPlan_own, subsOf_setSubs (f := checkedOut p x) (fun _ => rfl), if_pos rfl,
        subsOf_setPlan]
      constructor
      · rintro ⟨ho, -⟩
        exact ⟨ho, fun h => absurd h (hsound h1), fun h => absurd h (not_or.2 ⟨hsound h1, hsound h2⟩),
          fun hnil => absurd hnil hs⟩
      · rintro ⟨ho, -⟩
        refine ⟨ho, fun hnil => hs (List.map_eq_nil_iff.1 hnil), fun b hb => ?_⟩
        obtain ⟨b', -, rfl⟩ := List.mem_map.1 hb
        exact checkedOut_checked b'
  | unmade h1 h2 hs h3 =>
      dsimp only
      rw [subsOf_setPlan]
      constructor
      · rintro ⟨-, hne, -⟩
        exact absurd hs hne
      · rintro ⟨ho, -, -, hins⟩
        rcases h3 with h3 | h3
        · exact absurd h3 (hins hs)
        · rw [ho] at h3
          cases h3
  | made h1 h2 hs h3 ho t ht =>
      have hsubs := subsOf_made (p := p) hs ht
      dsimp only
      rw [hsubs]
      constructor
      · exact fun _ => ⟨ho, fun h => absurd h (hsound h1), fun h => absurd h (not_or.2 ⟨hsound h1, hsound h2⟩),
          fun _ => hsound h3⟩
      · refine fun _ => ⟨?_, nofun, fun b hb => ?_⟩
        · rw [DB.planOf, Store.set_of_ne _ _ (by decide)]
          exact planOf_setPlan_own.2 ho
        · rw [List.mem_singleton.1 hb]
          exact newSub_checked

theorem unlessRefused_subs {n : String} {f : Subscription → Subscription} {hf : ∀ b, (f b).id = b.id}
    (ho : ∀ b, (f b).orgId = b.orgId) {P : Subscription → Prop} (hP : ∀ b, P (f b)) :
    (∀ b ∈ subsOf (unlessRefused F n (s.setSubs o f hf) s) o, P b) ↔ (Refused F n → ∀ b ∈ subsOf s o, P b) := by
  unfold unlessRefused
  split
  · next h => exact ⟨fun hall _ => hall, fun hall => hall h⟩
  · next h => exact ⟨fun _ hr => absurd hr h, fun _ => subsOf_setSubs_all ho hP⟩

theorem unlessRefused_other {n : String} {t : Tbl} {f : Subscription → Subscription} {hf : ∀ b, (f b).id = b.id}
    (ht : t ≠ .subscription) : (unlessRefused F n (s.setSubs o f hf) s) t = s t := by
  unfold unlessRefused
  split
  · rfl
  · exact setSubs_other ht

theorem freed_inEffect :
    (OnFree (unlessRefused F "DowngradeToFree (org)"
        (unlessRefused F "DowngradeToFree (subscription)" (freed s o) (s.setPlan o .free)) s) o ∧
      ∀ b ∈ subsOf (unlessRefused F "DowngradeToFree (org)"
        (unlessRefused F "DowngradeToFree (subscription)" (freed s o) (s.setPlan o .free)) s) o, Ended b) ↔
      (Refused F "DowngradeToFree (org)" → OnFree s o) ∧
        (Refused F "DowngradeToFree (org)" ∨ Refused F "DowngradeToFree (subscription)" → ∀ b ∈ subsOf s o, Ended b) := by
  unfold unlessRefused
  split
  · next h => exact ⟨fun hall => ⟨fun _ => hall.1, fun _ => hall.2⟩, fun hall => ⟨hall.1 h, hall.2 (.inl h)⟩⟩
  · next h =>
      split
      · next h2 =>
          rw [subsOf_setPlan]
          exact ⟨fun hall => ⟨fun hr => absurd hr h, fun _ => hall.2⟩, fun hall => ⟨OnFree.setPlan, hall.2 (.inr h2)⟩⟩
      · next h2 =>
          refine ⟨fun _ => ⟨fun hr => absurd hr h, fun hr => absurd hr (not_or.2 ⟨h, h2⟩)⟩, fun _ => ⟨fun q hq => ?_, ?_⟩⟩
          · exact OnFree.setPlan q (by rwa [freed, planOf_setSubs] at hq)
          · rw [freed]
            refine subsOf_setSubs_all ?_ ?_
            · exact fun _ => rfl
            · exact fun _ => ⟨rfl, rfl, rfl⟩

theorem Invoiced.subs (h : Invoiced F o x w w') : subsOf w'.db o = subsOf w.db o := by
  cases h with
  | unmade _ => rfl
  | made _ _ _ t _ =>
      dsimp only
      rw [subsOf, Store.set_of_ne _ _ (by decide), subsOf]

theorem Invoiced.inEffect (h : Invoiced F o x w w') :
    (∃ i ∈ (w'.db .invoice).rows, Bills o x i) ↔
      (∃ i ∈ (w.db .invoice).rows, Bills o x i) ∨
        ¬ Refused F "CreateInvoice" ∧ int4 x.amountPaid = true ∧ w.db.has .org o = true := by
  cases h with
  | unmade hno =>
      refine ⟨.inl, fun hi => hi.resolve_right fun ⟨hF, hx, ho⟩ => ?_⟩
      rcases hno with h | h | h
      · exact hF h
      · rw [hx] at h
        cases h
      · rw [ho] at h
        cases h
  | made hF hx ho t ht =>
      dsimp only
      rw [Store.set_same, ht]
      refine ⟨fun _ => .inr ⟨by rw [Refused, hF]; decide, hx, ho⟩, fun _ => ⟨_, List.mem_cons_self, ?_⟩⟩
      exact ⟨rfl, rfl, rfl, rfl, rfl, rfl⟩

theorem Applied.inEffect (h : Applied F a o ev w w') :
    InEffect a o ev w.now w'.db ↔ Settles F a o ev w.now w.db := by
  unfold InEffect Settles
  by_cases hc : ev.type = "checkout.session.completed"
  · rw [if_pos hc, if_pos hc]
    rcases h.checkout_inv hc with ⟨hp, rfl⟩ | ⟨p, hp, h⟩
    · simp only [hp]
      constructor
      · rintro ⟨_, h, -⟩
        cases h
      · rintro ⟨_, h, -⟩
        cases h
    · simp only [hp, Option.some.injEq, exists_eq_left', h.inEffect]
  · rw [if_neg hc, if_neg hc]
    by_cases hf : ev.type = "invoice.payment_failed"
    · rw [if_pos hf, if_pos hf, h.failed_inv hf]
      refine unlessRefused_subs ?_ ?_
      · exact fun _ => rfl
      · exact fun _ => ⟨rfl, rfl⟩
    · rw [if_neg hf, if_neg hf]
      by_cases hs : ev.type = "invoice.payment_succeeded"
      · rw [if_pos hs, if_pos hs]
        have hinv := h.succeeded_inv hs
        rw [hinv.inEffect, hinv.subs]
        dsimp only
        rw [Store.has, Store.has, unlessRefused_other (t := .invoice) (by decide), unlessRefused_other (t := .org) (by decide)]
        refine and_congr_left' (unlessRefused_subs ?_ ?_)
        · exact fun _ => rfl
        · exact fun _ => ⟨rfl, rfl⟩
      · rw [if_neg hs, if_neg hs]
        by_cases hd : ev.type = "customer.subscription.deleted"
        · rw [if_pos hd, if_pos hd, h.deleted_inv hd]
          exact freed_inEffect
        · rw [if_neg hd, if_neg hd]

/-- The answer is 200 and the event is in effect, or the answer is no success and nothing is changed. -/
def Acknowledges (a : API) (o : Id) (ev : StripeEvent) (w : World) (res : World × Option Response) : Prop :=
  ∃ v, res.2 = some v ∧ (v.code = 200 ∧ InEffect a o ev w.now res.1.db ∨
    ¬ (200 ≤ v.code ∧ v.code < 300) ∧ res.1.db = w.db)

/-- The event is applied as far as it is not in effect. -/
def Applies (F : String → Option DbErr) (a : API) (o : Id) (ev : StripeEvent) (w : World) : Prop :=
  (LookupRefused F ev.object → InEffect a o ev w.now w.db) ∧
    (¬ LookupRefused F ev.object → Settles F a o ev w.now w.db)

/-- A signed event of some org is acknowledged rightly, if and only if the statements that are refused have
nothing left to do. -/
theorem acknowledges_iff (F : String → Option DbErr) (a : API) (r : Request) (w : World) (hid : FreshIds w)
    (hs : Signed a r w.now) (hok : (stripeEvent r.body).2 = true)
    (hne : eventOrgOf w.db (stripeEvent r.body).1.object ≠ "") :
    Acknowledges a (eventOrgOf w.db (stripeEvent r.body).1.object) (stripeEvent r.body).1 w
        (((a.webhook r).faulty F).run w) ↔
      Applies F a (eventOrgOf w.db (stripeEvent r.body).1.object) (stripeEvent r.body).1 w := by
  have hanswer : ∀ {v : Response} {w' : World}, v.code = 200 →
      (Acknowledges a (eventOrgOf w.db (stripeEvent r.body).1.object) (stripeEvent r.body).1 w (w', some v) ↔
        InEffect a (eventOrgOf w.db (stripeEvent r.body).1.object) (stripeEvent r.body).1 w.now w'.db) := by
    intro v w' hv
    constructor
    · rintro ⟨v', hv', ⟨-, h⟩ | ⟨hno, -⟩⟩
      · exact h
      · cases hv'
        rw [hv] at hno
        exact absurd ⟨Nat.le_refl _, by decide⟩ hno
    · exact fun h => ⟨v, rfl, .inl ⟨hv, h⟩⟩
  rcases run_webhook (F := F) hid hs hok hne with ⟨hl, hrun⟩ | ⟨hl, w', hrun, h⟩
  · rw [hrun, hanswer rfl]
    exact ⟨fun h => ⟨fun _ => h, fun hno => absurd hl hno⟩, fun h => h.1 hl⟩
  · rw [hrun, hanswer rfl, h.inEffect]
    exact ⟨fun h => ⟨fun hl' => absurd hl' hl, fun _ => h⟩, fun h => h.2 hl⟩

theorem InEffect.invoice {a : API} {now : Time} (ht : ev.type = "invoice.payment_succeeded")
    (h : InEffect a o ev now s) : ∃ i ∈ (s .invoice).rows, Bills o ev.object i := by
  rw [InEffect, if_neg (by rw [ht]; decide), if_neg (by rw [ht]; decide), if_pos ht] at h
  exact h.2

end API

namespace Sample

/-- A delivery that was signed at the epoch. -/
def delivery (type : String) : Request :=
  { method := "POST", path := "/v1/billing/webhook", signature := "t=0,v1=0a", body := stripeBody type }

/-- The sample org without a subscription. -/
def unsubscribed : World :=
  { db := Store.ofRows (plans ++ rows), ulid := fun n => String.ofList (List.replicate n '0') }

theorem unsubscribed_fresh : FreshIds unsubscribed := by
  have hsubs : (unsubscribed.db .subscription).rows = [] := by decide +kernel
  have hinvoices : (unsubscribed.db .invoice).rows = [] := by decide +kernel
  refine ⟨fun n _ b hb => ?_, fun n _ i hi => ?_, fun m n h => ?_⟩
  · rw [hsubs] at hb
    cases hb
  · rw [hinvoices] at hi
    cases hi
  · have hlen := congrArg (fun s => s.toList.length) h
    simpa [unsubscribed] using hlen

end Sample

namespace Sample

/-- The store refuses the statement of the given name. -/
def refusing (n : String) : String → Option DbErr := fun m => if m = n then some (.other "timeout") else none

end Sample

open Sample in
/-- A payment whose invoice cannot be stored is acknowledged. -/
theorem API.acknowledges_lost :
    Signed paying (delivery "invoice.payment_succeeded") unsubscribed.now ∧
      ¬ Acknowledges paying "org_a" (stripeEvent (delivery "invoice.payment_succeeded").body).1 unsubscribed
        (((paying.webhook (delivery "invoice.payment_succeeded")).faulty (refusing "CreateInvoice")).run unsubscribed) := by
  refine ⟨by rw [Signed]; decide +kernel, ?_⟩
  rintro ⟨v, hv, ⟨-, heff⟩ | ⟨hno, -⟩⟩
  · obtain ⟨i, hi, -⟩ := heff.invoice (by decide +kernel)
    have hrows : ((((paying.webhook (delivery "invoice.payment_succeeded")).faulty (refusing "CreateInvoice")).run
        unsubscribed).1.db .invoice).rows = [] := by decide +kernel
    rw [hrows] at hi
    cases hi
  · have hcode : (((paying.webhook (delivery "invoice.payment_succeeded")).faulty (refusing "CreateInvoice")).run
        unsubscribed).2.map (·.code) = some 200 := by decide +kernel
    rw [hv, Option.map_some, Option.some.injEq] at hcode
    rw [hcode] at hno
    exact absurd ⟨Nat.le_refl _, by decide⟩ hno

open Sample in
theorem API.acknowledges_iff_sample :
    Acknowledges paying "org_a" (stripeEvent (delivery "customer.subscription.deleted").body).1 unsubscribed
      (((paying.webhook (delivery "customer.subscription.deleted")).faulty (refusing "CreateInvoice")).run unsubscribed) := by
  have horg : eventOrgOf unsubscribed.db (stripeEvent (delivery "customer.subscription.deleted").body).1.object = "org_a" := by
    decide +kernel
  have hiff := acknowledges_iff (refusing "CreateInvoice") paying (delivery "customer.subscription.deleted") unsubscribed
    unsubscribed_fresh (by rw [Signed]; decide +kernel) (by decide +kernel) (by rw [horg]; decide)
  rw [horg] at hiff
  refine hiff.2 ⟨fun h => absurd h.2.2 (by decide), fun _ => ?_⟩
  have htype : (stripeEvent (delivery "customer.subscription.deleted").body).1.type = "customer.subscription.deleted" := by
    decide +kernel
  rw [Settles, if_neg (by rw [htype]; decide), if_neg (by rw [htype]; decide), if_neg (by rw [htype]; decide), if_pos htype]
  exact ⟨fun h => absurd h (by rw [Refused]; decide), fun h => absurd h (by rw [Refused, Refused]; decide)⟩

end Apifor
