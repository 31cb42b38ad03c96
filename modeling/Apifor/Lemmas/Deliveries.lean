import Apifor.Lemmas.Billing
import Apifor.Lib.Faults

/-!
# What a delivery does to the store

The webhook handles a billing event by up to three statements and drops their errors. `Applied` says what
comes of an event when some of these statements are refused.
-/

namespace Apifor

variable {o : Id} {s s' : Store} {w w' : World} {F : String → Option DbErr} {p : OrgPlan}

/-! ## Statements that may be refused -/

section Refusals

variable {α β : Type} {n : String} {f : Time → Store → Except DbErr (Store × α)} {g : Except DbErr α → Cmd β} {e : DbErr}

theorem run_refused (h : F n = some e) : (((exec n f).bind g).faulty F).run w = ((g (.error e)).faulty F).run w := by
  rw [Prog.faulty_bind]
  exact Prog.run_bind_of_eq (Prog.run_faulty_refused h)

theorem run_sound {y : α} {t : Store} (h : F n = none) (hf : f w.now w.db = .ok (t, y)) :
    (((exec n f).bind g).faulty F).run w = ((g (.ok y)).faulty F).run { w with db := t } := by
  have hrun : ((exec n f).faulty F).run w = ({ w with db := t }, some (.ok y)) := by
    rw [exec, Prog.faulty_sound h, ← exec, run_exec, hf]
  rw [Prog.faulty_bind]
  exact Prog.run_bind_of_eq hrun

theorem run_failed (h : F n = none) (hf : f w.now w.db = .error e) :
    (((exec n f).bind g).faulty F).run w = ((g (.error e)).faulty F).run w := by
  have hrun : ((exec n f).faulty F).run w = (w, some (.error e)) := by
    rw [exec, Prog.faulty_sound h, ← exec, run_exec, hf]
  rw [Prog.faulty_bind]
  exact Prog.run_bind_of_eq hrun

/-- An insertion that is refused, or that breaks a constraint. -/
theorem run_unstored {t : Tbl} {x : Time → Row t} {g : Except DbErr Unit → Cmd β}
    (h : (F n).isSome = true ∨ ∃ e, insert .all t (x w.now) w.db = .error e) :
    ∃ e, (((DB.insertRow n t x).bind g).faulty F).run w = ((g (.error e)).faulty F).run w := by
  cases hF : F n with
  | some e => exact ⟨e, run_refused hF⟩
  | none =>
      rw [hF] at h
      obtain ⟨e, he⟩ := h.resolve_left (by decide)
      exact ⟨e, run_failed hF (by rw [he]; rfl)⟩

theorem run_stored {t : Tbl} {x : Time → Row t} {g : Except DbErr Unit → Cmd β} (h : F n = none)
    (hi : insert .all t (x w.now) w.db = .ok s') :
    (((DB.insertRow n t x).bind g).faulty F).run w = ((g (.ok ())).faulty F).run { w with db := s' } :=
  run_sound h (by rw [hi]; rfl)

theorem run_newID (pre : String) (g : Id → Cmd β) :
    (((newID pre).bind g).faulty F).run w =
      ((g (pre ++ "_" ++ w.ulid w.drawn)).faulty F).run { w with drawn := w.drawn + 1 } := rfl

end Refusals

/-- The identifiers that `ulid.Make` will give are not in use, and no two of them are the same. -/
structure FreshIds (w : World) : Prop where
  subs : ∀ n, w.drawn ≤ n → ∀ b ∈ (w.db .subscription).rows, b.id ≠ "sub_" ++ w.ulid n
  invoices : ∀ n, w.drawn ≤ n → ∀ i ∈ (w.db .invoice).rows, i.id ≠ "inv_" ++ w.ulid n
  distinct : ∀ m n, w.ulid m = w.ulid n → m = n

theorem insert_all {t : Tbl} {r : Row t} (hi : inRange t r = true) (hr : ∀ q ∈ refs t r, s.has q.1 q.2 = true)
    (hc : ∀ q ∈ (s t).rows, clash t r q = false) (hk : ∀ q ∈ (s t).rows, key t q ≠ key t r) :
    ∃ x, (s t).insert? r = some x ∧ insert .all t r s = .ok (s.set t x) := by
  have hadm : admissible .all s t r = .ok () := by
    have hall : (refs t r).all (fun q => s.has q.1 q.2) = true := List.all_eq_true.2 hr
    simp [admissible, hi, Scope.writes, hall]
  have hany : (s t).rows.any (clash t r) = false := by
    rw [List.any_eq_false]
    exact fun q hq => by simp [hc q hq]
  cases hx : (s t).insert? r with
  | none =>
      obtain ⟨q, hq, heq⟩ := Table.insert?_eq_none.1 hx
      exact absurd heq (hk q hq)
  | some x => exact ⟨x, rfl, by simp [insert, hadm, hany, hx]⟩

theorem insert_refused {t : Tbl} {r : Row t} (h : inRange t r = false ∨ ∃ q ∈ refs t r, s.has q.1 q.2 = false) :
    ∃ e, insert .all t r s = .error e := by
  cases hi : insert .all t r s with
  | error e => exact ⟨e, rfl⟩
  | ok s' =>
      simp only [insert, admissible] at hi
      rcases h with h | ⟨q, hq, h⟩
      · simp [h] at hi
      · have hall : (refs t r).all (fun q => s.has q.1 q.2) = false := by
          rw [List.all_eq_false]
          exact ⟨q, hq, by simp [h]⟩
        simp only [hall, if_true] at hi
        split_ifs at hi

/-! ## Statements of the webhook -/

theorem setPlan_other {t : Tbl} (ht : t ≠ .org) : (s.setPlan o p) t = s t := Store.set_of_ne _ _ ht

theorem setSubs_other {t : Tbl} {f : Subscription → Subscription} {hf : ∀ b, (f b).id = b.id} (ht : t ≠ .subscription) :
    (s.setSubs o f hf) t = s t := Store.set_of_ne _ _ ht

theorem has_setPlan : (s.setPlan o p).has .org o = s.has .org o := by
  simp only [Store.has, Store.setPlan, Store.setOrg, Store.set_same, Table.rows_update, List.any_map]
  refine congrArg (fun q => (s .org).rows.any q) (funext fun r => ?_)
  rw [Function.comp_apply]
  split <;> rfl

/-- An update that changes no subscription of the org. -/
theorem setSubs_fix {f : Subscription → Subscription} {hf : ∀ b, (f b).id = b.id} (h : ∀ b ∈ subsOf s o, f b = b) :
    s.setSubs o f hf = s := by
  have htab : (s .subscription).update (fun b => decide (b.orgId = o)) f (key_sub hf) = s .subscription := by
    refine Table.ext ?_
    rw [Table.rows_update]
    refine (List.map_congr_left fun b hb => ?_).trans (List.map_id _)
    split
    · next ho => exact h b (List.mem_filter.2 ⟨hb, ho⟩)
    · rfl
  rw [Store.setSubs, htab]
  exact Function.update_eq_self _ _

/-- The store after a statement, if that is not refused. -/
def unlessRefused (F : String → Option DbErr) (n : String) (s' s : Store) : Store := if (F n).isSome then s else s'

namespace FreshIds

/-- Rows that are there already, or have an identifier that was given before. -/
theorem mono (hid : FreshIds w) (hu : w'.ulid = w.ulid) (hd : w.drawn ≤ w'.drawn)
    (hs : ∀ b ∈ (w'.db .subscription).rows, (∃ b' ∈ (w.db .subscription).rows, b'.id = b.id) ∨
      ∃ m < w'.drawn, b.id = "sub_" ++ w.ulid m)
    (hi : ∀ i ∈ (w'.db .invoice).rows, (∃ i' ∈ (w.db .invoice).rows, i'.id = i.id) ∨
      ∃ m < w'.drawn, i.id = "inv_" ++ w.ulid m) : FreshIds w' := by
  have hnew : ∀ {pre : String} {m n : Nat}, m < w'.drawn → w'.drawn ≤ n → pre ++ w.ulid m ≠ pre ++ w.ulid n := by
    intro pre m n hm hn heq
    have := hid.distinct m n ((String.append_right_inj pre).1 heq)
    omega
  refine ⟨fun n hn b hb => ?_, fun n hn i h => ?_, by rw [hu]; exact hid.distinct⟩
  · rw [hu]
    rcases hs b hb with ⟨b', hb', heq⟩ | ⟨m, hm, heq⟩
    · rw [← heq]
      exact hid.subs n (Nat.le_trans hd hn) b' hb'
    · rw [heq]
      exact hnew hm hn
  · rw [hu]
    rcases hi i h with ⟨i', hi', heq⟩ | ⟨m, hm, heq⟩
    · rw [← heq]
      exact hid.invoices n (Nat.le_trans hd hn) i' hi'
    · rw [heq]
      exact hnew hm hn

theorem congr (hid : FreshIds w) (hu : w'.ulid = w.ulid) (hd : w.drawn ≤ w'.drawn)
    (hs : w'.db .subscription = w.db .subscription) (hi : w'.db .invoice = w.db .invoice) : FreshIds w' :=
  hid.mono hu hd (fun b hb => .inl ⟨b, hs ▸ hb, rfl⟩) fun i h => .inl ⟨i, hi ▸ h, rfl⟩

theorem setSubs {f : Subscription → Subscription} {h : ∀ b, (f b).id = b.id} (hid : FreshIds w) :
    FreshIds { w with db := w.db.setSubs o f h } := by
  refine hid.mono rfl (Nat.le_refl _) (fun b hb => .inl ?_) fun i hi => .inl ⟨i, ?_, rfl⟩
  · dsimp only at hb
    rw [Store.setSubs, Store.set_same, Table.rows_update] at hb
    obtain ⟨b', hb', rfl⟩ := List.mem_map.1 hb
    refine ⟨b', hb', ?_⟩
    split
    · exact (h b').symm
    · rfl
  · dsimp only at hi
    rwa [setSubs_other (by decide)] at hi

theorem setPlan (hid : FreshIds w) : FreshIds { w with db := w.db.setPlan o p } := by
  refine hid.congr rfl (Nat.le_refl _) ?_ ?_
  · exact setPlan_other (o := o) (p := p) (t := .subscription) (by decide)
  · exact setPlan_other (o := o) (p := p) (t := .invoice) (by decide)

theorem unlessRefused {n : String} {t : Store} (h : FreshIds { w with db := s }) (h' : FreshIds { w with db := t }) :
    FreshIds { w with db := unlessRefused F n t s } := by
  unfold Apifor.unlessRefused
  split
  · exact h
  · exact h'

end FreshIds

/-! ## Checkouts -/

namespace API

/-- The plan that a checkout pays for. -/
def paidPlan (x : StripeObject) : String := if entry x.metadata "plan" = "" then "pro" else entry x.metadata "plan"

/-- What a checkout makes of a subscription. -/
def checkedOut (p : OrgPlan) (x : StripeObject) (b : Subscription) : Subscription :=
  { b with
    plan := p, status := .active, stripeCustomerId := DB.orKeep x.customer b.stripeCustomerId,
    stripeSubscriptionId := DB.orKeep x.subscription b.stripeSubscriptionId, graceUntil := none }

theorem checkedOut_id {x : StripeObject} (b : Subscription) : (checkedOut p x b).id = b.id := rfl

/-- The subscription that a checkout makes. -/
def newSub (o : Id) (p : OrgPlan) (x : StripeObject) (id : Id) : Subscription :=
  { id := id, orgId := o, plan := p, status := .active, stripeCustomerId := DB.nullIfEmpty x.customer,
    stripeSubscriptionId := DB.nullIfEmpty x.subscription }

/-- What `UpsertSubscription` does when some of its statements are refused. -/
inductive Upserted (F : String → Option DbErr) (o : Id) (p : OrgPlan) (x : StripeObject) (w : World) : World → Prop
  | refused (h : (F "UpsertSubscription (org)").isSome = true) : Upserted F o p x w w
  | halved (h1 : F "UpsertSubscription (org)" = none) (h2 : (F "UpsertSubscription (subscription)").isSome = true) :
      Upserted F o p x w { w with db := w.db.setPlan o p }
  | updated (h1 : F "UpsertSubscription (org)" = none) (h2 : F "UpsertSubscription (subscription)" = none)
      (hs : subsOf w.db o ≠ []) :
      Upserted F o p x w { w with db := (w.db.setPlan o p).setSubs o (checkedOut p x) checkedOut_id }
  | unmade (h1 : F "UpsertSubscription (org)" = none) (h2 : F "UpsertSubscription (subscription)" = none)
      (hs : subsOf w.db o = [])
      (h3 : (F "UpsertSubscription (insert)").isSome = true ∨ w.db.has .org o = false) :
      Upserted F o p x w { w with db := w.db.setPlan o p, drawn := w.drawn + 1 }
  | made (h1 : F "UpsertSubscription (org)" = none) (h2 : F "UpsertSubscription (subscription)" = none)
      (hs : subsOf w.db o = []) (h3 : F "UpsertSubscription (insert)" = none) (ho : w.db.has .org o = true)
      (t : Table (key .subscription))
      (ht : t.rows = newSub o p x ("sub_" ++ w.ulid w.drawn) :: (w.db .subscription).rows) :
      Upserted F o p x w { w with db := (w.db.setPlan o p).set .subscription t, drawn := w.drawn + 1 }

variable {x : StripeObject} {ev : StripeEvent} {a : API}

theorem insert_newSub {i : Id} (ho : s.has .org o = true) (hi : ∀ b ∈ (s .subscription).rows, b.id ≠ i) :
    ∃ t, t.rows = newSub o p x i :: (s .subscription).rows ∧
      insert .all .subscription (newSub o p x i) s = .ok (s.set .subscription t) := by
  obtain ⟨t, ht, hins⟩ := @insert_all s .subscription (newSub o p x i) rfl (by simpa [refs, newSub] using ho) (fun _ _ => rfl)
    fun b hb heq => hi b hb (congrArg Prod.fst heq)
  exact ⟨t, Table.rows_insert ht, hins⟩

theorem insert_newSub_refused {i : Id} (ho : s.has .org o = false) :
    ∃ e, insert .all .subscription (newSub o p x i) s = .error e :=
  insert_refused (.inr ⟨(.org, o), List.mem_singleton.2 rfl, ho⟩)

theorem run_upsertSubscription (hid : FreshIds w) {plan : String} (hp : (PgEnum.ofText? plan : Option OrgPlan) = some p)
    (k : Except DbErr Unit → Cmd Unit) (hk : ∀ r w, ((k r).faulty F).run w = (w, some ())) :
    ∃ w', (((DB.upsertSubscription o plan x.customer x.subscription).bind k).faulty F).run w = (w', some ()) ∧
      Upserted F o p x w w' := by
  have hsubs := @updateSubs_eq o (w.db.setPlan o p) (checkedOut p x) (fun _ => rfl) (fun _ => rfl) fun _ => rfl
  rw [subsOf_setPlan] at hsubs
  rw [DB.upsertSubscription, Prog.bind_def, Prog.bind_assoc]
  cases h1 : F "UpsertSubscription (org)" with
  | some e =>
      rw [run_refused h1]
      exact ⟨w, hk _ w, .refused (by rw [h1]; rfl)⟩
  | none =>
      rw [run_sound h1 (by simp only [hp, setOrgPlan_eq]; rfl)]
      dsimp only
      rw [Prog.bind_def, Prog.bind_assoc]
      cases h2 : F "UpsertSubscription (subscription)" with
      | some e =>
          rw [run_refused h2]
          exact ⟨_, hk _ _, .halved h1 (by rw [h2]; rfl)⟩
      | none =>
          rw [run_sound h2 hsubs]
          cases hs : subsOf w.db o with
          | cons b bs => exact ⟨_, hk _ _, .updated h1 h2 (by rw [hs]; exact nofun)⟩
          | nil =>
              have hfix : (w.db.setPlan o p).setSubs o (checkedOut p x) checkedOut_id = w.db.setPlan o p :=
                setSubs_fix (by rw [subsOf_setPlan, hs]; exact nofun)
              simp only [List.length_nil, hfix]
              rw [Prog.bind_def, Prog.bind_assoc, run_newID]
              have hsame : (w.db.setPlan o p) .subscription = w.db .subscription := setPlan_other (by decide)
              by_cases h3 : (F "UpsertSubscription (insert)").isSome = true ∨ w.db.has .org o = false
              · obtain ⟨e, he⟩ := run_unstored (t := .subscription) (x := fun _ => newSub o p x ("sub_" ++ w.ulid w.drawn)) (g := k)
                  (w := { w with db := w.db.setPlan o p, drawn := w.drawn + 1 })
                  (h3.imp id fun ho => insert_newSub_refused (has_setPlan.trans ho))
                exact ⟨_, he.trans (hk _ _), .unmade h1 h2 hs h3⟩
              · rw [not_or] at h3
                obtain ⟨t, ht, hins⟩ := insert_newSub (s := w.db.setPlan o p) (p := p) (x := x)
                  (i := "sub_" ++ w.ulid w.drawn) (has_setPlan.trans (by simpa using h3.2))
                  (by rw [hsame]; exact hid.subs _ (Nat.le_refl _))
                rw [hsame] at ht
                have hF : F "UpsertSubscription (insert)" = none := by simpa using h3.1
                exact ⟨_, (run_stored hF hins).trans (hk _ _), .made h1 h2 hs hF (by simpa using h3.2) t ht⟩

/-! ## Events -/

/-- What a failed payment makes of a subscription. -/
def pastDue (g : Time) (b : Subscription) : Subscription := { b with status := .past_due, graceUntil := some g }

/-- What a payment makes of a subscription. -/
def active (b : Subscription) : Subscription := { b with status := .active, graceUntil := none }

theorem pastDue_id {g : Time} (b : Subscription) : (pastDue g b).id = b.id := rfl

theorem active_id (b : Subscription) : (active b).id = b.id := rfl

/-- The invoice of a payment. -/
def newInvoice (o : Id) (x : StripeObject) (id : Id) (now : Time) : Invoice :=
  { id := id, orgId := o, stripeInvoiceId := some x.id, amountCents := some x.amountPaid, currency := defCur x.currency,
    status := some "paid", pdfUrl := DB.nullIfEmpty x.hostedInvoiceURL, createdAt := now }

/-- What `CreateInvoice` does when it may be refused. -/
inductive Invoiced (F : String → Option DbErr) (o : Id) (x : StripeObject) (w : World) : World → Prop
  | unmade (h : (F "CreateInvoice").isSome = true ∨ int4 x.amountPaid = false ∨ w.db.has .org o = false) :
      Invoiced F o x w { w with drawn := w.drawn + 1 }
  | made (h : F "CreateInvoice" = none) (hx : int4 x.amountPaid = true) (ho : w.db.has .org o = true)
      (t : Table (key .invoice))
      (ht : t.rows = newInvoice o x ("inv_" ++ w.ulid w.drawn) w.now :: (w.db .invoice).rows) :
      Invoiced F o x w { w with db := w.db.set .invoice t, drawn := w.drawn + 1 }

/-- What an event does when some of its statements are refused. -/
inductive Applied (F : String → Option DbErr) (a : API) (o : Id) (ev : StripeEvent) (w : World) : World → Prop
  | miscast (ht : ev.type = "checkout.session.completed")
      (hp : (PgEnum.ofText? (paidPlan ev.object) : Option OrgPlan) = none) : Applied F a o ev w w
  | checkout {w' : World} {p : OrgPlan} (ht : ev.type = "checkout.session.completed")
      (hp : (PgEnum.ofText? (paidPlan ev.object) : Option OrgPlan) = some p) (h : Upserted F o p ev.object w w') :
      Applied F a o ev w w'
  | failed (ht : ev.type = "invoice.payment_failed") :
      Applied F a o ev w
        { w with
          db := unlessRefused F "SetSubscriptionPastDue" (w.db.setSubs o (pastDue (w.now + a.graceSec * second)) pastDue_id) w.db }
  | succeeded {w' : World} (ht : ev.type = "invoice.payment_succeeded")
      (h : Invoiced F o ev.object { w with db := unlessRefused F "SetSubscriptionActive" (w.db.setSubs o active active_id) w.db } w') :
      Applied F a o ev w w'
  | deleted (ht : ev.type = "customer.subscription.deleted") :
      Applied F a o ev w
        { w with
          db := unlessRefused F "DowngradeToFree (org)"
            (unlessRefused F "DowngradeToFree (subscription)" (freed w.db o) (w.db.setPlan o .free)) w.db }
  | other (ht : ev.type ∉ ["checkout.session.completed", "invoice.payment_failed", "invoice.payment_succeeded",
      "customer.subscription.deleted"]) : Applied F a o ev w w

theorem run_createInvoice (hid : FreshIds w) (k : Except DbErr Unit → Cmd Unit)
    (hk : ∀ r w, ((k r).faulty F).run w = (w, some ())) :
    ∃ w', (((DB.createInvoice o x.id x.amountPaid (defCur x.currency) "paid" x.hostedInvoiceURL).bind k).faulty F).run w =
      (w', some ()) ∧ Invoiced F o x w w' := by
  rw [DB.createInvoice, Prog.bind_def, Prog.bind_assoc, run_newID]
  by_cases h : (F "CreateInvoice").isSome = true ∨ int4 x.amountPaid = false ∨ w.db.has .org o = false
  · obtain ⟨e, he⟩ := run_unstored (t := .invoice) (x := newInvoice o x ("inv_" ++ w.ulid w.drawn)) (g := k)
      (w := { w with drawn := w.drawn + 1 }) (h.imp id fun h => insert_refused (h.imp id fun ho =>
        ⟨(.org, o), List.mem_singleton.2 rfl, ho⟩))
    exact ⟨_, he.trans (hk _ _), .unmade h⟩
  · simp only [not_or, Bool.not_eq_false, Bool.not_eq_true, Option.isSome_eq_false_iff, Option.isNone_iff_eq_none] at h
    obtain ⟨hF, hx, ho⟩ := h
    obtain ⟨t, ht, hins⟩ := @insert_all w.db .invoice (newInvoice o x ("inv_" ++ w.ulid w.drawn) w.now) hx
      (by simpa [refs, newInvoice] using ho) (fun _ _ => rfl)
      fun i hi heq => hid.invoices _ (Nat.le_refl _) i hi (congrArg Prod.fst heq)
    exact ⟨_, (run_stored (w := { w with drawn := w.drawn + 1 }) hF hins).trans (hk _ _),
      .made hF hx ho t (Table.rows_insert ht)⟩

theorem run_setSubs {n : String} {f : Subscription → Subscription} (hi : ∀ b, (f b).id = b.id)
    (ho : ∀ b, (f b).orgId = b.orgId) (hf : ∀ r, key .subscription (f r) = key .subscription r)
    (k : Except DbErr Unit → Cmd Unit) {w' : World} {y : Option Unit}
    (hk : ∀ r, ((k r).faulty F).run { w with db := unlessRefused F n (w.db.setSubs o f hi) w.db } = (w', y)) :
    (((exec n fun _ s => (update .all .subscription (fun b => decide (b.orgId = o)) f s hf).map fun r => (r.1, ())).bind
      k).faulty F).run w = (w', y) := by
  cases hF : F n with
  | some e =>
      rw [run_refused hF]
      simpa [unlessRefused, hF] using hk (.error e)
  | none =>
      rw [run_sound (t := w.db.setSubs o f hi) (y := ()) hF (by rw [updateSubs_eq hf hi ho]; rfl)]
      simpa [unlessRefused, hF] using hk (.ok ())

theorem run_miscast {plan : String} (hp : (PgEnum.ofText? plan : Option OrgPlan) = none) (k : Except DbErr Unit → Cmd Unit)
    (hk : ∀ r w, ((k r).faulty F).run w = (w, some ())) :
    (((DB.upsertSubscription o plan x.customer x.subscription).bind k).faulty F).run w = (w, some ()) := by
  rw [DB.upsertSubscription, Prog.bind_def, Prog.bind_assoc]
  cases h : F "UpsertSubscription (org)" with
  | some e =>
      rw [run_refused h]
      exact hk _ w
  | none =>
      rw [run_failed (e := .cast) h (by simp only [hp])]
      exact hk _ w

theorem run_downgrade (k : Except DbErr Unit → Cmd Unit) (hk : ∀ r w, ((k r).faulty F).run w = (w, some ())) :
    (((DB.downgradeToFree o).bind k).faulty F).run w =
      ({ w with
          db := unlessRefused F "DowngradeToFree (org)"
            (unlessRefused F "DowngradeToFree (subscription)" (freed w.db o) (w.db.setPlan o .free)) w.db }, some ()) := by
  rw [DB.downgradeToFree, Prog.bind_def, Prog.bind_assoc]
  cases h : F "DowngradeToFree (org)" with
  | some e =>
      rw [run_refused h]
      refine (hk _ w).trans ?_
      simp [unlessRefused, h]
  | none =>
      rw [run_sound (t := w.db.setPlan o .free) (y := ()) h (by rw [setOrgPlan_eq]; rfl)]
      refine (run_setSubs (f := fun b => { b with plan := .free, status := .canceled, graceUntil := none })
        (fun _ => rfl) (fun _ => rfl) (fun _ => rfl) k fun r => hk r _).trans ?_
      simp [unlessRefused, h, freed]

theorem run_applyEvent (hid : FreshIds w) :
    ∃ w', ((a.applyEvent o ev).faulty F).run w = (w', some ()) ∧ Applied F a o ev w w' := by
  have hk : ∀ (r : Except DbErr Unit) w, ((Prog.done () : Cmd Unit).faulty F).run w = (w, some ()) := fun _ _ => rfl
  unfold applyEvent
  dsimp only
  split
  · next hc =>
      cases hp : (PgEnum.ofText? (paidPlan ev.object) : Option OrgPlan) with
      | none => exact ⟨w, run_miscast hp _ hk, .miscast hc hp⟩
      | some p =>
          obtain ⟨w', hrun, h⟩ := run_upsertSubscription (F := F) (o := o) (x := ev.object) hid hp _ hk
          exact ⟨w', hrun, .checkout hc hp h⟩
  · next hc =>
      split
      · next hf =>
          have hrun := run_setSubs (F := F) (o := o) (w := w) (n := "SetSubscriptionPastDue")
            (f := pastDue (w.now + a.graceSec * second)) (fun _ => rfl) (fun _ => rfl) (fun _ => rfl)
            (fun _ => .done ()) fun _ => rfl
          exact ⟨_, hrun, .failed hf⟩
      · next hf =>
          split
          · next hs =>
              obtain ⟨w', hinv, h⟩ := run_createInvoice (F := F) (o := o) (x := ev.object)
                (hid.unlessRefused (F := F) (n := "SetSubscriptionActive") (hid.setSubs (f := active) (h := fun _ => rfl))) _ hk
              have hrun := run_setSubs (F := F) (o := o) (w := w) (n := "SetSubscriptionActive") (f := active)
                (fun _ => rfl) (fun _ => rfl) (fun _ => rfl) (fun _ => _) fun _ => hinv
              exact ⟨w', hrun, .succeeded hs h⟩
          · next hs =>
              split
              · next hd => exact ⟨_, run_downgrade _ hk, .deleted hd⟩
              · next hd =>
                  refine ⟨w, rfl, .other ?_⟩
                  simp [hc, hf, hs, hd]

/-! ### By the type of the event -/

theorem Applied.checkout_inv (ht : ev.type = "checkout.session.completed") (h : Applied F a o ev w w') :
    (PgEnum.ofText? (paidPlan ev.object) : Option OrgPlan) = none ∧ w' = w ∨
      ∃ p, (PgEnum.ofText? (paidPlan ev.object) : Option OrgPlan) = some p ∧ Upserted F o p ev.object w w' := by
  cases h with
  | miscast _ hp => exact .inl ⟨hp, rfl⟩
  | checkout _ hp h => exact .inr ⟨_, hp, h⟩
  | failed ht' => exact absurd (ht.symm.trans ht') (by decide)
  | succeeded ht' _ => exact absurd (ht.symm.trans ht') (by decide)
  | deleted ht' => exact absurd (ht.symm.trans ht') (by decide)
  | other hn => exact absurd (by simp [ht]) hn

theorem Applied.failed_inv (ht : ev.type = "invoice.payment_failed") (h : Applied F a o ev w w') :
    w'.db = unlessRefused F "SetSubscriptionPastDue"
      (w.db.setSubs o (pastDue (w.now + a.graceSec * second)) pastDue_id) w.db := by
  cases h with
  | miscast ht' _ => exact absurd (ht.symm.trans ht') (by decide)
  | checkout ht' _ _ => exact absurd (ht.symm.trans ht') (by decide)
  | failed _ => rfl
  | succeeded ht' _ => exact absurd (ht.symm.trans ht') (by decide)
  | deleted ht' => exact absurd (ht.symm.trans ht') (by decide)
  | other hn => exact absurd (by simp [ht]) hn

theorem Applied.succeeded_inv (ht : ev.type = "invoice.payment_succeeded") (h : Applied F a o ev w w') :
    Invoiced F o ev.object
      { w with db := unlessRefused F "SetSubscriptionActive" (w.db.setSubs o active active_id) w.db } w' := by
  cases h with
  | miscast ht' _ => exact absurd (ht.symm.trans ht') (by decide)
  | checkout ht' _ _ => exact absurd (ht.symm.trans ht') (by decide)
  | failed ht' => exact absurd (ht.symm.trans ht') (by decide)
  | succeeded _ h => exact h
  | deleted ht' => exact absurd (ht.symm.trans ht') (by decide)
  | other hn => exact absurd (by simp [ht]) hn

theorem Applied.deleted_inv (ht : ev.type = "customer.subscription.deleted") (h : Applied F a o ev w w') :
    w'.db = unlessRefused F "DowngradeToFree (org)"
      (unlessRefused F "DowngradeToFree (subscription)" (freed w.db o) (w.db.setPlan o .free)) w.db := by
  cases h with
  | miscast ht' _ => exact absurd (ht.symm.trans ht') (by decide)
  | checkout ht' _ _ => exact absurd (ht.symm.trans ht') (by decide)
  | failed ht' => exact absurd (ht.symm.trans ht') (by decide)
  | succeeded ht' _ => exact absurd (ht.symm.trans ht') (by decide)
  | deleted _ => rfl
  | other hn => exact absurd (by simp [ht]) hn

theorem Applied.other_inv (hn : ev.type ∉ ["checkout.session.completed", "invoice.payment_failed",
    "invoice.payment_succeeded", "customer.subscription.deleted"]) (h : Applied F a o ev w w') : w' = w := by
  cases h with
  | miscast ht _ => exact absurd (by simp [ht]) hn
  | checkout ht _ _ => exact absurd (by simp [ht]) hn
  | failed ht => exact absurd (by simp [ht]) hn
  | succeeded ht _ => exact absurd (by simp [ht]) hn
  | deleted ht => exact absurd (by simp [ht]) hn
  | other _ => rfl

/-! ## Events about the same org -/

theorem Upserted.fresh (hid : FreshIds w) (h : Upserted F o p x w w') : FreshIds w' := by
  cases h with
  | refused _ => exact hid
  | halved _ _ => exact hid.setPlan
  | updated _ _ _ => exact (hid.setPlan (o := o) (p := p)).setSubs
  | unmade _ _ _ _ =>
      refine hid.congr rfl (Nat.le_succ _) ?_ ?_
      · exact setPlan_other (o := o) (p := p) (t := .subscription) (by decide)
      · exact setPlan_other (o := o) (p := p) (t := .invoice) (by decide)
  | made _ _ _ _ _ t ht =>
      refine hid.mono rfl (Nat.le_succ _) (fun b hb => ?_) fun i hi => .inl ⟨i, ?_, rfl⟩
      · dsimp only at hb
        rw [Store.set_same, ht] at hb
        rcases List.mem_cons.1 hb with rfl | hb
        · exact .inr ⟨_, Nat.lt_succ_self _, rfl⟩
        · exact .inl ⟨b, hb, rfl⟩
      · dsimp only at hi
        rwa [Store.set_of_ne _ _ (by decide), setPlan_other (by decide)] at hi

theorem Invoiced.fresh (hid : FreshIds w) (h : Invoiced F o x w w') : FreshIds w' := by
  cases h with
  | unmade _ => exact hid.congr rfl (Nat.le_succ _) rfl rfl
  | made _ _ _ t ht =>
      refine hid.mono rfl (Nat.le_succ _) (fun b hb => .inl ⟨b, ?_, rfl⟩) fun i hi => ?_
      · dsimp only at hb
        rwa [Store.set_of_ne _ _ (by decide)] at hb
      · dsimp only at hi
        rw [Store.set_same, ht] at hi
        rcases List.mem_cons.1 hi with rfl | hi
        · exact .inr ⟨_, Nat.lt_succ_self _, rfl⟩
        · exact .inl ⟨i, hi, rfl⟩

theorem Applied.fresh (hid : FreshIds w) (h : Applied F a o ev w w') : FreshIds w' := by
  cases h with
  | miscast _ _ => exact hid
  | checkout _ _ h => exact h.fresh hid
  | failed _ => exact hid.unlessRefused hid.setSubs
  | succeeded _ h => exact h.fresh (hid.unlessRefused hid.setSubs)
  | deleted _ =>
      have hplan := hid.setPlan (o := o) (p := .free)
      exact hid.unlessRefused (hplan.unlessRefused (t := freed w.db o) hplan.setSubs)
  | other _ => exact hid

/-- The org of the newest subscription of a customer. -/
def customerOrg (s : Store) (c : String) : Option Id :=
  ((s .subscription).rows.find? fun q => decide (q.stripeCustomerId = some c)).map (·.orgId)

theorem customerOrg_setSubs {f : Subscription → Subscription} {hf : ∀ b, (f b).id = b.id} {c : String}
    (ho : ∀ b, (f b).orgId = b.orgId) (hc : ∀ b, b.stripeCustomerId = some c → (f b).stripeCustomerId = some c)
    (h : customerOrg s c = some o) : customerOrg (s.setSubs o f hf) c = some o := by
  rw [customerOrg, Store.setSubs, Store.set_same, Table.rows_update]
  rw [customerOrg] at h
  generalize (s .subscription).rows = rows at h
  induction rows with
  | nil => cases h
  | cons b bs ih =>
      rw [List.map_cons, List.find?_cons]
      rw [List.find?_cons] at h
      by_cases hb : b.orgId = o
      · simp only [hb, decide_true, if_true]
        by_cases hcb : (f b).stripeCustomerId = some c
        · simp [hcb, ho, hb]
        · rw [decide_eq_false fun hbc => hcb (hc b hbc)] at h
          rw [decide_eq_false hcb]
          exact ih h
      · simp only [hb, decide_false, Bool.false_eq_true, if_false]
        by_cases hcb : b.stripeCustomerId = some c
        · rw [decide_eq_true hcb] at h
          exact absurd (Option.some.inj h) hb
        · rw [decide_eq_false hcb] at h
          rw [decide_eq_false hcb]
          exact ih h

theorem subsOf_ne_nil_of_customerOrg {c : String} (h : customerOrg s c = some o) : subsOf s o ≠ [] := by
  rw [customerOrg, Option.map_eq_some_iff] at h
  obtain ⟨b, hb, rfl⟩ := h
  exact List.ne_nil_of_mem (List.mem_filter.2 ⟨List.mem_of_find?_eq_some hb, decide_eq_true rfl⟩)

/-- The subscriptions of other orgs, and the customer of those of the org, are as they were. -/
theorem Applied.customerOrg (h : Applied F a o ev w w') (hc : API.customerOrg w.db ev.object.customer = some o) :
    API.customerOrg w'.db ev.object.customer = some o := by
  have hplan : ∀ {s : Store} {p : OrgPlan}, API.customerOrg s ev.object.customer = some o →
      API.customerOrg (s.setPlan o p) ev.object.customer = some o := fun hs => by
    rwa [API.customerOrg, setPlan_other (by decide)]
  have hrefused : ∀ {n : String} {s s' : Store}, API.customerOrg s ev.object.customer = some o →
      API.customerOrg s' ev.object.customer = some o →
      API.customerOrg (unlessRefused F n s' s) ev.object.customer = some o := fun hs hs' => by
    unfold unlessRefused
    split
    · exact hs
    · exact hs'
  cases h with
  | miscast _ _ => exact hc
  | checkout _ _ h =>
      cases h with
      | refused _ => exact hc
      | halved _ _ => exact hplan hc
      | updated _ _ _ =>
          refine @customerOrg_setSubs o _ (checkedOut _ ev.object) (fun _ => rfl) _ (fun _ => rfl) (fun b hb => ?_) (hplan hc)
          simp only [checkedOut, DB.orKeep, hb]
          split <;> rfl
      | unmade _ _ hs _ => exact absurd hs (subsOf_ne_nil_of_customerOrg hc)
      | made _ _ hs _ _ _ _ => exact absurd hs (subsOf_ne_nil_of_customerOrg hc)
  | failed _ => exact hrefused hc (customerOrg_setSubs (fun _ => rfl) (fun _ hb => hb) hc)
  | succeeded _ h =>
      have hact := hrefused (n := "SetSubscriptionActive") hc
        (@customerOrg_setSubs o _ active (fun _ => rfl) _ (fun _ => rfl) (fun _ hb => hb) hc)
      cases h with
      | unmade _ => exact hact
      | made _ _ _ t ht =>
          rw [API.customerOrg]
          dsimp only
          rw [Store.set_of_ne _ _ (by decide)]
          exact hact
  | deleted _ => exact hrefused hc (hrefused (hplan hc) (customerOrg_setSubs (fun _ => rfl) (fun _ hb => hb) (hplan hc)))
  | other _ => exact hc

/-! ## Deliveries -/

variable {r : Request}

/-- The delivery carries a valid signature. -/
def Signed (a : API) (r : Request) (now : Time) : Prop :=
  Stripe.verifyWebhook a.hmac (Utf8.encode r.body) r.signature a.stripeWebhookSecret (300 * second) now = .ok ()

/-- The org of the event is to be found by its customer, and that query is refused. -/
def LookupRefused (F : String → Option DbErr) (x : StripeObject) : Prop :=
  entry x.metadata "org_id" = "" ∧ x.clientReferenceID = "" ∧ (F "OrgByStripeCustomer").isSome = true

theorem run_faulty_eventOrg (hne : eventOrgOf w.db x ≠ "") :
    LookupRefused F x ∧ ((eventOrg x).faulty F).run w = (w, some "") ∨
      ¬ LookupRefused F x ∧ ((eventOrg x).faulty F).run w = (w, some (eventOrgOf w.db x)) := by
  unfold eventOrgOf at hne ⊢
  unfold eventOrg LookupRefused
  split
  · next hm => exact .inr ⟨fun h => hm h.1, rfl⟩
  · next hm =>
      split
      · next hr => exact .inr ⟨fun h => hr h.2.1, rfl⟩
      · next hr =>
          rw [if_neg hm, if_neg hr] at hne
          split
          · next hc => exact absurd (if_pos hc) hne
          · next hc =>
              unfold DB.orgByStripeCustomer
              rw [if_neg hc, Prog.bind_def, Apifor.read, query, Prog.faulty_bind, Prog.run_bind]
              cases h : F "OrgByStripeCustomer" with
              | some e =>
                  rw [Prog.run_faulty_refused h]
                  exact .inl ⟨⟨not_not.1 hm, not_not.1 hr, by rw [Option.isSome_some]⟩, rfl⟩
              | none =>
                  rw [Prog.faulty_sound h, Prog.run_attempt]
                  exact .inr ⟨fun hl => absurd hl.2.2 (by decide), rfl⟩

def ignored : Response := writeJSON 200 (.obj [("received", .bool true), ("ignored", .str "sem org")])

def received (ev : StripeEvent) : Response := writeJSON 200 (.obj [("received", .bool true), ("type", .str ev.type)])

/-- What the webhook makes of a signed event of some org when some of its statements are refused. -/
theorem run_webhook (hid : FreshIds w) (hs : Signed a r w.now) (hok : (stripeEvent r.body).2 = true)
    (hne : eventOrgOf w.db (stripeEvent r.body).1.object ≠ "") :
    LookupRefused F (stripeEvent r.body).1.object ∧ ((a.webhook r).faulty F).run w = (w, some ignored) ∨
      ¬ LookupRefused F (stripeEvent r.body).1.object ∧
        ∃ w', ((a.webhook r).faulty F).run w = (w', some (received (stripeEvent r.body).1)) ∧
          Applied F a (eventOrgOf w.db (stripeEvent r.body).1.object) (stripeEvent r.body).1 w w' := by
  have hrun : ((a.webhook r).faulty F).run w =
      (((eventOrg (stripeEvent r.body).1.object).bind fun org =>
        if org = "" then .done ignored
        else (a.applyEvent org (stripeEvent r.body).1).bind fun _ => .done (received (stripeEvent r.body).1)).faulty F).run w := by
    unfold Signed at hs
    rw [webhook, timeNow, Prog.bind_def, Prog.faulty_bind, Prog.faulty_lift, Prog.run_bind, Prog.run_lift]
    simp only [hs, hok, Bool.not_true, Bool.false_eq_true, if_false]
    rfl
  rw [hrun, Prog.faulty_bind]
  rcases run_faulty_eventOrg (F := F) hne with ⟨hl, hlook⟩ | ⟨hl, hlook⟩
  · refine .inl ⟨hl, ?_⟩
    rw [Prog.run_bind_of_eq hlook]
    rfl
  · refine .inr ⟨hl, ?_⟩
    obtain ⟨w', happ, h⟩ :
        ∃ w', ((a.applyEvent (eventOrgOf w.db (stripeEvent r.body).1.object) (stripeEvent r.body).1).faulty F).run w =
            (w', some ()) ∧
          Applied F a (eventOrgOf w.db (stripeEvent r.body).1.object) (stripeEvent r.body).1 w w' :=
      run_applyEvent hid
    refine ⟨w', ?_, h⟩
    rw [Prog.run_bind_of_eq hlook, if_neg hne, Prog.faulty_bind, Prog.run_bind_of_eq happ]
    rfl

end API

end Apifor
