import Apifor.Lemmas.Outcomes

/-!
# What a step does to the plan of an org

The plan of an org and its subscriptions are written by billing events, by the screens that change a
plan, and by the dunning of the reaper. Every other step leaves them as they are.
-/

namespace Apifor

variable {o org : Id} {s s' s'' : Store} {T : Tbl → Bool} {K : Id → Envelope → Prop} {α β : Type}

/-! ## Plans and subscriptions -/

def subsOf (s : Store) (o : Id) : List Subscription := (s .subscription).rows.filter fun b => decide (b.orgId = o)

/-- The plan of the org, if it exists, and its subscriptions are as they were. -/
structure SameBill (o : Id) (s s' : Store) : Prop where
  plan : ∀ p, DB.planOf s o = some p → DB.planOf s' o = some p
  subs : subsOf s' o = subsOf s o

theorem SameBill.refl (o : Id) (s : Store) : SameBill o s s := ⟨fun _ h => h, rfl⟩

theorem SameBill.trans (h : SameBill o s s') (h' : SameBill o s' s'') : SameBill o s s'' :=
  ⟨fun p hp => h'.plan p (h.plan p hp), h'.subs.trans h.subs⟩

theorem SameBill.of_eq (ho : s' .org = s .org) (hb : s' .subscription = s .subscription) : SameBill o s s' :=
  ⟨fun p hp => by rw [DB.planOf, ho]; exact hp, by rw [subsOf, hb, subsOf]⟩

theorem SameBill.of_touches (ho : T .org = false) (hb : T .subscription = false) (h : Touches T s s') :
    SameBill o s s' :=
  .of_eq (Table.ext (h.rows_eq ho fun _ => rfl)) (Table.ext (h.rows_eq hb fun _ => rfl))

/-- No step of the program changes the plan of the org. -/
abbrev Unbilled (o : Id) (c : Cmd α) : Prop := Prog.Each (fun w w' : World => SameBill o w.db w'.db) c

namespace Unbilled

theorem of_within {c : Cmd α} (ho : T .org = false) (hb : T .subscription = false) (h : Within T K c) : Unbilled o c :=
  Prog.Each.mono (fun _ _ hf => SameBill.of_touches ho hb hf.foot.db) h

theorem exec {n : String} {f : Time → Store → Except DbErr (Store × α)}
    (h : ∀ now s s' a, f now s = .ok (s', a) → SameBill o s s') : Unbilled o (exec n f) :=
  each_exec fun _ _ _ hf => h _ _ _ _ hf

theorem readOnly {c : Cmd α} (h : DB.ReadOnly c) : Unbilled o c := h.steps.mono fun _ _ heq => heq ▸ .refl _ _

theorem run {c : Cmd α} (h : Unbilled o c) (w : World) : SameBill o w.db (c.run w).1.db :=
  Prog.Each.keeps (R := fun w w' : World => SameBill o w.db w'.db) (fun _ => .refl _ _) (fun _ _ _ => .trans) h w

end Unbilled

/-! ## Statements -/

theorem key_org {f : Org → Org} (hf : ∀ x, (f x).id = x.id) (r : Row .org) : key .org (f r) = key .org r :=
  congrArg (·, (0 : Int)) (hf r)

theorem key_sub {f : Subscription → Subscription} (hf : ∀ b, (f b).id = b.id) (r : Row .subscription) :
    key .subscription (f r) = key .subscription r := congrArg (·, (0 : Int)) (hf r)

def Store.setOrg (s : Store) (org : Id) (f : Org → Org) (hf : ∀ x, (f x).id = x.id := by intro; rfl) : Store :=
  s.set .org ((s .org).update (fun x => decide (x.id = org)) f (key_org hf))

def Store.setPlan (s : Store) (org : Id) (p : OrgPlan) : Store := s.setOrg org fun x => { x with plan := p }

def Store.setSubs (s : Store) (org : Id) (f : Subscription → Subscription)
    (hf : ∀ b, (f b).id = b.id := by intro; rfl) : Store :=
  s.set .subscription ((s .subscription).update (fun b => decide (b.orgId = org)) f (key_sub hf))

theorem setOrgPlan_eq (org : Id) (p : OrgPlan) (s : Store) : DB.setOrgPlan org p s = .ok (s.setPlan org p) := by
  have hu := @update_all_eq .org (fun x => decide (x.id = org)) (fun x => { x with plan := p }) s (fun _ => rfl)
    (fun _ _ h => h) fun _ => rfl
  rw [DB.setOrgPlan, hu]
  rfl

theorem updateSubs_eq {f : Subscription → Subscription} (hf : ∀ r, key .subscription (f r) = key .subscription r)
    (hi : ∀ b, (f b).id = b.id) (ho : ∀ b, (f b).orgId = b.orgId) :
    update .all .subscription (fun b => decide (b.orgId = org)) f s hf = .ok (s.setSubs org f hi, (subsOf s org).length) :=
  update_all_eq (fun b q hq => by simpa [refs, ho] using hq) fun _ => rfl

theorem planOf_setPlan (p : OrgPlan) :
    DB.planOf (s.setPlan org p) o = if o = org then (DB.planOf s o).map fun _ => p else DB.planOf s o := by
  rw [DB.planOf, Store.setPlan, Store.setOrg, Store.set_same, Table.get?_update, Option.map_map, DB.planOf]
  cases hx : (s .org).get? (o, 0) with
  | none => simp
  | some x =>
      have hid : x.id = o := by simpa [key] using (Table.get?_eq_some.1 hx).2
      by_cases ho : o = org <;> simp [hid, ho]

theorem subsOf_setPlan (p : OrgPlan) : subsOf (s.setPlan org p) o = subsOf s o := by
  rw [subsOf, Store.setPlan, Store.setOrg, Store.set_of_ne _ _ (by decide), subsOf]

theorem planOf_setSubs {f : Subscription → Subscription} {hf : ∀ b, (f b).id = b.id} :
    DB.planOf (s.setSubs org f hf) o = DB.planOf s o := by
  rw [DB.planOf, Store.setSubs, Store.set_of_ne _ _ (by decide), DB.planOf]

theorem subsOf_setSubs {f : Subscription → Subscription} {hf : ∀ b, (f b).id = b.id} (ho : ∀ b, (f b).orgId = b.orgId) :
    subsOf (s.setSubs org f hf) o = if o = org then (subsOf s o).map f else subsOf s o := by
  rw [subsOf, Store.setSubs, Store.set_same, Table.rows_update, subsOf]
  generalize (s .subscription).rows = rows
  induction rows with
  | nil => simp
  | cons b bs ih =>
      rw [List.map_cons, List.filter_cons, ih, List.filter_cons]
      by_cases hb : b.orgId = org
      · by_cases hoo : o = org
        · simp [hb, ho, hoo]
        · simp [hb, ho, hoo, Ne.symm hoo]
      · by_cases hoo : o = org
        · simp [hb, hoo]
        · simp [hb, hoo]

theorem SameBill.setPlan {p : OrgPlan} (h : o ≠ org) : SameBill o s (s.setPlan org p) :=
  ⟨fun q hq => by rwa [planOf_setPlan, if_neg h], subsOf_setPlan p⟩

theorem SameBill.setSubs {f : Subscription → Subscription} {hf : ∀ b, (f b).id = b.id} (ho : ∀ b, (f b).orgId = b.orgId)
    (h : o ≠ org) : SameBill o s (s.setSubs org f hf) :=
  ⟨fun p hp => by rwa [planOf_setSubs], by rw [subsOf_setSubs ho, if_neg h]⟩

/-! ## Dunning -/

/-- The store after `DowngradeToFree`. -/
def freed (s : Store) (org : Id) : Store :=
  (s.setPlan org .free).setSubs org (fun b => { b with plan := .free, status := .canceled, graceUntil := none })

theorem run_downgradeToFree (org : Id) (w : World) :
    (DB.downgradeToFree org).run w = ({ w with db := freed w.db org }, some (.ok ())) := by
  simp only [DB.downgradeToFree, setOrgPlan_eq, Prog.bind_def, Prog.run_bind, run_exec, Except.map]
  have hsubs := @updateSubs_eq org (w.db.setPlan org .free)
    (fun b => { b with plan := .free, status := .canceled, graceUntil := none }) (fun _ => rfl) (fun _ => rfl) fun _ => rfl
  rw [hsubs]
  rfl

/-- The org has a subscription whose grace is over. -/
def Overdue (now : Time) (s : Store) (o : Id) : Prop :=
  ∃ b ∈ subsOf s o, b.status = .past_due ∧ ∃ g, b.graceUntil = some g ∧ g < now

theorem planOf_freed : DB.planOf (freed s org) o = if o = org then (DB.planOf s o).map fun _ => .free else DB.planOf s o := by
  rw [freed, planOf_setSubs, planOf_setPlan]

theorem SameBill.freed (h : o ≠ org) : SameBill o s (freed s org) :=
  (SameBill.setPlan h).trans (.setSubs (fun _ => rfl) h)

theorem run_downgradeAll (orgs : List Id) (w : World) :
    (Server.downgradeAll orgs).run w = ({ w with db := orgs.foldl Apifor.freed w.db }, some ()) := by
  induction orgs generalizing w with
  | nil => rfl
  | cons org orgs ih =>
      simp only [Server.downgradeAll, Prog.bind_def, Prog.run_bind_of_eq (run_downgradeToFree org w), ih]
      rfl

theorem foldl_freed {orgs : List Id} (h : o ∉ orgs) : SameBill o s (orgs.foldl Apifor.freed s) := by
  induction orgs generalizing s with
  | nil => exact .refl o s
  | cons org orgs ih =>
      rw [List.mem_cons, not_or] at h
      exact (SameBill.freed h.1).trans (ih h.2)

theorem planOf_foldl_freed_other {orgs : List Id} (h : o ∉ orgs) :
    DB.planOf (orgs.foldl Apifor.freed s) o = DB.planOf s o := by
  induction orgs generalizing s with
  | nil => rfl
  | cons org orgs ih =>
      rw [List.mem_cons, not_or] at h
      rw [List.foldl_cons, ih h.2, planOf_freed, if_neg h.1]

theorem planOf_foldl_freed {orgs : List Id} (h : o ∈ orgs) :
    DB.planOf (orgs.foldl Apifor.freed s) o = (DB.planOf s o).map fun _ => .free := by
  induction orgs generalizing s with
  | nil => cases h
  | cons org orgs ih =>
      rw [List.foldl_cons]
      by_cases ho : o ∈ orgs
      · rw [ih ho, planOf_freed]
        split
        · rw [Option.map_map]
          rfl
        · rfl
      · have heq : o = org := (List.mem_cons.1 h).resolve_right ho
        rw [planOf_foldl_freed_other ho, planOf_freed, if_pos heq]

/-- The orgs that `PastDueExpired` lists. -/
def expired (now : Time) (s : Store) : List Id :=
  ((s .subscription).rows.reverse.filter fun b =>
    decide (b.status = .past_due) && (b.graceUntil.map fun g => decide (g < now)).getD false).map (·.orgId)

theorem mem_expired {now : Time} : o ∈ expired now s ↔ Overdue now s o := by
  simp only [expired, Overdue, subsOf, List.mem_map, List.mem_filter, List.mem_reverse, Bool.and_eq_true, decide_eq_true_eq]
  constructor
  · rintro ⟨b, ⟨hb, hst, hg⟩, rfl⟩
    cases hgr : b.graceUntil with
    | none => rw [hgr] at hg; cases hg
    | some g =>
        rw [hgr] at hg
        exact ⟨b, ⟨hb, rfl⟩, hst, g, hgr, of_decide_eq_true hg⟩
  · rintro ⟨b, ⟨hb, rfl⟩, hst, g, hgr, hlt⟩
    exact ⟨b, ⟨hb, hst, by simp [hgr, hlt]⟩, rfl⟩

theorem run_dunning (w : World) :
    Server.dunning.run w = ({ w with db := (expired w.now w.db).foldl Apifor.freed w.db }, some ()) := by
  have hread : DB.pastDueExpired.run w = (w, some (.ok (expired w.now w.db))) := run_query _ _ _
  simp only [Server.dunning, Prog.bind_def, Prog.run_bind_of_eq hread, run_downgradeAll]

/-- A pass of the reaper downgrades an org that is overdue, and leaves the others alone. -/
structure ReapBill (now : Time) (o : Id) (s s' : Store) : Prop where
  due : Overdue now s o → ∀ p, DB.planOf s o = some p → DB.planOf s' o = some .free
  other : ¬ Overdue now s o → SameBill o s s'

/-- The rest of a pass that has downgraded every org. -/
def leases (sv : Server) : Cmd Unit :=
  DB.allActiveLeases.bind fun
    | .ok ls => sv.reapLeases ls
    | .error _ => .done ()

theorem unbilled_leases (sv : Server) : Unbilled o (leases sv) := by
  refine Prog.Each.bind (Unbilled.readOnly Server.readOnly_allActiveLeases) fun r => ?_
  cases r with
  | error e => exact .done _
  | ok ls =>
      exact Unbilled.of_within (T := Server.leaseTables) (K := fun _ _ => True) rfl rfl
        (Server.reapLeases_within (fun _ _ _ => trivial) sv ls)

theorem reapOnce_bill (sv : Server) (w : World) : ReapBill w.now o w.db (sv.reapOnce.run w).1.db := by
  have hrun : (sv.reapOnce.run w).1 = ((leases sv).run _).1 := congrArg Prod.fst (Prog.run_bind_of_eq (run_dunning w))
  have hsame := (unbilled_leases (o := o) sv).run { w with db := (expired w.now w.db).foldl Apifor.freed w.db }
  rw [hrun]
  refine ⟨fun hdue p hp => hsame.plan _ ?_, fun hno => ?_⟩
  · rw [planOf_foldl_freed (mem_expired.2 hdue), hp]
    rfl
  · exact (foldl_freed fun h => hno (mem_expired.1 h)).trans hsame

/-! ## Statements about other orgs -/

theorem unbilled_exec_setPlan (h : o ≠ org) {n : String} {p : OrgPlan} {x : α} :
    Unbilled o (Apifor.exec n fun _ s => (DB.setOrgPlan org p s).map fun s => (s, x)) :=
  Unbilled.exec fun now s s' y hs => by
    rw [setOrgPlan_eq] at hs
    cases hs
    exact .setPlan h

theorem SameBill.updateSubs {sc : Scope} {p : Subscription → Bool} {f : Subscription → Subscription}
    {hf : ∀ r, key .subscription (f r) = key .subscription r} {n : Nat}
    (hu : update sc .subscription p f s hf = .ok (s', n)) (hp : ∀ b, p b = true → b.orgId ≠ o ∧ (f b).orgId ≠ o) :
    SameBill o s s' := by
  refine ⟨fun q hq => by rwa [DB.planOf, update_other hu (by decide)], ?_⟩
  simp only [update] at hu
  split_ifs at hu
  cases hu
  rw [subsOf, Store.set_same]
  refine Table.filter_rows_update fun b _ hb => ?_
  simp only [Bool.and_eq_true] at hb
  exact ⟨decide_eq_false (hp b hb.2).1, decide_eq_false (hp b hb.2).2⟩

theorem SameBill.updateOrg {sc : Scope} {p : Org → Bool} {f : Org → Org} {hf : ∀ r, key .org (f r) = key .org r} {n : Nat}
    (hu : update sc .org p f s hf = .ok (s', n)) (hp : ∀ x, p x = true → x.id = o → (f x).plan = x.plan) :
    SameBill o s s' := by
  refine ⟨fun q hq => ?_, by rw [subsOf, update_other hu (by decide), subsOf]⟩
  simp only [update] at hu
  split_ifs at hu
  cases hu
  rw [DB.planOf, Store.set_same, Table.get?_update, Option.map_map]
  rw [DB.planOf, Option.map_eq_some_iff] at hq
  obtain ⟨x, hx, rfl⟩ := hq
  have hid : x.id = o := by simpa [key] using (Table.get?_eq_some.1 hx).2
  rw [hx, Option.map_some, Option.some.injEq, Function.comp_apply]
  split
  · next hw =>
      simp only [Bool.and_eq_true] at hw
      exact hp x hw.2 hid
  · rfl

theorem unbilled_exec_setSubs (h : o ≠ org) {n : String} {f : Subscription → Subscription}
    {hf : ∀ r, key .subscription (f r) = key .subscription r} (ho : ∀ b, (f b).orgId = b.orgId) :
    Unbilled o (Apifor.exec n fun _ s =>
      (update .all .subscription (fun b => decide (b.orgId = org)) f s hf).map fun r => (r.1, ())) :=
  Unbilled.exec fun now s s' y hs => by
    obtain ⟨r, hr, heq⟩ := map_eq_ok hs
    cases heq
    refine SameBill.updateSubs hr fun b hb => ?_
    have hbo : b.orgId = org := of_decide_eq_true hb
    rw [ho, hbo]
    exact ⟨Ne.symm h, Ne.symm h⟩

theorem unbilled_downgradeToFree (h : o ≠ org) : Unbilled o (DB.downgradeToFree org) := by
  refine Prog.Each.bind (unbilled_exec_setPlan h) fun res => ?_
  cases res with
  | error e => exact .done _
  | ok _ =>
      refine unbilled_exec_setSubs h ?_
      exact fun _ => rfl

theorem subsOf_cons {b : Subscription} {t : Table (key .subscription)} (ht : t.rows = b :: (s .subscription).rows)
    (h : b.orgId ≠ o) : subsOf (s.set .subscription t) o = subsOf s o := by
  rw [subsOf, Store.set_same, ht, List.filter_cons, decide_eq_false h]
  rfl

theorem SameBill.insertSub {sc : Scope} {b : Subscription} (hb : b.orgId ≠ o) (h : insert sc .subscription b s = .ok s') :
    SameBill o s s' := by
  have hrows := insert_rows h
  obtain ⟨t, -, rfl⟩ := insert_eq h
  rw [Store.set_same] at hrows
  exact ⟨fun p hp => by rwa [DB.planOf, Store.set_of_ne _ _ (by decide)], subsOf_cons hrows hb⟩

theorem SameBill.insert {sc : Scope} {t : Tbl} {x : Row t} (ho : Tbl.org ≠ t) (hb : Tbl.subscription ≠ t)
    (h : Apifor.insert sc t x s = .ok s') : SameBill o s s' := .of_eq (insert_other h ho) (insert_other h hb)

/-- A new org is not one that exists. -/
theorem SameBill.insertOrg {sc : Scope} {x : Org} (h : Apifor.insert sc .org x s = .ok s') : SameBill o s s' := by
  refine ⟨fun p hp => ?_, by rw [subsOf, insert_other h (by decide), subsOf]⟩
  obtain ⟨t, ht, rfl⟩ := insert_eq h
  rw [DB.planOf, Store.set_same, Table.get?_insert ht]
  split
  · next hk =>
      rw [DB.planOf, Option.map_eq_some_iff] at hp
      obtain ⟨y, hy, -⟩ := hp
      obtain ⟨hmem, hkey⟩ := Table.get?_eq_some.1 hy
      exact absurd (hkey.trans hk.symm) (Table.key_notMem_of_insert ht y hmem)
  · exact hp

theorem unbilled_upsertSubscription {plan customer sub : String} (h : o ≠ org) :
    Unbilled o (DB.upsertSubscription org plan customer sub) := by
  refine Prog.Each.bind (Unbilled.exec fun now s s' p hs => ?_) fun res => ?_
  · split at hs
    · cases hs
    · rw [setOrgPlan_eq] at hs
      cases hs
      exact .setPlan h
  · cases res with
    | error e => exact .done _
    | ok p =>
        refine Prog.Each.bind (Unbilled.exec fun now s s' n hs => ?_) fun res => ?_
        · refine SameBill.updateSubs hs fun b hb => ?_
          have hbo : b.orgId = org := of_decide_eq_true hb
          rw [← hbo] at h
          exact ⟨Ne.symm h, Ne.symm h⟩
        · rcases res with e | n
          · exact .done _
          · cases n with
            | succ n => exact .done _
            | zero =>
                refine Prog.Each.bind (Unbilled.of_within (T := fun _ => false) (K := fun _ _ => True) rfl rfl (.newID _))
                  fun i => Unbilled.exec fun now s s' y hs => ?_
                obtain ⟨s1, hi, heq⟩ := map_eq_ok hs
                cases heq
                exact SameBill.insertSub (Ne.symm h) hi

/-! ## Billing events -/

namespace API

variable {a : API} {u : Caller} {r : Request} {ev : StripeEvent} {w w' : World}

/-- The org that a billing event is about. -/
def eventOrgOf (s : Store) (b : StripeObject) : Id :=
  if entry b.metadata "org_id" ≠ "" then entry b.metadata "org_id"
  else if b.clientReferenceID ≠ "" then b.clientReferenceID
  else if b.customer = "" then ""
  else (((s .subscription).rows.find? fun q => decide (q.stripeCustomerId = some b.customer)).map (·.orgId)).getD ""

theorem run_eventOrg (b : StripeObject) (w : World) : (eventOrg b).run w = (w, some (eventOrgOf w.db b)) := by
  unfold eventOrg eventOrgOf
  split
  · rfl
  · split
    · rfl
    · unfold DB.orgByStripeCustomer
      split
      · rfl
      · simp only [Prog.bind_def, Prog.run_bind, DB.run_read]
        rfl

/-- The org and the event of a request that the webhook applies. -/
def bills (a : API) (r : Request) (w : World) : Option (Id × StripeEvent) :=
  if r.path = "/v1/billing/webhook" then
    match Stripe.verifyWebhook a.hmac (Utf8.encode r.body) r.signature a.stripeWebhookSecret (300 * second) w.now with
    | .error _ => none
    | .ok () =>
        if (stripeEvent r.body).2 then
          if eventOrgOf w.db (stripeEvent r.body).1.object = "" then none
          else some (eventOrgOf w.db (stripeEvent r.body).1.object, (stripeEvent r.body).1)
        else none
  else none

/-- What the webhook makes of an event. -/
theorem webhook_run (hp : r.path = "/v1/billing/webhook") (w : World) :
    (∃ ev, a.bills r w = some ev ∧ ((a.webhook r).run w).1 = ((a.applyEvent ev.1 ev.2).run w).1) ∨
      a.bills r w = none ∧ ((a.webhook r).run w).1 = w := by
  have hfirst : ∀ {c : Cmd Unit} {v : Response} {w : World}, ((c.bind fun _ => .done v).run w).1 = (c.run w).1 := by
    intro c v w
    rw [Prog.run_bind]
    split <;> rfl
  simp only [bills, hp, if_true, webhook, timeNow, Prog.bind_def, Prog.run_bind, Prog.run_lift]
  cases Stripe.verifyWebhook a.hmac (Utf8.encode r.body) r.signature a.stripeWebhookSecret (300 * second) w.now with
  | error msg => exact .inr ⟨rfl, rfl⟩
  | ok _ =>
      cases hok : (stripeEvent r.body).2 with
      | false => exact .inr ⟨by simp, by simp⟩
      | true =>
          by_cases ho : eventOrgOf w.db (stripeEvent r.body).1.object = ""
          · refine .inr ⟨by simp [ho], ?_⟩
            simp [Prog.run_bind_of_eq (run_eventOrg _ _), ho]
          · refine .inl ⟨_, by simp [ho]; rfl, ?_⟩
            simp [Prog.run_bind_of_eq (run_eventOrg _ _), ho, hfirst]

/-- What an event makes of the plan and the subscriptions of its org. -/
inductive EventBill (a : API) (o : Id) (ev : StripeEvent) (now : Time) (s s' : Store) : Prop
  | failed (ht : ev.type = "invoice.payment_failed") (plan : DB.planOf s' o = DB.planOf s o)
      (subs : subsOf s' o = (subsOf s o).map fun b =>
        { b with status := .past_due, graceUntil := some (now + a.graceSec * second) })
  | deleted (ht : ev.type = "customer.subscription.deleted") (plan : DB.planOf s' o = (DB.planOf s o).map fun _ => .free)
  | paid (ht : ev.type = "checkout.session.completed" ∨ ev.type = "invoice.payment_succeeded")
  | other (ht : ev.type ≠ "invoice.payment_failed") (h : SameBill o s s')

theorem run_setSubscriptionPastDue (org : Id) (g : Time) (w : World) :
    (DB.setSubscriptionPastDue org g).run w =
      ({ w with db := w.db.setSubs org fun b => { b with status := .past_due, graceUntil := some g } }, some (.ok ())) := by
  have hsubs := @updateSubs_eq org w.db (fun b => { b with status := .past_due, graceUntil := some g }) (fun _ => rfl)
    (fun _ => rfl) fun _ => rfl
  simp only [DB.setSubscriptionPastDue, run_exec, hsubs, Except.map]

theorem applyEvent_bill (w : World) : EventBill a o ev w.now w.db ((a.applyEvent o ev).run w).1.db := by
  by_cases hc : ev.type = "checkout.session.completed"
  · exact .paid (.inl hc)
  · by_cases hf : ev.type = "invoice.payment_failed"
    · have hrun : ((a.applyEvent o ev).run w).1.db =
          w.db.setSubs o fun b => { b with status := .past_due, graceUntil := some (w.now + a.graceSec * second) } := by
        simp [applyEvent, hf, timeNow, Prog.run_bind, run_setSubscriptionPastDue]
      rw [hrun]
      refine .failed hf planOf_setSubs ?_
      rw [subsOf_setSubs, if_pos rfl]
      exact fun _ => rfl
    · by_cases hs : ev.type = "invoice.payment_succeeded"
      · exact .paid (.inr hs)
      · by_cases hd : ev.type = "customer.subscription.deleted"
        · have hrun : ((a.applyEvent o ev).run w).1.db = freed w.db o := by
            simp [applyEvent, hd, Prog.run_bind_of_eq (run_downgradeToFree o w)]
          rw [hrun]
          exact .deleted hd (by rw [planOf_freed, if_pos rfl])
        · have hrun : ((a.applyEvent o ev).run w).1 = w := by simp [applyEvent, hc, hf, hs, hd]
          rw [hrun]
          exact .other hf (.refl o w.db)

/-! ### The handler -/

theorem unbilled_applyEvent (h : o ≠ org) : Unbilled o (a.applyEvent org ev) := by
  unfold applyEvent
  dsimp only
  split
  · exact Prog.Each.bind (unbilled_upsertSubscription h) fun _ => .done _
  · split
    · refine Prog.Each.bind (Unbilled.of_within (T := fun _ => false) (K := fun _ _ => True) rfl rfl .timeNow) fun now => ?_
      refine Prog.Each.bind (unbilled_exec_setSubs h ?_) fun _ => .done _
      exact fun _ => rfl
    · split
      · refine Prog.Each.bind (unbilled_exec_setSubs h ?_) fun _ => ?_
        · exact fun _ => rfl
        · refine Prog.Each.bind (Unbilled.of_within (T := fun t => t == .invoice) (K := fun _ _ => True) rfl rfl ?_)
            fun _ => .done _
          exact Within.bind (.newID _) fun _ => DB.insertRow_within rfl
      · split
        · exact Prog.Each.bind (unbilled_downgradeToFree h) fun _ => .done _
        · exact .done _

/-! ### The screens that change a plan -/

/-- The body names a plan. -/
def namesPlan (r : Request) : Bool := (planBody r).2 && (PgEnum.ofText? (planBody r).1.plan : Option OrgPlan).isSome

/-- The org whose plan a request changes: the caller's own, or the one that a superadmin names. -/
def plans (a : API) (r : Request) : Option Id :=
  let (org, action) := splitAction (Text.trimPrefix r.path "/v1/admin/orgs/")
  if r.path = "/v1/billing/plan" ∧ can (a.authz r).role "billing" = true ∧ namesPlan r = true then some (a.authz r).orgID
  else if matchesPath r.path "/v1/admin/orgs/" = true ∧ (a.authz r).role = "superadmin" ∧ r.method = "POST" ∧
      action = some "plan" ∧ namesPlan r = true then some org
  else none

theorem unbilled_tx {B : Id} {n : String} {x : Tx T B α} {rls : Bool}
    (h : ∀ sc now s s' y, x.run sc now s = .ok (s', y) → SameBill o s s') : Unbilled o ((OrgM.tx n x).cmd rls) :=
  Unbilled.exec fun _ _ _ _ hs => h _ _ _ _ _ hs

theorem unbilled_setPlanTx {B : Id} {plan : String} {rls : Bool} (h : o ≠ B) :
    Unbilled o ((DB.setPlan (B := B) plan).cmd rls) := by
  refine Prog.Each.bind (Unbilled.of_within (T := fun _ => false) (K := fun _ _ => True) rfl rfl (.newID _)) fun i => ?_
  refine unbilled_tx fun sc now s s' y hx => ?_
  split at hx
  · cases hx
  · next p hp =>
      obtain ⟨⟨s1, n1⟩, h1, hx⟩ := Tx.bind_ok hx
      obtain ⟨⟨s2, n2⟩, h2, hx⟩ := Tx.bind_ok hx
      have hb1 : SameBill o s s1 := by
        refine SameBill.updateOrg h1 fun x hx hid => ?_
        have hxo : x.id = B := of_decide_eq_true hx
        exact absurd (hid.symm.trans hxo) h
      have hb2 : SameBill o s1 s2 := by
        refine SameBill.updateSubs h2 fun b hb => ?_
        have hbo : b.orgId = B := of_decide_eq_true hb
        rw [← hbo] at h
        exact ⟨Ne.symm h, Ne.symm h⟩
      refine hb1.trans (hb2.trans ?_)
      dsimp only at hx
      split at hx
      · obtain ⟨s3, h3, heq⟩ := map_eq_ok hx
        cases heq
        exact SameBill.insertSub (Ne.symm h) h3
      · cases hx
        exact .refl o _

theorem unbilled_writeAudit {B actor action ty target : Id} {ht : T .auditLog = true} {rls : Bool} :
    Unbilled o ((DB.writeAudit (T := T) (B := B) actor action ty target ht).cmd rls) := by
  have hid : Unbilled o (newID "aud") := .of_within (T := fun _ => false) (K := fun _ _ => True) rfl rfl (.newID _)
  refine Prog.Each.bind hid fun i => Prog.Each.bind (Unbilled.of_within (T := fun t => t == .auditLog)
    (K := fun _ _ => True) rfl rfl ?_) fun _ => .done _
  exact DB.insertRow_within rfl

theorem unbilled_setPlan {rls : Bool} (hp : r.path = "/v1/billing/plan") (h : a.plans r ≠ some o) :
    Unbilled o ((setPlan (a.authz r) r).cmd rls) := by
  unfold setPlan guarded
  split
  · next hc =>
      dsimp only
      split
      · exact .done _
      · next hok =>
          split
          · exact .done _
          · next hplan =>
              have hnames : namesPlan r = true := by
                simp only [namesPlan, Bool.and_eq_true]
                exact ⟨by simpa using hok, Option.isSome_iff_ne_none.2 fun hn => hplan (by rw [hn]; rfl)⟩
              have ho : o ≠ (a.authz r).orgID := by
                rintro rfl
                exact h (by simp [plans, hp, hc, hnames])
              refine Prog.Each.bind (unbilled_setPlanTx ho) fun res => ?_
              cases res with
              | error e => exact .done _
              | ok _ => exact Prog.Each.bind unbilled_writeAudit fun _ => .done _
  · exact .done _

theorem unbilled_superadmin {c : Cmd Response} (h : u.role = "superadmin" → Unbilled o c) : Unbilled o (superadmin u c) := by
  unfold superadmin
  split
  · next hr => exact h hr
  · exact .done _

theorem unbilled_adminScreen {n : String} {f : Store → Response} : Unbilled o (adminScreen u n f) :=
  unbilled_superadmin fun _ => Unbilled.of_within (T := fun _ => false) (K := fun _ _ => True) rfl rfl <|
    Within.bind (.query _ _) fun res => by cases res <;> exact .done _

theorem unbilled_adminAnswer {res : Except DbErr Unit} {c : Cmd Unit} {v : Val} (h : Unbilled o c) :
    Unbilled o (adminAnswer res c v) := by
  cases res with
  | error e => exact .done _
  | ok _ => exact Prog.Each.bind h fun _ => .done _

theorem unbilled_adminPlan (h : namesPlan r = true → o ≠ org) : Unbilled o (a.adminPlan u r org) := by
  unfold adminPlan
  dsimp only
  split
  · exact .done _
  · next hok =>
      split
      · exact .done _
      · next hplan =>
          have hnames : namesPlan r = true := by
            simp only [namesPlan, Bool.and_eq_true]
            exact ⟨by simpa using hok, Option.isSome_iff_ne_none.2 fun hn => hplan (by rw [hn]; rfl)⟩
          refine Prog.Each.bind (Unbilled.exec fun now s s' y hs => ?_) fun res => unbilled_adminAnswer unbilled_writeAudit
          split at hs
          · cases hs
          · rw [setOrgPlan_eq] at hs
            cases hs
            exact .setPlan (h hnames)

theorem unbilled_adminSuspend {b : Bool} : Unbilled o (a.adminSuspend u org b) := by
  refine Prog.Each.bind (Unbilled.exec fun now s s' y hs => ?_) fun res => unbilled_adminAnswer unbilled_writeAudit
  obtain ⟨q, hq, heq⟩ := map_eq_ok hs
  cases heq
  refine SameBill.updateOrg hq fun x _ _ => ?_
  rfl

theorem unbilled_adminOrgAction (hp : matchesPath r.path "/v1/admin/orgs/" = true) (h : a.plans r ≠ some o) :
    Unbilled o (a.adminOrgAction (a.authz r) r) := by
  refine unbilled_superadmin fun hrole => ?_
  dsimp only
  split_ifs with h1 h2 h3 h4 h5 h6 h7
  · exact .done _
  · exact unbilled_adminScreen
  · exact .done _
  · exact .done _
  · refine unbilled_adminPlan fun hnames ho => h ?_
    have hne : r.path ≠ "/v1/billing/plan" := by
      intro heq
      rw [heq] at hp
      revert hp
      decide
    simp [plans, hne, hp, hrole, not_not.1 h3, h5, hnames, ho]
  · exact unbilled_adminSuspend
  · exact unbilled_adminSuspend
  · exact .done _

theorem unbilled_register : Unbilled o (a.register r) := by
  have hid : ∀ pre, Unbilled o (newID pre) := fun pre =>
    .of_within (T := fun _ => false) (K := fun _ _ => True) rfl rfl (.newID pre)
  unfold register
  dsimp only
  split
  · exact .done _
  · refine Prog.Each.bind (Unbilled.readOnly (.read _ _)) fun res => ?_
    split
    · exact .done _
    · refine Prog.Each.bind ?_ fun res => ?_
      · refine Prog.Each.bind (hid _) fun i1 => Prog.Each.bind (hid _) fun B => Prog.Each.bind (hid _) fun i3 => ?_
        refine Prog.Each.bind (hid _) fun i4 => Prog.Each.bind (hid _) fun i5 => ?_
        refine Prog.Each.bind ?_ fun res => by cases res <;> exact .done _
        refine unbilled_tx fun sc now s s' y hx => ?_
        -- the new org is not one that exists
        obtain ⟨p0, h0, hx⟩ := Tx.bind_ok hx
        cases h0
        obtain ⟨⟨s1, _⟩, h1, hx⟩ := Tx.bind_ok hx
        obtain ⟨⟨s2, _⟩, h2, hx⟩ := Tx.bind_ok hx
        obtain ⟨⟨s3, _⟩, h3, hx⟩ := Tx.bind_ok hx
        obtain ⟨⟨s4, _⟩, h4, h5⟩ := Tx.bind_ok hx
        have hb1 := SameBill.insert (o := o) (by decide) (by decide) (Tx.insert_ok h1)
        have hb2 := SameBill.insertOrg (o := o) (Tx.insert_ok h2)
        have hb3 := SameBill.insert (o := o) (by decide) (by decide) (Tx.insert_ok h3)
        have hb4 := SameBill.insert (o := o) (by decide) (by decide) (Tx.insert_ok h4)
        have hb5 := SameBill.insert (o := o) (by decide) (by decide) (Tx.insert_ok h5)
        exact hb1.trans (hb2.trans (hb3.trans (hb4.trans hb5)))
      · cases res with
        | error e => exact .done _
        | ok v =>
            exact Prog.Each.bind (Unbilled.of_within (T := fun _ => false) (K := fun _ _ => True) rfl rfl .timeNow)
              fun _ => .done _

/-! ### Requests -/

/-- What a request makes of the plan and the subscriptions of an org. -/
inductive ReqBill (a : API) (o : Id) (r : Request) (w w' : World) : Prop
  | same (hno : ∀ ev, a.bills r w ≠ some (o, ev)) (h : SameBill o w.db w'.db)
  | event (ev : StripeEvent) (hb : a.bills r w = some (o, ev)) (h : EventBill a o ev w.now w.db w'.db)
  | plan (hp : a.plans r = some o)

theorem bills_none (hp : r.path ≠ "/v1/billing/webhook") (w : World) : a.bills r w = none := by
  rw [bills, if_neg hp]

theorem unbilled_adminUserStatus {id : Id} {action : String} {st : UserStatus} :
    Unbilled o (a.adminUserStatus u id action st) := by
  have hexec : Within (fun t => t == .appUser) (fun _ _ => True) (adminSetUserStatus id st) :=
    Within.execUpdate (t := .appUser) (p := fun _ v => decide (v.id = id)) (f := fun _ v => { v with status := st })
      (fun _ _ => rfl) rfl
  unfold adminUserStatus
  split
  · exact .done _
  · refine (Unbilled.of_within rfl rfl hexec).bind fun res => unbilled_adminAnswer ?_
    refine (Unbilled.of_within (T := fun _ => false) (K := fun _ _ => True) rfl rfl (.query _ _)).bind fun org => ?_
    cases org with
    | error e => exact .done _
    | ok org =>
        dsimp only
        split
        · exact unbilled_writeAudit
        · exact .done _

theorem unbilled_adminUserAction : Unbilled o (a.adminUserAction u r) := by
  refine unbilled_superadmin fun _ => ?_
  split
  · exact .done _
  · dsimp only
    split_ifs
    · exact .done _
    · exact unbilled_adminUserStatus
    · exact unbilled_adminUserStatus
    · exact .done _

theorem screens_webhook : ∀ n ∈ a.screens.map (·.1), matchesPath "/v1/billing/webhook" n = false := by
  simp only [screens, List.map]
  decide +kernel

theorem target_webhook (hp : r.path = "/v1/billing/webhook") :
    a.target r = some ("/v1/billing/webhook", .free fun _ r => a.webhook r) := by
  have hscreens : (a.screens.map fun e => (e.1, Handler.own settings e.2)).filter
      (fun e => matchesPath "/v1/billing/webhook" e.1) = [] := by
    refine List.filter_eq_nil_iff.2 fun e he => ?_
    obtain ⟨sc, hsc, rfl⟩ := List.mem_map.1 he
    rw [screens_webhook _ (List.mem_map_of_mem hsc)]
    decide
  rw [target, hp, if_pos (by decide), routes, List.filter_append, hscreens]
  simp +decide only [List.filter_cons, List.filter_nil, List.nil_append, if_true, if_false, longest]

theorem route_bill {e : String × Handler} (he : e ∈ a.routes) (hp : matchesPath r.path e.1 = true) (w : World) :
    ReqBill a o r w ((e.2.run a (a.authz r) r).run w).1 := by
  -- no other pattern matches the webhook's path
  have hother : ∀ (pat : String) {w' : World}, matchesPath r.path pat = true →
      matchesPath "/v1/billing/webhook" pat = false → SameBill o w.db w'.db → ReqBill a o r w w' := by
    intro pat w' hpat hne hc
    refine .same (fun ev hb => ?_) hc
    by_cases hw : r.path = "/v1/billing/webhook"
    · rw [hw, hne] at hpat
      cases hpat
    · rw [bills_none hw] at hb
      cases hb
  have hforeign : ∀ {T : Tbl → Bool} {c : Cmd Response}, T .org = false → T .subscription = false →
      Within T (fun _ _ => True) c → SameBill o w.db (c.run w).1.db := fun ho hb hc => (Unbilled.of_within ho hb hc).run w
  rcases List.mem_append.1 he with he | he
  · obtain ⟨sc, hsc, rfl⟩ := List.mem_map.1 he
    exact hother _ hp (screens_webhook _ (List.mem_map_of_mem hsc)) (hforeign rfl rfl (OrgM.within _ _))
  · simp only [List.mem_cons, List.not_mem_nil, or_false] at he
    rcases he with rfl | rfl | rfl | rfl | rfl | rfl | rfl | rfl | rfl | rfl | rfl | rfl | rfl | rfl | rfl | rfl |
      rfl | rfl | rfl
    · exact hother "/healthz" hp (by decide) (.refl _ _)
    · exact hother "/metrics" hp (by decide) (hforeign (T := fun _ => false) rfl rfl metricsHandler_within)
    · exact hother "/v1/ca" hp (by decide) (.refl _ _)
    · exact hother "/v1/auth/login" hp (by decide) (hforeign (T := fun _ => false) rfl rfl login_within)
    · exact hother "/v1/auth/register" hp (by decide) (unbilled_register.run w)
    · dsimp only [Handler.run]
      exact hother "/v1/tasks" hp (by decide) (hforeign rfl rfl (tasks_within hp fun _ _ _ _ => trivial))
    · dsimp only [Handler.run]
      exact hother "/v1/interventions/" hp (by decide)
        (hforeign rfl rfl (interventionAnswer_within hp fun _ _ _ _ _ => trivial))
    · have hpace := routineAction_pace (a := a) (K := fun _ _ => True) (w := w) hp fun _ _ _ _ _ _ _ => trivial
      dsimp only [Handler.run]
      exact hother "/v1/routines/" hp (by decide) (.of_touches rfl rfl hpace.foot.db)
    · exact hother "/v1/connections/git/github/oauth/callback" hp (by decide)
        (hforeign (T := fun t => t == .connection) rfl rfl (githubOAuthCallback_within rfl))
    · exact hother "/v1/devices/" hp (by decide) (hforeign rfl rfl (OrgM.within _ _))
    · by_cases hpl : a.plans r = some o
      · exact .plan hpl
      · refine hother "/v1/billing/plan" hp (by decide) ((unbilled_setPlan ?_ hpl).run w)
        exact eq_of_matchesPath (by decide) hp
    · have hpath : r.path = "/v1/billing/webhook" := eq_of_matchesPath (by decide) hp
      rcases webhook_run (a := a) hpath w with ⟨⟨B, ev⟩, hb, hrun⟩ | ⟨hb, hrun⟩
      · by_cases ho : o = B
        · subst ho
          refine .event ev hb ?_
          rw [show ((Handler.run a (.free fun _ r => a.webhook r) (a.authz r) r).run w).1 = _ from hrun]
          exact applyEvent_bill w
        · refine .same (fun ev' hb' => ?_) ?_
          · rw [hb] at hb'
            cases hb'
            exact ho rfl
          · rw [show ((Handler.run a (.free fun _ r => a.webhook r) (a.authz r) r).run w).1 = _ from hrun]
            exact (unbilled_applyEvent ho).run w
      · refine .same (fun ev' hb' => ?_) ?_
        · rw [hb] at hb'
          cases hb'
        · rw [show ((Handler.run a (.free fun _ r => a.webhook r) (a.authz r) r).run w).1 = _ from hrun]
          exact .refl _ _
    · exact hother "/v1/admin/stats" hp (by decide) (unbilled_adminScreen.run w)
    · exact hother "/v1/admin/orgs" hp (by decide) (unbilled_adminScreen.run w)
    · by_cases hpl : a.plans r = some o
      · exact .plan hpl
      · exact hother "/v1/admin/orgs/" hp (by decide) ((unbilled_adminOrgAction hp hpl).run w)
    · exact hother "/v1/admin/users" hp (by decide) (unbilled_adminScreen.run w)
    · exact hother "/v1/admin/users/" hp (by decide) (unbilled_adminUserAction.run w)
    · exact hother "/v1/admin/audit" hp (by decide) (unbilled_adminScreen.run w)
    · exact hother "/v1/admin/plans" hp (by decide) (unbilled_adminScreen.run w)

theorem ReqBill.http {m n : HttpMemory} {w' : World} (h : ReqBill a o r { w with http := m } w') :
    ReqBill a o r w { w' with http := n } := by
  cases h with
  | same hno h => exact .same hno h
  | event ev hb h => exact .event ev hb h
  | plan hp => exact .plan hp

end API

/-! ## Steps -/

/-- The org and the event that a step applies. -/
def billed (a : API) (w : World) (e : Event) : Option (Id × API.StripeEvent) :=
  (w.serves e).bind fun r => if API.Admits a r w then a.bills r w else none

/-- The org whose plan a step is asked to change. -/
def askedPlan (a : API) (w : World) (e : Event) : Option Id :=
  (w.serves e).bind fun r => if API.Admits a r w ∧ (a.target r).isSome = true then a.plans r else none

/-- What a step makes of the plan and the subscriptions of an org. -/
inductive StepBill (a : API) (o : Id) (w : World) (e : Event) (w' : World) : Prop
  | same (hno : ∀ ev, billed a w e ≠ some (o, ev)) (hr : e = .reap → w.crashed = true) (h : SameBill o w.db w'.db)
  | event (ev : API.StripeEvent) (hb : billed a w e = some (o, ev)) (h : API.EventBill a o ev w.now w.db w'.db)
  | plan (hp : askedPlan a w e = some o)
  | reap (he : e = .reap) (hc : w.crashed = false) (h : ReapBill w.now o w.db w'.db)

/-- A request that changes a plan is no billing event. -/
theorem API.bills_of_plans {a : API} {r : Request} {w : World} (h : a.plans r = some o) : a.bills r w = none := by
  refine API.bills_none (fun hp => ?_) w
  unfold API.plans at h
  rw [hp] at h
  simp +decide only [false_and, if_false] at h
  cases h

theorem billed_of_askedPlan {a : API} {w : World} {e : Event} (h : askedPlan a w e = some o) : billed a w e = none := by
  unfold askedPlan at h
  cases hr : w.serves e with
  | none => rw [hr] at h; cases h
  | some r =>
      rw [hr, Option.bind_some] at h
      split at h
      · next ha => rw [billed, hr, Option.bind_some, if_pos ha.1, API.bills_of_plans h]
      · cases h

theorem serves_eq_some {w : World} {e : Event} {r : Request} (h : w.serves e = some r) :
    e = .rest r ∧ w.crashed = false := by
  cases e with
  | rest r' =>
      simp only [World.serves] at h
      split at h
      · cases h
      · next hc => exact ⟨by rw [Option.some.inj h], by simpa using hc⟩
  | _ => cases h

theorem step_serves {a : API} {w : World} {e : Event} {r : Request} (h : w.serves e = some r) :
    step a w e = ((a.serve r).run w).1 := by
  obtain ⟨rfl, hc⟩ := serves_eq_some h
  simp only [step, hc, Bool.false_eq_true, if_false, react, World.request]

theorem serve_bill {a : API} {w : World} {e : Event} {r : Request} (hr : w.serves e = some r) :
    StepBill a o w e (step a w e) := by
  have hreap : e = .reap → w.crashed = true := by
    obtain ⟨rfl, -⟩ := serves_eq_some hr
    exact nofun
  rw [step_serves hr]
  rcases API.serve_run a r w with ⟨ha, route, ht, m, m', hrun⟩ | ⟨hno, m, hrun⟩
  · have hbill : billed a w e = a.bills r w := by simp only [billed, hr, Option.bind_some, if_pos ha]
    have hreq := (API.route_bill (o := o) (API.target_mem ht).1 (API.target_mem ht).2 { w with http := m }).http (n := m')
    rw [← hrun] at hreq
    cases hreq with
    | same hne h => exact .same (fun ev hb => hne ev (hbill ▸ hb)) hreap h
    | event ev hb h => exact .event ev (hbill.trans hb) h
    | plan hp =>
        refine .plan ?_
        rw [askedPlan, hr, Option.bind_some, if_pos ⟨ha, by rw [ht]; rfl⟩]
        exact hp
  · rw [hrun]
    refine .same (fun ev hb => ?_) hreap (.of_eq rfl rfl)
    simp only [billed, hr, Option.bind_some] at hb
    split at hb
    · next ha =>
        have hp : r.path ≠ "/v1/billing/webhook" := fun hp => by
          have hnone := hno ha
          rw [API.target_webhook hp] at hnone
          cases hnone
        rw [API.bills_none hp] at hb
        cases hb
    · cases hb

/-- The other events leave the plan of every org alone. -/
theorem step_bill (a : API) (o : Id) (w : World) (e : Event) : StepBill a o w e (step a w e) := by
  cases hs : w.serves e with
  | some r => exact serve_bill hs
  | none =>
      have hno : ∀ ev, billed a w e ≠ some (o, ev) := fun ev hb => by simp [billed, hs] at hb
      by_cases hr : e = .reap ∧ w.crashed = false
      · obtain ⟨rfl, hc⟩ := hr
        refine .reap rfl hc ?_
        have hstep : (step a w .reap).db = (a.server.reapOnce.run w).1.db := by
          simp [step, hc, react]
        rw [hstep]
        exact reapOnce_bill a.server w
      · have hreap : e = .reap → w.crashed = true := fun he => by simpa [he] using hr
        refine .same hno hreap ?_
        refine step_rel (R := fun w w' => SameBill o w.db w'.db) (fun w' ht _ => .of_touches rfl rfl ht)
          (fun w' w'' h hdb _ => by rwa [hdb]) (fun st env _ => ?_) (fun r hr => ?_) (fun he hc => ?_) fun _ _ => ?_
        · exact .of_touches rfl rfl (onMessage_foot a.server st env w).db
        · rw [hs] at hr
          cases hr
        · exact absurd ⟨he, hc⟩ hr
        · exact .of_touches rfl rfl (Server.schedule_within (K := fun _ _ => True) a.server (fun _ _ _ _ => trivial) w).db

end Apifor
