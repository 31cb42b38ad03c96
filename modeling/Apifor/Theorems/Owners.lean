import Apifor.Lemmas.Outcomes

/-!
# The owner of an org

Every org keeps its owner among its active members, with an owner's tier. Three handlers write
memberships: a registration, the addition of a member and a removal. The removal spares owners; the
addition takes any e-mail, and sets the tier of the membership it finds.
-/

namespace Apifor

/-- Every org has its owner among its active members, with an owner's tier. -/
def OwnersStay (s : Store) : Prop := ∀ o ∈ (s .org).rows, ∃ m ∈ (s .membership).rows,
  m.orgId = o.id ∧ m.userId = o.ownerUserId ∧ m.permissionTier = .owner ∧ m.status = .active

/-- The owners are users: `owner_user_id` is a foreign key. -/
def OwnersExist (s : Store) : Prop := ∀ o ∈ (s .org).rows, ∃ v ∈ (s .appUser).rows, v.id = o.ownerUserId

instance (s : Store) : Decidable (OwnersStay s) :=
  inferInstanceAs (Decidable (∀ o ∈ (s .org).rows, ∃ m ∈ (s .membership).rows,
    m.orgId = o.id ∧ m.userId = o.ownerUserId ∧ m.permissionTier = .owner ∧ m.status = .active))

instance (s : Store) : Decidable (OwnersExist s) :=
  inferInstanceAs (Decidable (∀ o ∈ (s .org).rows, ∃ v ∈ (s .appUser).rows, v.id = o.ownerUserId))

structure Owned (s : Store) : Prop where
  stay : OwnersStay s
  exist : OwnersExist s

namespace Owned

variable {s s' : Store} {sc : Scope}

/-- The owners stay if no membership and no user goes, and every org is one that was there. -/
theorem keep (h : Owned s)
    (ho : ∀ o ∈ (s' .org).rows, ∃ q ∈ (s .org).rows, q.id = o.id ∧ q.ownerUserId = o.ownerUserId)
    (hm : ∀ m ∈ (s .membership).rows, m ∈ (s' .membership).rows)
    (hu : ∀ v ∈ (s .appUser).rows, ∃ v' ∈ (s' .appUser).rows, v'.id = v.id) : Owned s' := by
  refine ⟨fun o hmem => ?_, fun o hmem => ?_⟩
  · obtain ⟨q, hq, hid, howner⟩ := ho o hmem
    obtain ⟨m, hin, hmo, hmu, hrest⟩ := h.stay q hq
    exact ⟨m, hm m hin, hmo.trans hid, hmu.trans howner, hrest⟩
  · obtain ⟨q, hq, -, howner⟩ := ho o hmem
    obtain ⟨v, hv, hid⟩ := h.exist q hq
    obtain ⟨v', hv', hid'⟩ := hu v hv
    exact ⟨v', hv', hid'.trans (hid.trans howner)⟩

/-- The tables that say nothing about owners. -/
def others : Tbl → Bool
  | .org | .membership | .appUser => false
  | _ => true

theorem of_touches (h : Owned s) (ht : Touches others s s') : Owned s' := by
  have horg := ht.rows_eq (t := .org) rfl fun _ => rfl
  have hmem := ht.rows_eq (t := .membership) rfl fun _ => rfl
  have huser := ht.rows_eq (t := .appUser) rfl fun _ => rfl
  refine h.keep (fun o ho => ⟨o, horg ▸ ho, rfl, rfl⟩) (fun m hm => hmem ▸ hm) fun v hv => ⟨v, huser ▸ hv, rfl⟩

/-- A new row of any table but `org`. -/
theorem insert {t : Tbl} {x : Row t} (h : Owned s) (ht : t ≠ .org) (hi : Apifor.insert sc t x s = .ok s') : Owned s' := by
  have horg : s' .org = s .org := insert_other hi (Ne.symm ht)
  have hold : ∀ u, ∀ y ∈ (s u).rows, y ∈ (s' u).rows := by
    intro u y hy
    by_cases hu : u = t
    · subst hu
      rw [insert_rows hi]
      exact List.mem_cons_of_mem _ hy
    · rwa [insert_other hi hu]
  exact h.keep (fun o ho => ⟨o, horg ▸ ho, rfl, rfl⟩) (hold .membership) fun v hv => ⟨v, hold .appUser v hv, rfl⟩

/-- An update of orgs that leaves their owners. -/
theorem updateOrg {p : Org → Bool} {f : Org → Org} {hf : ∀ o, key .org (f o) = key .org o} {n : Nat} (h : Owned s)
    (hu : Apifor.update sc .org p f s hf = .ok (s', n)) (hid : ∀ o, (f o).id = o.id)
    (howner : ∀ o, (f o).ownerUserId = o.ownerUserId) : Owned s' := by
  have hmem : s' .membership = s .membership := update_other hu (by decide)
  have huser : s' .appUser = s .appUser := update_other hu (by decide)
  refine h.keep (fun o ho => ?_) (fun m hm => hmem ▸ hm) fun v hv => ⟨v, huser ▸ hv, rfl⟩
  rw [update_rows hu] at ho
  obtain ⟨q, hq, rfl⟩ := List.mem_map.1 ho
  refine ⟨q, hq, ?_⟩
  split
  · exact ⟨(hid q).symm, (howner q).symm⟩
  · exact ⟨rfl, rfl⟩

/-- An update of users. -/
theorem updateUser {p : AppUser → Bool} {f : AppUser → AppUser} {hf : ∀ v, key .appUser (f v) = key .appUser v} {n : Nat}
    (h : Owned s) (hu : Apifor.update sc .appUser p f s hf = .ok (s', n)) : Owned s' := by
  have horg : s' .org = s .org := update_other hu (by decide)
  have hmem : s' .membership = s .membership := update_other hu (by decide)
  refine h.keep (fun o ho => ⟨o, horg ▸ ho, rfl, rfl⟩) (fun m hm => hmem ▸ hm) fun v hv => ?_
  rw [update_rows hu]
  refine ⟨_, List.mem_map_of_mem hv, ?_⟩
  split
  · exact congrArg Prod.fst (hf v)
  · rfl

/-- A new user owns nothing yet. -/
theorem newUser {v : AppUser} (h : Owned s) (hi : Apifor.insert sc .appUser v s = .ok s') {o : Org}
    (ho : o ∈ (s' .org).rows) : v.id ≠ o.ownerUserId := by
  rw [insert_other hi (by decide)] at ho
  obtain ⟨x, hx, -⟩ := insert_eq hi
  obtain ⟨v', hv', hid⟩ := h.exist o ho
  intro heq
  exact Table.key_notMem_of_insert hx v' hv' (Prod.ext (hid.trans heq.symm) rfl)

/-- A new org, whose owner has just become one of its members. -/
theorem insertOrg {s1 s2 : Store} {o : Org} {m : Membership} (h : Owned s) (h1 : Apifor.insert sc .org o s = .ok s1)
    (h2 : Apifor.insert sc .membership m s1 = .ok s2) (ho : m.orgId = o.id) (hu : m.userId = o.ownerUserId)
    (ht : m.permissionTier = .owner) (ha : m.status = .active) (hv : ∃ v ∈ (s .appUser).rows, v.id = o.ownerUserId) :
    Owned s2 := by
  have horg : (s2 .org).rows = o :: (s .org).rows := by rw [insert_other h2 (by decide), insert_rows h1]
  have hmem : (s2 .membership).rows = m :: (s .membership).rows := by
    rw [insert_rows h2, insert_other h1 (by decide)]
  have huser : s2 .appUser = s .appUser := (insert_other h2 (by decide)).trans (insert_other h1 (by decide))
  refine ⟨fun x hx => ?_, fun x hx => ?_⟩
  · rw [horg] at hx
    rw [hmem]
    rcases List.mem_cons.1 hx with rfl | hx
    · exact ⟨m, List.mem_cons_self, ho, hu, ht, ha⟩
    · obtain ⟨n, hn, hrest⟩ := h.stay x hx
      exact ⟨n, List.mem_cons_of_mem _ hn, hrest⟩
  · rw [horg] at hx
    rw [huser]
    rcases List.mem_cons.1 hx with rfl | hx
    · exact hv
    · exact h.exist x hx

/-- An update of memberships that spares those of the owners. -/
theorem update {p : Membership → Bool} {f : Membership → Membership} {hf : ∀ m, key .membership (f m) = key .membership m}
    {n : Nat} (h : Owned s) (hp : ∀ o ∈ (s .org).rows, ∀ m, m.orgId = o.id → m.userId = o.ownerUserId → p m = false)
    (hu : Apifor.update sc .membership p f s hf = .ok (s', n)) : Owned s' := by
  have horg : s' .org = s .org := update_other hu (by decide)
  have huser : s' .appUser = s .appUser := update_other hu (by decide)
  refine ⟨fun o ho => ?_, by rw [OwnersExist, horg, huser]; exact h.exist⟩
  rw [horg] at ho
  obtain ⟨m, hm, hmo, hmu, hrest⟩ := h.stay o ho
  refine ⟨m, ?_, hmo, hmu, hrest⟩
  rw [update_rows hu]
  exact List.mem_map.2 ⟨m, hm, by rw [hp o ho m hmo hmu, Bool.and_false, if_neg (by decide)]⟩

/-- A removal that spares the owners' tier. -/
theorem delete {p : Membership → Bool} (h : Owned s) (hp : ∀ m, m.permissionTier = .owner → p m = false) :
    Owned (Apifor.delete sc .membership p s).1 := by
  refine ⟨fun o ho => ?_, h.exist⟩
  obtain ⟨m, hm, hmo, hmu, htier, hact⟩ := h.stay o ho
  refine ⟨m, ?_, hmo, hmu, htier, hact⟩
  exact List.mem_filter.2 ⟨hm, by simp [hp m htier]⟩

end Owned

/-- A change of the store that keeps every owner. -/
def OwnersKept (s s' : Store) : Prop := Owned s → Owned s'

instance : IsPreorder Store OwnersKept where
  refl _ h := h
  trans _ _ _ h h' hs := h' (h hs)

theorem lets_owned {t : Tbl} (ht : Owned.others t = true) : Lets OwnersKept t where
  insert hi h := h.of_touches (.insert ht hi)
  update hu h := h.of_touches (.update ht hu)
  delete h := h.of_touches (.delete ht fun _ => rfl)

/-- What keeps every owner. -/
def KeepsOwners (w w' : World) : Prop := OwnersKept w.db w'.db

namespace KeepsOwners

variable {α β : Type} {c : Cmd α}

theorem run (h : Prog.Each KeepsOwners c) : Prog.Keeps KeepsOwners c :=
  h.keeps (fun _ h => h) fun _ _ _ h h' hw => h' (h hw)

theorem of_within {T : Tbl → Bool} {K : Id → Envelope → Prop} (hT : ∀ t, T t = true → Owned.others t = true)
    (h : Within T K c) : Prog.Each KeepsOwners c :=
  Prog.Each.mono (fun _ _ hf hw => hw.of_touches (hf.foot.db.mono hT)) h

theorem of_each {T : Tbl → Bool} {B : Id} {x : OrgM T B α} (h : OrgM.Each OwnersKept x) (rls : Bool) :
    Prog.Each KeepsOwners (x.cmd rls) := (h rls).mono fun _ _ hc => hc.db

theorem readOnly (h : DB.ReadOnly c) : Prog.Each KeepsOwners c := h.steps.mono fun _ _ heq hw => heq ▸ hw

theorem newID {pre : String} : Prog.Each KeepsOwners (newID pre) := .lift fun _ h => h

theorem timeNow : Prog.Each KeepsOwners timeNow := .lift fun _ h => h

theorem execUpdate {n : String} {sc : Scope} {t : Tbl} {p : Time → Row t → Bool} {f : Time → Row t → Row t}
    {hf : ∀ now r, key t (f now r) = key t r} (ht : Owned.others t = true) :
    Prog.Each KeepsOwners (exec n fun now s => (update sc t (p now) (f now) s (hf now)).map fun r => (r.1, ())) :=
  each_exec fun _ _ _ h => by
    obtain ⟨q, hu, heq⟩ := map_eq_ok h
    cases heq
    exact (lets_owned ht).update hu

theorem insertRow {n : String} {t : Tbl} {x : Time → Row t} (ht : Owned.others t = true) :
    Prog.Each KeepsOwners (DB.insertRow n t x) :=
  each_exec fun _ _ _ h => by
    obtain ⟨s1, hi, heq⟩ := map_eq_ok h
    cases heq
    exact (lets_owned ht).insert hi

/-- A statement that sets the plan of an org. -/
theorem setOrgPlan {s s' : Store} {org : Id} {p : OrgPlan} (h : DB.setOrgPlan org p s = .ok s') : OwnersKept s s' := by
  obtain ⟨q, hu, heq⟩ := map_eq_ok h
  cases heq
  exact fun hs => hs.updateOrg hu (fun _ => rfl) fun _ => rfl

end KeepsOwners

theorem select_appUser (sc : Scope) (s : Store) : select sc s .appUser = (s .appUser).rows := by
  rw [select, List.filter_eq_self]
  intro v _
  cases sc <;> rfl

/-- The addition of a member with the email leaves the owner of the org alone. -/
def SparesOwner (B : Id) (email : String) (s : Store) : Prop :=
  ∀ v, (s .appUser).rows.find? (fun v => sameEmail v.email email) = some v →
    ∀ o ∈ (s .org).rows, o.id = B → v.id ≠ o.ownerUserId

/-- `AddMember` keeps every owner, if the email is not that of the org's owner. -/
theorem addMember_owned {B : Id} {email name hash : String} {tier : PermissionTier} {rls : Bool} {w : World}
    (hspare : SparesOwner B email w.db) (h : Owned w.db) :
    Owned (((DB.addMember (B := B) email name hash tier).cmd rls).run w).1.db := by
  unfold DB.addMember
  show Owned ((exec "AddMember" _).run _).1.db
  rw [run_exec]
  split
  · next q hq =>
      obtain ⟨⟨s1, users⟩, h1, hx⟩ := Tx.bind_ok hq
      cases h1
      dsimp only at hx
      rw [select_appUser] at hx
      obtain ⟨⟨s2, user⟩, h2, hx⟩ := Tx.bind_ok hx
      obtain ⟨⟨s3, n⟩, h3, hx⟩ := Tx.bind_ok hx
      -- the user that the email names, or a new one, owns no org of the caller
      have hown2 : Owned s2 ∧ ∀ o ∈ (s2 .org).rows, o.id = B → user ≠ o.ownerUserId := by
        split at h2
        · next v hv =>
            cases h2
            exact ⟨h, hspare v hv⟩
        · obtain ⟨⟨s0, now⟩, h0, h2⟩ := Tx.bind_ok h2
          cases h0
          obtain ⟨⟨s0, _⟩, h0, h2⟩ := Tx.bind_ok h2
          cases h2
          exact ⟨h.insert (by decide) (Tx.insert_ok h0), fun o ho _ => h.newUser (Tx.insert_ok h0) ho⟩
      have hown3 : Owned s3 := by
        refine hown2.1.update (fun o ho m hm hu => decide_eq_false ?_) h3
        rintro ⟨hmo, hmu⟩
        exact hown2.2 o ho (hm.symm.trans hmo) (hmu.symm.trans hu)
      split at hx
      · obtain ⟨⟨s4, _⟩, h4, hx⟩ := Tx.bind_ok hx
        cases hx
        exact hown3.insert (by decide) (Tx.insert_ok h4)
      · cases hx
        exact hown3
  · exact h

theorem removeMember_owned {B i : Id} : OrgM.Each OwnersKept (DB.removeMember (B := B) i) :=
  .tx fun sc now s s' _ hs h => by
    have hdel : s' = (delete sc .membership
        (fun m => decide (m.id = i ∧ m.orgId = B ∧ m.permissionTier ≠ .owner)) s).1 := by
      cases hs
      rfl
    rw [hdel]
    exact h.delete fun m htier => by simp [htier]

/-- `RegisterOrg` gives the new org its owner. -/
theorem createOrg_owned {B user wsp mbr pcfg email name hash orgName : String} :
    OrgM.Each OwnersKept (DB.createOrg (B := B) user wsp mbr pcfg email name hash orgName) :=
  .tx fun sc now s s' _ hs h => by
    obtain ⟨p0, h0, hx⟩ := Tx.bind_ok hs
    cases h0
    obtain ⟨⟨s1, _⟩, h1, hx⟩ := Tx.bind_ok hx
    obtain ⟨⟨s2, _⟩, h2, hx⟩ := Tx.bind_ok hx
    obtain ⟨⟨s3, _⟩, h3, hx⟩ := Tx.bind_ok hx
    obtain ⟨⟨s4, _⟩, h4, h5⟩ := Tx.bind_ok hx
    have hown1 : Owned s1 := h.insert (by decide) (Tx.insert_ok h1)
    have huser : ∃ v ∈ (s1 .appUser).rows, v.id = user := by
      rw [insert_rows (Tx.insert_ok h1)]
      exact ⟨_, List.mem_cons_self, rfl⟩
    have hown3 : Owned s3 := hown1.insertOrg (Tx.insert_ok h2) (Tx.insert_ok h3) rfl rfl rfl rfl huser
    exact (hown3.insert (by decide) (Tx.insert_ok h4)).insert (by decide) (Tx.insert_ok h5)

/-! ### Handlers -/

theorem setPlan_owned {B : Id} {plan : String} : OrgM.Each OwnersKept (DB.setPlan (B := B) plan) :=
  (OrgM.Each.newID _).bind fun _ => .tx <| by
    cases (PgEnum.ofText? plan : Option OrgPlan) with
    | none => exact .fail _
    | some p =>
        have hsub : Lets OwnersKept .subscription := lets_owned rfl
        refine Tx.Each.bind ?_ fun _ => (Tx.Each.update hsub).bind fun n => .ite (.insert hsub) (.pure _)
        exact fun sc now s s' n hu h => h.updateOrg hu (fun _ => rfl) fun _ => rfl

theorem downgradeToFree_owned {org : Id} : Prog.Each KeepsOwners (DB.downgradeToFree org) := by
  refine Prog.Each.bind (each_exec fun w s' _ hs => ?_) fun res => ?_
  · obtain ⟨s1, hu, heq⟩ := map_eq_ok hs
    cases heq
    exact KeepsOwners.setOrgPlan hu
  · cases res with
    | error e => exact .done _
    | ok _ =>
        exact KeepsOwners.execUpdate rfl

namespace API

variable {a : API} {u : Caller} {r : Request} {w : World}

theorem permits_owned : Permits OwnersKept u := fun cap _ t ht => by
  unfold writable at ht
  split at ht
  · simp only [List.mem_cons, List.not_mem_nil, or_false] at ht
    rcases ht with rfl | rfl | rfl | rfl <;> exact lets_owned rfl
  · simp only [List.mem_cons, List.not_mem_nil, or_false] at ht
    rcases ht with rfl | rfl | rfl | rfl | rfl | rfl <;> exact lets_owned rfl
  · cases ht

theorem memberRemove_owned : OrgM.Each OwnersKept (memberRemove u r) := by
  unfold memberRemove
  split
  · exact .pure _
  · exact guarded_each fun _ => done_each removeMember_owned

theorem planScreen_owned : OrgM.Each OwnersKept (setPlan u r) := by
  refine guarded_each fun _ => ?_
  dsimp only
  exact .ite (.pure _) <| .ite (.pure _) <| recorded_each setPlan_owned (lets_owned rfl)

theorem register_owned : Prog.Each KeepsOwners (a.register r) := by
  unfold register
  dsimp only
  split
  · exact .done _
  · refine Prog.Each.bind (KeepsOwners.readOnly (.read _ _)) fun res => ?_
    split
    · exact .done _
    · refine Prog.Each.bind ?_ fun res => ?_
      · refine Prog.Each.bind KeepsOwners.newID fun _ => Prog.Each.bind KeepsOwners.newID fun B => ?_
        refine Prog.Each.bind KeepsOwners.newID fun _ => Prog.Each.bind KeepsOwners.newID fun _ => ?_
        refine Prog.Each.bind KeepsOwners.newID fun _ => ?_
        refine Prog.Each.bind (KeepsOwners.of_each createOrg_owned _) fun res => by cases res <;> exact .done _
      · cases res with
        | error e => exact .done _
        | ok v => exact Prog.Each.bind KeepsOwners.timeNow fun _ => .done _

theorem applyEvent_owned {org : Id} {ev : StripeEvent} : Prog.Each KeepsOwners (a.applyEvent org ev) := by
  unfold applyEvent
  dsimp only
  split
  · refine Prog.Each.bind (Prog.Each.bind (each_exec fun w s' _ hs => ?_) fun res => ?_) fun _ => .done _
    · split at hs
      · cases hs
      · obtain ⟨s1, hu, heq⟩ := map_eq_ok hs
        cases heq
        exact KeepsOwners.setOrgPlan hu
    · cases res with
      | error e => exact .done _
      | ok p =>
          refine Prog.Each.bind (each_exec fun _ _ _ h => (lets_owned rfl).update h) fun res => ?_
          rcases res with e | n
          · exact .done _
          · cases n with
            | zero => exact KeepsOwners.newID.bind fun _ => KeepsOwners.insertRow rfl
            | succ n => exact .done _
  split
  · exact KeepsOwners.timeNow.bind fun _ => Prog.Each.bind (KeepsOwners.execUpdate rfl) fun _ => .done _
  split
  · refine Prog.Each.bind (KeepsOwners.execUpdate rfl) fun _ => ?_
    exact Prog.Each.bind (KeepsOwners.newID.bind fun _ => KeepsOwners.insertRow rfl) fun _ => .done _
  split
  · exact downgradeToFree_owned.bind fun _ => .done _
  · exact .done _

theorem webhook_owned : Prog.Each KeepsOwners (a.webhook r) := by
  refine KeepsOwners.timeNow.bind fun now => ?_
  split
  · exact .done _
  · dsimp only
    split
    · exact .done _
    · refine (KeepsOwners.readOnly (eventOrg_readOnly _)).bind fun org => ?_
      split
      · exact .done _
      · exact applyEvent_owned.bind fun _ => .done _

theorem adminAnswer_owned {res : Except DbErr Unit} {audit : Cmd Unit} {v : Val} (h : Prog.Each KeepsOwners audit) :
    Prog.Each KeepsOwners (adminAnswer res audit v) := by
  cases res with
  | error e => exact .done _
  | ok _ => exact h.bind fun _ => .done _

theorem adminRecord_owned {org : Id} {x y z : String} : Prog.Each KeepsOwners (a.adminRecord u org x y z) :=
  KeepsOwners.of_each (DB.writeAudit_each (lets_owned rfl)) _

theorem adminPlan_owned {org : Id} : Prog.Each KeepsOwners (a.adminPlan u r org) := by
  unfold adminPlan
  dsimp only
  split
  · exact .done _
  split
  · exact .done _
  refine Prog.Each.bind (each_exec fun w s' _ hs => ?_) fun res => adminAnswer_owned adminRecord_owned
  split at hs
  · cases hs
  · obtain ⟨s1, hu, heq⟩ := map_eq_ok hs
    cases heq
    exact KeepsOwners.setOrgPlan hu

theorem adminSuspend_owned {org : Id} {b : Bool} : Prog.Each KeepsOwners (a.adminSuspend u org b) := by
  refine Prog.Each.bind (each_exec fun w s' _ hs h => ?_) fun res => adminAnswer_owned adminRecord_owned
  obtain ⟨q, hu, heq⟩ := map_eq_ok hs
  cases heq
  exact h.updateOrg hu (fun _ => rfl) fun _ => rfl

theorem adminScreen_owned {n : String} {f : Store → Response} : Prog.Each KeepsOwners (adminScreen u n f) :=
  KeepsOwners.of_within (T := fun _ => false) (K := fun _ _ => True) (fun _ ht => by cases ht) adminScreen_within

theorem adminOrgAction_owned : Prog.Each KeepsOwners (a.adminOrgAction u r) := by
  unfold adminOrgAction superadmin
  split
  · dsimp only
    split_ifs
    · exact .done _
    · exact adminScreen_owned
    · exact .done _
    · exact .done _
    · exact adminPlan_owned
    · exact adminSuspend_owned
    · exact adminSuspend_owned
    · exact .done _
  · exact .done _

theorem adminUserStatus_owned {id : Id} {action : String} {st : UserStatus} :
    Prog.Each KeepsOwners (a.adminUserStatus u id action st) := by
  unfold adminUserStatus
  split
  · exact .done _
  · refine Prog.Each.bind (each_exec fun w s' _ hs h => ?_) fun res => adminAnswer_owned ?_
    · obtain ⟨q, hu, heq⟩ := map_eq_ok hs
      cases heq
      exact h.updateUser hu
    · refine (KeepsOwners.readOnly (.read _ _)).bind fun org => ?_
      cases org with
      | error e => exact .done _
      | ok org =>
          dsimp only
          split
          · exact adminRecord_owned
          · exact .done _

theorem adminUserAction_owned : Prog.Each KeepsOwners (a.adminUserAction u r) := by
  unfold adminUserAction superadmin
  split
  · split
    · exact .done _
    · dsimp only
      split_ifs
      · exact .done _
      · exact adminUserStatus_owned
      · exact adminUserStatus_owned
      · exact .done _
  · exact .done _

/-- The e-mail of the member that a request adds. -/
def adds (a : API) (r : Request) : Option String :=
  let (b, ok) := Json.decodeFirst memberFields r.body {}
  if r.path = "/v1/members" ∧ r.method = "POST" ∧ can (a.authz r).role "manage" = true ∧ ok = true ∧ b.email ≠ "" ∧
      b.password ≠ "" ∧ (memberRole b.role).isSome = true then
    some b.email
  else none

theorem members_owned (hp : r.path = "/v1/members")
    (hspare : ∀ email, a.adds r = some email → SparesOwner (a.authz r).orgID email w.db) (h : Owned w.db) :
    Owned (((a.members (a.authz r) r).cmd a.server.rls).run w).1.db := by
  unfold members guarded
  split
  · next hm =>
      split
      · next hc =>
          dsimp only
          split
          · exact h
          · next hbody =>
              split
              · exact h
              · next role hrole =>
                  have hadds : a.adds r = some (Json.decodeFirst memberFields r.body {}).1.email := by
                    simp only [not_or, Bool.not_eq_true', Bool.not_eq_false] at hbody
                    simp [adds, hp, hm, hc, hbody.1, hbody.2.1, hbody.2.2, hrole]
                  refine Prog.Keeps.tail (R := KeepsOwners) (fun _ h => h) (fun res => ?_) _ w
                    (addMember_owned (hspare _ hadds) h)
                  exact KeepsOwners.run (KeepsOwners.of_each (answer_each fun v =>
                    (DB.writeAudit_each (lets_owned rfl)).bind fun _ => .pure _) _)
      · exact h
  · exact (KeepsOwners.run (KeepsOwners.of_each listing_each _)) w h

/-- A request keeps every owner, if the member that it adds is not one. -/
theorem route_owned {e : String × Handler} (he : e ∈ a.routes) (hp : matchesPath r.path e.1 = true)
    (hspare : ∀ email, a.adds r = some email → SparesOwner (a.authz r).orgID email w.db) :
    KeepsOwners w ((e.2.run a (a.authz r) r).run w).1 := by
  have heach : ∀ {c : Cmd Response}, Prog.Each KeepsOwners c → KeepsOwners w (c.run w).1 := fun h => KeepsOwners.run h w
  have hnone : ∀ {c : Cmd Response}, Within (fun _ => false) (fun _ _ => True) c → KeepsOwners w (c.run w).1 :=
    fun h => heach (KeepsOwners.of_within (fun _ ht => by cases ht) h)
  rcases List.mem_append.1 he with he | he
  · obtain ⟨sc, hsc, rfl⟩ := List.mem_map.1 he
    rcases screens_each (u := a.authz r) (r := r) permits_owned hsc with hq | hm
    · exact heach (KeepsOwners.of_each hq _)
    · simp only [List.mem_cons, List.not_mem_nil, or_false] at hm
      rcases hm with rfl | rfl | rfl
      · exact members_owned (eq_of_matchesPath (by decide) hp) hspare
      · exact heach (KeepsOwners.of_each memberRemove_owned _)
      · exact heach (KeepsOwners.of_each (notifications_each fun _ => lets_owned rfl) _)
  · simp only [List.mem_cons, List.not_mem_nil, or_false] at he
    rcases he with rfl | rfl | rfl | rfl | rfl | rfl | rfl | rfl | rfl | rfl | rfl | rfl | rfl | rfl | rfl | rfl |
      rfl | rfl | rfl
    · exact id
    · exact hnone metricsHandler_within
    · exact id
    · exact hnone login_within
    · exact heach register_owned
    · dsimp only [Handler.run]
      exact heach (KeepsOwners.of_within (fun t ht => by cases t <;> first | rfl | cases ht)
        (tasks_within (K := fun _ _ => True) hp fun _ _ _ _ => trivial))
    · dsimp only [Handler.run]
      exact heach (KeepsOwners.of_within (fun t ht => by cases t <;> first | rfl | cases ht)
        (interventionAnswer_within (K := fun _ _ => True) hp fun _ _ _ _ _ => trivial))
    · have hpace := routineAction_pace (a := a) (K := fun _ _ => True) (w := w) hp fun _ _ _ _ _ _ _ => trivial
      dsimp only [Handler.run]
      exact fun h => h.of_touches (hpace.foot.db.mono fun t ht => by cases t <;> first | rfl | cases ht)
    · exact heach (KeepsOwners.of_within (T := fun t => t == .connection) (K := fun _ _ => True)
        (fun t ht => by cases t <;> first | rfl | cases ht) (githubOAuthCallback_within rfl))
    · exact heach (KeepsOwners.of_within (K := fun _ _ => True) (fun t ht => by cases t <;> first | rfl | cases ht)
        (OrgM.within _ _))
    · exact heach (KeepsOwners.of_each planScreen_owned _)
    · exact heach webhook_owned
    · exact heach adminScreen_owned
    · exact heach adminScreen_owned
    · exact heach adminOrgAction_owned
    · exact heach adminScreen_owned
    · exact heach adminUserAction_owned
    · exact heach adminScreen_owned
    · exact heach adminScreen_owned

end API

/-! ### Steps -/

variable {a : API} {w : World} {e : Event}

theorem reapOnce_owned (sv : Server) : Prog.Each KeepsOwners sv.reapOnce := by
  have hall : ∀ orgs, Prog.Each KeepsOwners (Server.downgradeAll orgs) := fun orgs => by
    induction orgs with
    | nil => exact .done _
    | cons org orgs ih => exact downgradeToFree_owned.bind fun _ => ih
  have hdunning : Prog.Each KeepsOwners Server.dunning := by
    unfold Server.dunning DB.pastDueExpired
    refine Prog.Each.bind (KeepsOwners.readOnly (.query _ _)) fun res => ?_
    cases res with
    | ok orgs => exact hall orgs
    | error e => exact .done _
  refine hdunning.bind fun _ => (KeepsOwners.readOnly Server.readOnly_allActiveLeases).bind fun res => ?_
  cases res with
  | ok ls =>
      exact KeepsOwners.of_within (fun t ht => by cases t <;> first | rfl | cases ht)
        (Server.reapLeases_within (K := fun _ _ => True) (fun _ _ _ => trivial) sv ls)
  | error e => exact .done _

/-- No addition of a member names the owner of the caller's org. -/
def SparesOwners (a : API) (w : World) (e : Event) : Prop :=
  ∀ r, w.serves e = some r → API.Admits a r w → ∀ email, a.adds r = some email →
    SparesOwner (a.authz r).orgID email w.db

theorem step_owned (h : Owned w.db) (hs : SparesOwners a w e) : Owned (step a w e).db := by
  have htouch : ∀ {w' : World} {T : Tbl → Bool}, Touches T w.db w'.db → (∀ t, T t = true → Owned.others t = true) →
      KeepsOwners w w' := fun ht hT h => h.of_touches (ht.mono hT)
  refine step_rel (R := KeepsOwners) (fun w' ht _ => ?_) (fun w' w'' hk hdb _ => ?_) (fun st env _ => ?_) (fun r hr => ?_)
    (fun _ _ => ?_) (fun _ _ => ?_) h
  · exact htouch ht fun t ht => by cases t <;> first | rfl | cases ht
  · rw [KeepsOwners, hdb]
    exact hk
  · exact htouch (onMessage_foot a.server st env w).db fun t ht => by cases t <;> first | rfl | cases ht
  · refine API.serve_rel ⟨fun _ h => h, fun _ _ _ h h' hw => h' (h hw), fun _ _ h => h⟩ fun ha route he hp m _ => ?_
    exact API.route_owned he hp (w := { w with http := m }) fun email hadd => hs r hr ha email hadd
  · exact KeepsOwners.run (reapOnce_owned a.server) w
  · refine htouch (Server.schedule_within (K := fun _ _ => True) a.server (fun _ _ _ _ => trivial) w).db fun t ht => ?_
    cases t <;> first | rfl | cases ht

/-- In every run whose additions of members name no owner, every org keeps its owner. -/
theorem run_ownersStay (a : API) {w : World} {es : List Event} (h : Owned w.db)
    (hm : Runs.Meets (step a) (SparesOwners a) w es) : Runs.Always (step a) (fun w => OwnersStay w.db) w es :=
  (Runs.always_of_meets (P := fun w => Owned w.db) (fun _ _ => step_owned) h hm).mono fun _ h => h.stay

namespace Sample

/-- An org with its owner and an admin. -/
def staffed : World :=
  { db := Store.ofRows
      [⟨.appUser, { id := "usr_a", email := "ana@a.dev", createdAt := 0 }⟩,
        ⟨.appUser, { id := "usr_b", email := "bea@a.dev", createdAt := 0 }⟩,
        ⟨.org, { id := "org_a", name := "A", ownerUserId := "usr_a", createdAt := 0 }⟩,
        ⟨.membership, { id := "mbr_a", orgId := "org_a", userId := "usr_a", permissionTier := .owner }⟩,
        ⟨.membership, { id := "mbr_b", orgId := "org_a", userId := "usr_b", permissionTier := .admin }⟩] }

/-- The admin adds somebody as a member. -/
def addMember (email : String) : Request :=
  { method := "POST", path := "/v1/members", claims := some ⟨"usr_b", "org_a", "admin"⟩,
    body := "\x7b\"email\":\"" ++ email ++ "\",\"password\":\"x\",\"role\":\"member\"\x7d" }

end Sample

/-- An admin who adds the owner's e-mail as a member takes the org's owner away. -/
theorem addMember_demotes :
    Owned Sample.staffed.db ∧
      ¬ Runs.Always (step {}) (fun w => OwnersStay w.db) Sample.staffed [.rest (Sample.addMember "ana@a.dev")] := by
  refine ⟨⟨by decide +kernel, by decide +kernel⟩, fun h => ?_⟩
  have hlost : ¬ OwnersStay (step {} Sample.staffed (.rest (Sample.addMember "ana@a.dev"))).db := by decide +kernel
  have hlast := h.last
  rw [Runs.exec_cons, Runs.exec_nil] at hlast
  exact hlost hlast

/-- A run in which the admin adds somebody else. -/
theorem run_ownersStay_sample :
    Runs.Always (step {}) (fun w => OwnersStay w.db) Sample.staffed [.rest (Sample.addMember "cris@a.dev")] := by
  refine run_ownersStay {} ⟨by decide +kernel, by decide +kernel⟩ ⟨fun r hr _ email hadd => ?_, trivial⟩
  have hreq : Sample.addMember "cris@a.dev" = r := Option.some.inj hr
  have hemail : API.adds {} (Sample.addMember "cris@a.dev") = some "cris@a.dev" := by decide +kernel
  rw [← hreq, hemail] at hadd
  cases hadd
  intro v hv
  have hnew : (Sample.staffed.db .appUser).rows.find? (fun v => sameEmail v.email "cris@a.dev") = none := by
    decide +kernel
  rw [hnew] at hv
  cases hv

end Apifor
