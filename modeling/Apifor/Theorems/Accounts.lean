import Apifor.Lemmas.Outcomes

/-!
# Login

The token that login issues. Login takes the org and the role from the oldest membership of the user,
whatever its status, and defaults to an owner's role.
-/

namespace Apifor

namespace API

variable {a : API} {r : Request} {w : World} {s : Store}

/-! ## Login -/

/-- The user that a login names. -/
def userOf (s : Store) (r : Request) : Option AppUser :=
  (s .appUser).rows.find? fun v => sameEmail v.email (Json.decodeFirst loginFields r.body {}).1.email

/-- Login answers the user with a token for the org and the role. -/
def Issues (a : API) (r : Request) (w : World) (v : AppUser) (org role : String) : Prop :=
  userOf w.db r = some v ∧ ((a.login r).run w).2 = some (writeJSON 200 (a.session v.id org role w.now))

/-- The user is an active member of the org with the role. -/
def Holds (s : Store) (user org : Id) (role : String) : Prop :=
  ∃ m ∈ (s .membership).rows, m.userId = user ∧ m.orgId = org ∧ PgEnum.text m.permissionTier = role ∧ m.status = .active

/-- A token that login issues carries a role that its user holds; a user who is no active member of any
org gets no token that can write, manage or pay. -/
def GrantsHeld (a : API) (r : Request) (w : World) : Prop :=
  (∀ v org role, Issues a r w v org role → a.isSuperAdmin v.email = true ∨ Holds w.db v.id org role) ∧
    ∀ v org role cap, Issues a r w v org role → a.isSuperAdmin v.email = false →
      (∀ m ∈ (w.db .membership).rows, m.userId = v.id → m.status ≠ .active) → cap ∈ ["write", "manage", "billing"] →
      can role cap = false

/-- The membership that `FindUserByEmail` joins. -/
def joined (s : Store) (v : AppUser) : Option Membership :=
  oldest (fun m => decide (m.userId = v.id)) (s .membership).rows

/-- The login names a user who is let in by a password. -/
def LetsIn (a : API) (r : Request) (s : Store) (v : AppUser) : Prop :=
  (Json.decodeFirst loginFields r.body {}).2 = true ∧ userOf s r = some v ∧
    a.checkPassword (v.passwordHash.getD "") (Json.decodeFirst loginFields r.body {}).1.password = true ∧
    v.status ≠ .suspended

instance (a : API) (r : Request) (s : Store) (v : AppUser) : Decidable (LetsIn a r s v) :=
  inferInstanceAs (Decidable (_ ∧ _))

/-- A user who is let in, and is no superadmin, has a membership, and the oldest of its memberships is
that of an active member. -/
def MemberLogin (a : API) (r : Request) (s : Store) : Prop :=
  ∀ v, LetsIn a r s v → a.isSuperAdmin v.email = false →
    ∃ m, joined s v = some m ∧ Holds s v.id m.orgId (PgEnum.text m.permissionTier)

/-- The org and the role of the token that a user who is let in gets. -/
def claimsFor (a : API) (s : Store) (v : AppUser) : Id × String :=
  if a.isSuperAdmin v.email = true then ("", "superadmin")
  else match joined s v with
    | some m => (m.orgId, PgEnum.text m.permissionTier)
    | none => ("", "owner")

theorem text_tier_ne (t : PermissionTier) : PgEnum.text t ≠ "" := by cases t <;> decide

theorem session_injective {user user' org org' role role' : String} {now : Time}
    (h : a.session user org role now = a.session user' org' role' now) : org = org' ∧ role = role' := by
  simp only [session, Val.obj.injEq, List.cons.injEq, Prod.mk.injEq, Val.str.injEq, true_and, and_true] at h
  exact ⟨h.2.1, h.2.2⟩

theorem findUser_eq (s : Store) (r : Request) :
    findUser s (Json.decodeFirst loginFields r.body {}).1.email = (userOf s r).map fun v =>
      { id := v.id, email := v.email, hash := v.passwordHash.getD "", orgID := ((joined s v).map (·.orgId)).getD "",
        role := ((joined s v).map fun m => PgEnum.text m.permissionTier).getD "", status := v.status } := rfl

/-- The session that a user who is let in gets. -/
theorem login_letsIn {v : AppUser} (h : LetsIn a r w.db v) :
    ((a.login r).run w).2 = some (writeJSON 200 (a.session v.id (claimsFor a w.db v).1 (claimsFor a w.db v).2 w.now)) := by
  obtain ⟨hok, huser, hpass, hlive⟩ := h
  simp only [login, hok, Bool.not_true, Bool.false_eq_true, if_false, Prog.bind_def,
    Prog.run_bind_of_eq (DB.run_read _ _), findUser_eq, huser, Option.map_some, Except.toOption, Option.join_some, hpass,
    hlive, timeNow, claimsFor]
  cases a.isSuperAdmin v.email with
  | true => rfl
  | false =>
      cases joined w.db v with
      | none => rfl
      | some m =>
          simp only [Option.map_some, Option.getD_some, text_tier_ne, if_false, Bool.false_eq_true]
          rfl

theorem letsIn_of_ok {v : AppUser} {x : Val} (huser : userOf w.db r = some v)
    (h : ((a.login r).run w).2 = some (writeJSON 200 x)) : LetsIn a r w.db v := by
  have hcode : ∀ {n : Nat} {c m : String}, n ≠ 200 → some (fail n c m) ≠ some (writeJSON 200 x) := fun hn heq =>
    hn (congrArg Response.code (Option.some.inj heq))
  simp only [login, Prog.bind_def] at h
  cases hok : (Json.decodeFirst loginFields r.body {}).2 with
  | false =>
      simp only [hok, Bool.not_false, if_true] at h
      exact absurd h (hcode (by decide))
  | true =>
      simp only [hok, Bool.not_true, Bool.false_eq_true, if_false, Prog.run_bind_of_eq (DB.run_read _ _), findUser_eq,
        huser, Option.map_some, Except.toOption, Option.join_some] at h
      split at h
      · exact absurd h (hcode (by decide))
      · next hpass =>
          split at h
          · exact absurd h (hcode (by decide))
          · next hlive => exact ⟨hok, huser, by simpa using hpass, hlive⟩

/-- Login answers a user who is let in with a token, and nobody else. -/
theorem issues_iff {v : AppUser} {org role : String} :
    Issues a r w v org role ↔ LetsIn a r w.db v ∧ claimsFor a w.db v = (org, role) := by
  constructor
  · rintro ⟨huser, hrun⟩
    have hin : LetsIn a r w.db v := letsIn_of_ok huser hrun
    rw [login_letsIn hin, Option.some.injEq] at hrun
    obtain ⟨horg, hrole⟩ := session_injective (Body.json.inj (congrArg Response.body hrun))
    exact ⟨hin, Prod.ext horg hrole⟩
  · rintro ⟨hin, hclaims⟩
    have hrun := login_letsIn hin
    rw [hclaims] at hrun
    exact ⟨hin.2.1, hrun⟩

/-- Login grants held roles only, if and only if the user it lets in logs in as an active member. -/
theorem login_grantsHeld (a : API) (r : Request) (w : World) : GrantsHeld a r w ↔ MemberLogin a r w.db := by
  constructor
  · intro h v hin hsuper
    have hclaims : claimsFor a w.db v = ((claimsFor a w.db v).1, (claimsFor a w.db v).2) := rfl
    rcases h.1 v _ _ (issues_iff.2 ⟨hin, hclaims⟩) with hs | hheld
    · rw [hsuper] at hs
      cases hs
    · rw [claimsFor, if_neg (by rw [hsuper]; decide)] at hheld
      cases hj : joined w.db v with
      | some m =>
          rw [hj] at hheld
          exact ⟨m, rfl, hheld⟩
      | none =>
          rw [hj] at hheld
          obtain ⟨m, hm, huser, -⟩ := hheld
          have hno := List.find?_eq_none.1 hj m (List.mem_reverse.2 hm)
          exact absurd (decide_eq_true huser) hno
  · intro h
    have hheld : ∀ v org role, Issues a r w v org role → a.isSuperAdmin v.email = true ∨ Holds w.db v.id org role := by
      intro v org role hiss
      obtain ⟨hin, hclaims⟩ := issues_iff.1 hiss
      cases hs : a.isSuperAdmin v.email with
      | true => exact .inl rfl
      | false =>
          obtain ⟨m, hm, hheld⟩ := h v hin hs
          rw [claimsFor, if_neg (by rw [hs]; decide), hm] at hclaims
          cases hclaims
          exact .inr hheld
    refine ⟨hheld, fun v org role cap hiss hs hno _ => ?_⟩
    rcases hheld v org role hiss with hs' | ⟨m, hm, huser, -, -, hact⟩
    · rw [hs] at hs'
      cases hs'
    · exact absurd hact (hno m hm huser)

end API

namespace Sample

/-- A cérebro that takes every password. -/
def gate : API := { checkPassword := fun _ _ => true }

def ana : AppUser := { id := "usr_a", email := "ana@a.dev", createdAt := 0 }

/-- A user who was removed from every org. -/
def leaver : World := { db := Store.ofRows [⟨.appUser, ana⟩] }

def signIn : Request :=
  { method := "POST", path := "/v1/auth/login", body := "\x7b\"email\":\"ana@a.dev\",\"password\":\"x\"\x7d" }

end Sample

/-- Login makes an owner of a user who belongs to no org. -/
theorem leaver_owns : ¬ API.GrantsHeld Sample.gate Sample.signIn Sample.leaver := by
  rintro ⟨h, -⟩
  have hin : API.LetsIn Sample.gate Sample.signIn Sample.leaver.db Sample.ana := by decide +kernel
  have hclaims : API.claimsFor Sample.gate Sample.leaver.db Sample.ana = ("", "owner") := by decide +kernel
  have hnone : (Sample.leaver.db .membership).rows = [] := by decide +kernel
  rcases h _ _ _ (API.issues_iff.2 ⟨hin, hclaims⟩) with hs | ⟨m, hm, -⟩
  · cases hs
  · rw [hnone] at hm
    cases hm

end Apifor
