import Apifor.Theorems.Limiter
import Apifor.Lemmas.Requests

/-!
# Whose requests the rate limit counts

Two servers receive the same requests of a caller at the same times, and different requests of others. The
limiter says the same to the caller on both, as long as no request of another is counted under the caller's
org and the org has the same plan on both.
-/

namespace Apifor

namespace Quota

open API Limiter

variable {a : API} {P : Caller} {r : Request} {w w' : World} {o o' : Id}

/-! ## The middleware -/

/-- What the limiter keeps of an org, and the clock. -/
structure Level (o : Id) (w w' : World) : Prop where
  now : w'.now = w.now
  win : w'.http.win o = w.http.win o
  plan : w'.http.plan o = w.http.plan o

theorem Level.refl (o : Id) (w : World) : Level o w w := ⟨rfl, rfl, rfl⟩

theorem Level.symm (h : Level o w w') : Level o w' w := ⟨h.now.symm, h.win.symm, h.plan.symm⟩

theorem Level.trans {w'' : World} (h : Level o w w') (h' : Level o w' w'') : Level o w w'' :=
  ⟨h'.now.trans h.now, h'.win.trans h.win, h'.plan.trans h.plan⟩

theorem Level.sameFor (h : Level o w w') (hp : DB.planOf w'.db o = DB.planOf w.db o) : SameFor o w w' :=
  ⟨h.now, hp, h.win, h.plan⟩

theorem Level.of_same (h : SameFor o w w') : Level o w w' := ⟨h.now, h.win, h.plan⟩

/-- The steps of `instrument` before the handler. -/
def screened (a : API) (r : Request) : Cmd (Option Response) :=
  (countMetric fun k => { k with requests := k.requests + 1 }).bind fun _ => a.refuse (a.authz r) r

/-- The limiter counts the request. -/
def counted (a : API) (r : Request) : Bool :=
  decide (r.method ≠ "OPTIONS") && rateLimitable r.path &&
    !(a.requireAuth && !publicPath r.path && decide ((a.authz r).userID = ""))

theorem sees_allow (o : Id) : Prog.Sees (SameFor o) (allow o) := by
  rw [allow_eq]
  exact (sees_noted o).bind fun x => .done _

theorem sees_countMetric (o : Id) (f : Metrics → Metrics) : Prog.Sees (SameFor o) (countMetric f) :=
  .lift fun _ _ h => ⟨rfl, ⟨h.now, h.org, h.win, h.plan⟩⟩

/-- What the middleware says depends on the limiter's memory of the caller's org and on its plan. -/
theorem sees_screened (a : API) (r : Request) : Prog.Sees (SameFor (a.authz r).orgID) (screened a r) := by
  refine (sees_countMetric _ _).bind fun _ => ?_
  unfold refuse
  split
  · exact .done _
  · split
    · refine (sees_allow _).bind fun ok => ?_
      cases ok with
      | true => exact .done _
      | false => exact Prog.Sees.bind (sees_countMetric _ _) fun _ => .done _
    · exact .done _

theorem level_memory (o : Id) {α : Type} {f : Time → HttpMemory → HttpMemory × α}
    (h : ∀ now m, (f now m).1.win o = m.win o ∧ (f now m).1.plan o = m.plan o) : Prog.Each (Level o) (httpStep f) :=
  .lift fun w => ⟨rfl, (h w.now w.http).1, (h w.now w.http).2⟩

/-- Calls for another org leave what the limiter keeps of the org. -/
theorem level_allow (hne : o ≠ o') : Prog.Each (Level o) (allow o') := by
  refine Prog.Each.bind ?_ fun limit => ?_
  · refine Prog.Each.bind (.lift fun w => Level.refl o w) fun unix => ?_
    refine Prog.Each.bind (level_memory o fun _ _ => ⟨rfl, rfl⟩) fun c => ?_
    cases c with
    | some n => exact .done n
    | none =>
        refine Prog.Each.bind ?_ fun p => level_memory o fun _ m => ⟨rfl, Function.update_of_ne hne _ _⟩
        have hquery : Prog.Each (Level o) (query "GetOrgPlan" fun _ s => row (DB.planOf s o')) :=
          (DB.ReadOnly.query _ _).steps.mono fun w _ heq => heq ▸ Level.refl o w
        exact hquery.bind fun res => by cases res <;> exact .done _
  · split
    · exact .done _
    · refine Prog.Each.bind (.lift fun w => Level.refl o w) fun unix => ?_
      exact level_memory o fun _ m => ⟨Function.update_of_ne hne _ _, rfl⟩

/-- A request that is not counted under the org leaves what the limiter keeps of it. -/
theorem level_screened (h : (a.authz r).orgID ≠ o ∨ counted a r = false) : Prog.Each (Level o) (screened a r) := by
  refine Prog.Each.bind (level_memory o fun _ _ => ⟨rfl, rfl⟩) fun _ => ?_
  unfold refuse
  split
  · exact .done _
  · next hlet =>
      split
      · next hlimit =>
          have hne : o ≠ (a.authz r).orgID := by
            refine (h.resolve_right fun hc => ?_).symm
            simp only [counted, Bool.and_eq_false_iff, Bool.not_eq_false', decide_eq_false_iff_not, Bool.and_eq_true] at hc
            obtain (hc | hc) | hc := hc
            · exact hc hlimit.1
            · rw [hlimit.2] at hc
              cases hc
            · refine hlet ⟨hc.1.1, hlimit.1, ?_, of_decide_eq_true hc.2⟩
              simpa using hc.1.2
          refine (level_allow hne).bind fun ok => ?_
          cases ok with
          | true => exact .done _
          | false => exact Prog.Each.bind (level_memory o fun _ _ => ⟨rfl, rfl⟩) fun _ => .done _
      · exact .done _

/-! ## The handlers -/

theorem route_pace {e : String × Handler} (he : e ∈ a.routes) (hp : matchesPath r.path e.1 = true) (w : World) :
    ∃ T, Pace T (fun _ _ => True) w ((e.2.run a (a.authz r) r).run w).1 := by
  cases route_kind he with
  | plain h => exact ⟨_, (h _ _ _).run w⟩
  | devices => exact ⟨_, (OrgM.within _ _).run w⟩
  | tasks =>
      dsimp only [Handler.run]
      exact ⟨_, (tasks_within hp fun _ _ _ _ => trivial).run w⟩
  | answer =>
      dsimp only [Handler.run]
      exact ⟨_, (interventionAnswer_within hp fun _ _ _ _ _ => trivial).run w⟩
  | routine =>
      dsimp only [Handler.run]
      exact ⟨_, routineAction_pace hp fun _ _ _ _ _ _ _ => trivial⟩

/-- What comes after the middleware leaves the limiter's memory. -/
theorem level_serve (a : API) (r : Request) (w : World) :
    Level o ((screened a r).run w).1 ((a.serve r).run w).1 := by
  have hstatus : ∀ (v : World) (resp : Response),
      Level o v (((recordStatus resp.code).bind fun _ => (.done resp : Cmd Response)).run v).1 :=
    fun v resp => ⟨rfl, rfl, rfl⟩
  have honly : OnlyMemory (screened a r) := .bind (.httpStep fun _ _ => rfl) fun _ => onlyMemory_refuse _ _
  obtain ⟨m, x, -, hx⟩ := honly w
  have hserve : (a.serve r).run w = (API.pass a r x).run { w with http := m } := by
    rw [serve_eq, ← Prog.bind_assoc]
    exact Prog.run_bind_of_eq hx
  rw [hx, hserve]
  cases x with
  | some resp => exact hstatus _ _
  | none =>
      have hcors : Level o { w with http := m } ((a.cors (a.authz r) r).run { w with http := m }).1 := by
        unfold cors
        split
        · exact Level.refl o _
        · refine mux_rel (Level.refl o) fun e he hp => ?_
          obtain ⟨T, hpace⟩ := route_pace he hp { w with http := m }
          exact ⟨hpace.foot.now, congrFun hpace.limits.win o, congrFun hpace.limits.plan o⟩
      simp only [API.pass, Prog.run_bind]
      cases (Prog.run (a.cors (a.authz r) r) { w with http := m }).2 with
      | none => exact hcors
      | some resp => exact hcors.trans (hstatus _ _)

/-! ## Two servers -/

/-- Two servers, and what the middleware of each has said to the caller. -/
structure Twin where
  left : World
  right : World
  said : List (Option (Option Response)) := []
  said' : List (Option (Option Response)) := []

def Twin.start (w : World) : Twin := { left := w, right := w }

/-- Both servers see the time go by and the caller's requests; each has the requests of others to itself. -/
inductive Event
  | tick (d : Nat)
  | ours (r : Request)
  | left (r : Request)
  | right (r : Request)

def step (a : API) (t : Twin) : Event → Twin
  | .tick d =>
      { t with left := { t.left with now := t.left.now + d }, right := { t.right with now := t.right.now + d } }
  | .ours r =>
      { left := ((a.serve r).run t.left).1
        right := ((a.serve r).run t.right).1
        said := t.said ++ [((screened a r).run t.left).2]
        said' := t.said' ++ [((screened a r).run t.right).2] }
  | .left r => { t with left := ((a.serve r).run t.left).1 }
  | .right r => { t with right := ((a.serve r).run t.right).1 }

/-- The client is neither the caller nor of the caller's org. -/
def Foreign (a : API) (P : Caller) (r : Request) : Prop :=
  (a.authz r).userID ≠ P.userID ∧ (P.orgID ≠ "" → (a.authz r).orgID ≠ P.orgID)

/-- What is sent to both servers is the caller's, the rest is not. -/
def Event.Proper (a : API) (P : Caller) : Event → Prop
  | .tick _ => True
  | .ours r => a.authz r = P
  | .left r => Foreign a P r
  | .right r => Foreign a P r

/-- The caller's org has the same plan on both servers; and where the caller has no org, no request of others
without one is counted. -/
def Apart (a : API) (P : Caller) (t : Twin) : Event → Prop
  | .tick _ => True
  | .ours _ => DB.planOf t.right.db P.orgID = DB.planOf t.left.db P.orgID
  | .left r => P.orgID = "" → (a.authz r).orgID = "" → counted a r = false
  | .right r => P.orgID = "" → (a.authz r).orgID = "" → counted a r = false

instance (a : API) (P : Caller) (r : Request) : Decidable (Foreign a P r) := inferInstanceAs (Decidable (_ ∧ (_ → _)))

instance (a : API) (P : Caller) : ∀ e, Decidable (Event.Proper a P e)
  | .tick _ => .isTrue trivial
  | .ours r => inferInstanceAs (Decidable (a.authz r = P))
  | .left r => inferInstanceAs (Decidable (Foreign a P r))
  | .right r => inferInstanceAs (Decidable (Foreign a P r))

instance (a : API) (P : Caller) (t : Twin) : ∀ e, Decidable (Apart a P t e)
  | .tick _ => .isTrue trivial
  | .ours _ => inferInstanceAs (Decidable (DB.planOf t.right.db P.orgID = DB.planOf t.left.db P.orgID))
  | .left r => inferInstanceAs (Decidable (P.orgID = "" → (a.authz r).orgID = "" → counted a r = false))
  | .right r => inferInstanceAs (Decidable (P.orgID = "" → (a.authz r).orgID = "" → counted a r = false))

/-- The caller has been told the same. -/
structure Same (P : Caller) (t : Twin) : Prop where
  level : Level P.orgID t.left t.right
  said : t.said = t.said'

theorem level_foreign (hr : Foreign a P r) (h : P.orgID = "" → (a.authz r).orgID = "" → counted a r = false)
    (w : World) : Level P.orgID w ((a.serve r).run w).1 := by
  have hcount : (a.authz r).orgID ≠ P.orgID ∨ counted a r = false := by
    by_cases hP : P.orgID = ""
    · by_cases ho : (a.authz r).orgID = ""
      · exact .inr (h hP ho)
      · exact .inl (hP ▸ ho)
    · exact .inl (hr.2 hP)
  exact (Prog.Each.keeps (Level.refl _) (fun _ _ _ => Level.trans) (level_screened hcount) w).trans (level_serve a r w)

theorem Same.step {t : Twin} (h : Same P t) {e : Event} (he : e.Proper a P) (hc : Apart a P t e) :
    Same P (step a t e) := by
  cases e with
  | tick d => exact ⟨⟨congrArg (· + (d : Int)) h.level.now, h.level.win, h.level.plan⟩, h.said⟩
  | ours r =>
      have hsees : Prog.Sees (SameFor P.orgID) (screened a r) := (he : a.authz r = P) ▸ sees_screened a r
      obtain ⟨hsaid, hworld⟩ := hsees.run (h.level.sameFor hc)
      refine ⟨(level_serve a r _).symm.trans ((Level.of_same hworld).trans (level_serve a r _)), ?_⟩
      dsimp only [Quota.step]
      rw [h.said, hsaid]
  | left r => exact ⟨(level_foreign he hc t.left).symm.trans h.level, h.said⟩
  | right r => exact ⟨h.level.trans (level_foreign he hc t.right), h.said⟩

/-- The caller is told the same on both servers. -/
theorem told_the_same (a : API) (P : Caller) (w : World) (es : List Event) (hes : ∀ e ∈ es, e.Proper a P)
    (h : Runs.Meets (step a) (Apart a P) (Twin.start w) es) :
    Runs.Always (step a) (fun t => t.said = t.said') (Twin.start w) es := by
  have hproper : Runs.Meets (step a) (fun _ e => e.Proper a P) (Twin.start w) es := .of_mem hes _
  exact (Runs.always_of_meets (P := Same P) (fun t e ht hc => ht.step hc.1 hc.2) ⟨Level.refl _ w, rfl⟩
    (hproper.and h)).mono fun t ht => ht.said

/-! ## The bucket of no org -/

namespace Sample

def strict : API := { requireAuth := true }

def root : Caller := ⟨"usr_root", "", "superadmin"⟩

/-- The superadmin asks for the plan. -/
def overview : Request :=
  { method := "GET", path := "/v1/admin/overview", claims := some ⟨"usr_root", "", "superadmin"⟩ }

/-- Anyone may ask for the login page. -/
def anonymous : Request := { method := "GET", path := "/v1/auth/login" }

def flood (n : Nat) : List Event := List.replicate n (.left anonymous) ++ [.ours overview]

/-- A member of an org. -/
def ana : Caller := ⟨"usr_a", "org_a", "member"⟩

def tasksOfAna : Request := { method := "GET", path := "/v1/tasks", claims := some ⟨"usr_a", "org_a", "member"⟩ }

end Sample

set_option maxRecDepth 20000 in
/-- Anonymous requests to the login page use up the window of a superadmin. -/
theorem starved : (∀ e ∈ Sample.flood 240, e.Proper Sample.strict Sample.root) ∧
    ¬ Runs.Always (step Sample.strict) (fun t => t.said = t.said') (Twin.start {}) (Sample.flood 240) := by
  refine ⟨by decide +kernel, fun h => ?_⟩
  have hsaid := congrArg (List.map (Option.map Option.isNone)) h.last
  exact absurd hsaid (by decide +kernel)

theorem told_the_same_sample : Runs.Always (step Sample.strict) (fun t => t.said = t.said') (Twin.start {})
    [.left Sample.anonymous, .ours Sample.tasksOfAna, .right Sample.overview, .ours Sample.tasksOfAna] :=
  told_the_same Sample.strict Sample.ana {} _ (by decide +kernel) (by decide +kernel)

end Quota

end Apifor
