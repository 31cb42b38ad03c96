import Apifor.Lemmas.Outcomes

/-!
# A viewer

What the holder of a viewer's token can make of its org: the REST requests that carry the token, the
devices enrolled with it and the streams they open. The handlers check the role; marking notifications
and enrolling a device do not.
-/

namespace Apifor

/-! ## The calls of a viewer -/

/-- The state of the cérebro, with the serials of the certificates that the token got and the streams
that they opened. -/
structure Session where
  world : World
  certs : List String := []
  streams : List Nat := []

inductive ViewerCall
  | rest (r : Request)
  | enroll (serial : String)
  | connect (serial : String)
  | send (i : Nat) (env : Envelope)
  | hangUp (i : Nat)

namespace Session

/-- One call with the token; a certificate that was not issued to it opens no stream. -/
def call (a : API) (c : Claims) (s : Session) : ViewerCall → Session
  | .rest r => { s with world := step a s.world (.rest { r with claims := some c }) }
  | .enroll serial =>
      let w := step a s.world (.enroll c.orgID c.subject serial)
      let issued := decide ((w.db .device).rows ≠ (s.world.db .device).rows)
      { s with world := w, certs := if issued then serial :: s.certs else s.certs }
  | .connect serial =>
      if serial ∈ s.certs then
        let w := step a s.world (.connect serial)
        let opened := decide (w.streams.length ≠ s.world.streams.length)
        { s with world := w, streams := if opened then s.world.streams.length :: s.streams else s.streams }
      else s
  | .send i env => if i ∈ s.streams then { s with world := step a s.world (.recv i env) } else s
  | .hangUp i => if i ∈ s.streams then { s with world := step a s.world (.disconnect i) } else s

end Session

/-- The claims of a viewer of org `A`. -/
structure IsViewer (A : Id) (c : Claims) : Prop where
  subject : c.subject ≠ ""
  org : c.orgID = A
  role : c.role = "viewer"

/-- The request carries no other secret than the token: no Stripe signature, no state of a web flow. -/
structure TokenOnly (a : API) (w : World) (r : Request) : Prop where
  unsigned : Stripe.verifyWebhook a.hmac (Utf8.encode r.body) r.signature a.stripeWebhookSecret (300 * second) w.now ≠ .ok ()
  stateless : w.http.ghStates (r.get "state") = none

/-- The call marks no notification of `A` as read and enrols no device. -/
def Harmless (a : API) (c : Claims) (s : Session) : ViewerCall → Prop
  | .rest r =>
      r.path = "/v1/notifications" → r.method = "POST" → API.Admits a { r with claims := some c } s.world →
        ∀ n ∈ (s.world.db .notification).rows, n.orgId = c.orgID → n.read = true
  | .enroll _ => s.world.crashed = true ∨ s.world.db.has .org c.orgID = false ∨ s.world.db.has .appUser c.subject = false
  | _ => True

def HoldsToken (a : API) (s : Session) : ViewerCall → Prop
  | .rest r => TokenOnly a s.world r
  | _ => True

/-! ## Handlers -/

/-- A change that leaves the rows of the org alone, if the org exists. -/
def SparesOrg (A : Id) (s s' : Store) : Prop := s.has .org A = true → SameRows A s s'

theorem SameRows.has_org {A : Id} {s s' : Store} (h : SameRows A s s') (ha : s.has .org A = true) :
    s'.has .org A = true := by
  obtain ⟨o, ho, hid⟩ := List.any_eq_true.1 ha
  have hmem : o ∈ rowsOf A s .org := List.mem_filter.2 ⟨ho, hid⟩
  rw [← h .org] at hmem
  exact List.any_eq_true.2 ⟨o, (List.mem_filter.1 hmem).1, hid⟩

instance {A : Id} : IsPreorder Store (SparesOrg A) where
  refl s _ := SameRows.refl A s
  trans _ _ _ h h' ha := (h ha).trans (h' ((h ha).has_org ha))

/-- A new org has other rows than one that exists. -/
theorem createOrg_spares {A B user wsp mbr pcfg email name hash orgName : String} :
    OrgM.Each (SparesOrg A) (DB.createOrg (B := B) user wsp mbr pcfg email name hash orgName) :=
  .tx fun sc now s s' _ hs ha => by
    obtain ⟨p0, h0, hx⟩ := Tx.bind_ok hs
    cases h0
    obtain ⟨⟨s1, _⟩, h1, hx⟩ := Tx.bind_ok hx
    obtain ⟨⟨s2, _⟩, h2, hx⟩ := Tx.bind_ok hx
    obtain ⟨⟨s3, _⟩, h3, hx⟩ := Tx.bind_ok hx
    obtain ⟨⟨s4, _⟩, h4, h5⟩ := Tx.bind_ok hx
    have hs1 : SameRows A s s1 := sameRows_insert (Tx.insert_ok h1) rfl
    have hab : B ≠ A := by
      rintro rfl
      obtain ⟨o, ho, hid⟩ := List.any_eq_true.1 (hs1.has_org ha)
      obtain ⟨x, hx, -⟩ := insert_eq (Tx.insert_ok h2)
      exact Table.key_notMem_of_insert hx o ho (Prod.ext (of_decide_eq_true hid) rfl)
    have hs2 : SameRows A s1 s2 := sameRows_insert (Tx.insert_ok h2) (decide_eq_false hab)
    have hs3 : SameRows A s2 s3 := sameRows_insert (Tx.insert_ok h3) (decide_eq_false hab)
    have hs4 : SameRows A s3 s4 := sameRows_insert (Tx.insert_ok h4) (decide_eq_false hab)
    have hs5 : SameRows A s4 s' := by
      refine sameRows_insert (Tx.insert_ok h5) (List.any_eq_false.2 fun v hv => ?_)
      -- the only workspace with that id is the new one
      rw [insert_rows (Tx.insert_ok h4)] at hv
      obtain ⟨x, hx, -⟩ := insert_eq (Tx.insert_ok h4)
      rcases List.mem_cons.1 hv with rfl | hv
      · simpa using hab
      · have hne := Table.key_notMem_of_insert hx v hv
        simp only [decide_eq_true_eq, not_and]
        exact fun hid => absurd (Prod.ext hid rfl : key .workspace v = (wsp, 0)) hne
    exact hs1.trans (hs2.trans (hs3.trans (hs4.trans hs5)))

namespace API

variable {a : API} {u : Caller} {r : Request} {A : Id} {E : Store → Store → Prop}

theorem permits_viewer (hu : u.role = "viewer") : Permits E u := fun cap hc t ht => by
  unfold writable at ht
  split at ht
  · rw [hu] at hc
    exact absurd hc (by decide)
  · rw [hu] at hc
    exact absurd hc (by decide)
  · cases ht

theorem guarded_viewer {T : Tbl → Bool} {cap : String} {x : OrgM T u.orgID Response} (hu : u.role = "viewer")
    (hcap : can "viewer" cap = false) : OrgM.Each E (guarded u cap x) :=
  guarded_each fun hc => by rw [hu, hcap] at hc; cases hc

theorem guarded_forbids {cap : String} {c : Cmd Response} (hu : u.role = "viewer") (hcap : can "viewer" cap = false) :
    guarded u cap c = .done (forbidden u.role cap) := by
  rw [guarded, if_neg (by rw [hu, hcap]; decide)]
  rfl

theorem memberRemove_viewer (hu : u.role = "viewer") : OrgM.Each E (memberRemove u r) := by
  unfold memberRemove
  split
  · exact .pure _
  · exact guarded_viewer hu rfl

theorem deviceRevoke_viewer (hu : u.role = "viewer") : OrgM.Each E (deviceRevoke u r) := by
  unfold deviceRevoke
  split
  · exact .pure _
  split
  · exact .pure _
  · exact guarded_viewer hu rfl

theorem interventionAnswer_viewer (hu : u.role = "viewer") : Prog.Each (Changes E) (a.interventionAnswer u r) := by
  unfold interventionAnswer
  split
  · exact .done _
  split
  · exact .done _
  · rw [guarded_forbids hu rfl]
    exact .done _

theorem routineAction_viewer (hu : u.role = "viewer") : Prog.Each (Changes E) (a.routineAction u r) := by
  unfold routineAction
  dsimp only
  split
  · exact .done _
  split
  · exact (guarded_viewer hu rfl : OrgM.Each E (dropRoutine u _)) _
  split
  · exact .done _
  split
  · exact .done _
  · rw [guarded_forbids hu rfl]
    exact .done _

theorem superadmin_viewer {c : Cmd Response} (hu : u.role = "viewer") : Prog.Each (Changes E) (superadmin u c) := by
  rw [superadmin, if_neg (by rw [hu]; decide)]
  exact .done _

variable [IsPreorder Store E]

theorem members_viewer (hu : u.role = "viewer") : OrgM.Each E (a.members u r) := by
  unfold members
  split
  · exact guarded_viewer hu rfl
  · exact listing_each

theorem tasks_viewer (hu : u.role = "viewer") : Prog.Each (Changes E) (a.tasks u r) := by
  unfold tasks createTask
  split
  · dsimp only
    split
    · exact .done _
    · rw [guarded_forbids hu rfl]
      exact .done _
  · exact listing_each _

/-- Programs that write nothing. -/
theorem changes_of_none {α : Type} {c : Cmd α} (h : DB.ReadOnly c) : Prog.Each (Changes E) c :=
  h.steps.mono fun w _ heq => heq ▸ Changes.refl w

/-- A registration makes an org of its own. -/
theorem register_spares : Prog.Each (Changes (SparesOrg A)) (a.register r) := by
  have hid : ∀ pre, Prog.Each (Changes (SparesOrg A)) (newID pre) := fun _ =>
    .lift fun _ => ⟨refl_of (SparesOrg A) _, rfl, rfl, rfl, rfl, rfl⟩
  unfold register
  dsimp only
  split
  · exact .done _
  · refine (changes_of_none (.read _ _)).bind fun res => ?_
    split
    · exact .done _
    · refine Prog.Each.bind ?_ fun res => ?_
      · refine (hid _).bind fun _ => (hid _).bind fun B => (hid _).bind fun _ => (hid _).bind fun _ => ?_
        refine (hid _).bind fun _ => Prog.Each.bind (createOrg_spares _) fun res => by cases res <;> exact .done _
      · cases res with
        | error e => exact .done _
        | ok v => exact Prog.Each.bind (.lift fun w => Changes.refl w) fun _ => .done _

theorem login_none : Prog.Each (Changes E) (a.login r) := by
  unfold login
  dsimp only
  split
  · exact .done _
  · refine (changes_of_none (.read _ _)).bind fun res => ?_
    split
    · exact .done _
    split
    · exact .done _
    split
    · exact .done _
    · exact Prog.Each.bind (.lift fun w => Changes.refl w) fun _ => by split <;> exact .done _

theorem metrics_none : Prog.Each (Changes E) metricsHandler :=
  Prog.Each.bind (.lift fun w => Changes.refl w) fun _ => (changes_of_none (.read _ _)).bind fun res => by
    cases res <;> exact .done _

variable {w : World}

theorem callback_stateless (h : w.http.ghStates (r.get "state") = none) :
    Changes E w ((a.githubOAuthCallback r).run w).1 := by
  unfold githubOAuthCallback
  split
  · exact Changes.refl w
  · simp only [Prog.run_act, takeState, h]
    exact ⟨refl_of E _, rfl, rfl, rfl, rfl, rfl⟩

theorem webhook_unsigned
    (h : Stripe.verifyWebhook a.hmac (Utf8.encode r.body) r.signature a.stripeWebhookSecret (300 * second) w.now ≠ .ok ()) :
    ((a.webhook r).run w).1 = w := by
  simp only [webhook, timeNow, Prog.bind_def, Prog.run_bind, Prog.run_lift]
  cases hv : Stripe.verifyWebhook a.hmac (Utf8.encode r.body) r.signature a.stripeWebhookSecret (300 * second) w.now with
  | error msg => rfl
  | ok v => exact absurd hv h

/-- Marking what is read changes nothing. -/
theorem notifications_read (hread : r.method = "POST" →
      ∀ n ∈ (w.db .notification).rows, n.orgId = u.orgID → n.read = true) :
    Changes (SparesOrg u.orgID) w (((notifications u r).cmd a.server.rls).run w).1 := by
  unfold notifications
  split
  · next hm =>
      have hmark : Changes (SparesOrg u.orgID) w (((DB.markNotificationsRead (B := u.orgID)).cmd a.server.rls).run w).1 := by
        show Changes (SparesOrg u.orgID) w ((exec "MarkNotificationsRead" _).run w).1
        rw [run_exec]
        split
        · next q hq =>
            refine ⟨fun _ => sameRows_update hq fun n hn hp => ?_, rfl, rfl, rfl, rfl, rfl⟩
            simp only [Bool.and_eq_true, decide_eq_true_eq, Bool.not_eq_true'] at hp
            rw [hread hm n hn hp.2.1] at hp
            exact absurd hp.2.2 (by decide)
        · exact Changes.refl w
      exact hmark.trans (Prog.Keeps.tail Changes.refl (fun _ => fun w => Changes.refl w) _ w)
  · exact OrgM.Each.run (OrgM.Each.view.bind fun _ => answer_each fun _ => pooled_each) _ w

/-- A request with a viewer's token leaves the rows of the org alone, unless it marks notifications. -/
theorem route_viewer (hu : u.role = "viewer") (ht : TokenOnly a w r) {e : String × Handler} (he : e ∈ a.routes)
    (hp : matchesPath r.path e.1 = true)
    (hread : r.path = "/v1/notifications" → r.method = "POST" →
      ∀ n ∈ (w.db .notification).rows, n.orgId = u.orgID → n.read = true) :
    Changes (SparesOrg u.orgID) w ((e.2.run a u r).run w).1 := by
  have heach : ∀ {c : Cmd Response}, Prog.Each (Changes (SparesOrg u.orgID)) c → Changes (SparesOrg u.orgID) w (c.run w).1 :=
    fun h => Prog.Each.keeps Changes.refl (fun _ _ _ => Changes.trans) h w
  rcases List.mem_append.1 he with he | he
  · obtain ⟨sc, hsc, rfl⟩ := List.mem_map.1 he
    rcases screens_each (E := SparesOrg u.orgID) (u := u) (r := r) (permits_viewer hu) hsc with hq | hm
    · exact heach (hq _)
    · simp only [List.mem_cons, List.not_mem_nil, or_false] at hm
      rcases hm with rfl | rfl | rfl
      · exact heach (members_viewer hu _)
      · exact heach (memberRemove_viewer hu _)
      · exact notifications_read (hread (eq_of_matchesPath (by decide) hp))
  · simp only [List.mem_cons, List.not_mem_nil, or_false] at he
    rcases he with rfl | rfl | rfl | rfl | rfl | rfl | rfl | rfl | rfl | rfl | rfl | rfl | rfl | rfl | rfl | rfl |
      rfl | rfl | rfl
    · exact Changes.refl w
    · exact heach metrics_none
    · exact Changes.refl w
    · exact heach login_none
    · exact heach register_spares
    · dsimp only [Handler.run]
      exact heach (tasks_viewer hu)
    · dsimp only [Handler.run]
      exact heach (interventionAnswer_viewer hu)
    · dsimp only [Handler.run]
      exact heach (routineAction_viewer hu)
    · exact callback_stateless ht.stateless
    · exact heach (deviceRevoke_viewer hu _)
    · exact heach ((guarded_viewer hu rfl : OrgM.Each (SparesOrg u.orgID) (setPlan u r)) _)
    · exact (webhook_unsigned ht.unsigned).symm ▸ Changes.refl w
    · exact heach (superadmin_viewer hu)
    · exact heach (superadmin_viewer hu)
    · exact heach (superadmin_viewer hu)
    · exact heach (superadmin_viewer hu)
    · exact heach (superadmin_viewer hu)
    · exact heach (superadmin_viewer hu)
    · exact heach (superadmin_viewer hu)

end API

/-! ## Calls -/

variable {a : API} {A : Id} {c : Claims} {s : Session}

theorem rest_viewer (hc : IsViewer A c) {w : World} {r : Request} (ht : TokenOnly a w r)
    (hread : r.path = "/v1/notifications" → r.method = "POST" → API.Admits a { r with claims := some c } w →
      ∀ n ∈ (w.db .notification).rows, n.orgId = A → n.read = true) :
    Changes (SparesOrg A) w (step a w (.rest { r with claims := some c })) := by
  have hu : a.authz { r with claims := some c } = ⟨c.subject, A, "viewer"⟩ := by
    simp [API.authz, hc.subject, hc.org, hc.role]
  unfold step
  split
  · exact Changes.refl w
  · refine API.serve_rel ⟨Changes.refl, fun _ _ _ => Changes.trans, fun _ _ => ⟨refl_of (SparesOrg A) _, rfl, rfl, rfl, rfl, rfl⟩⟩
      fun ha route he hp m hstates => ?_
    rw [hu]
    have hstate : m.ghStates (r.get "state") = none := by
      rw [hstates]
      exact ht.stateless
    exact API.route_viewer (u := ⟨c.subject, A, "viewer"⟩) (w := { w with http := m }) (r := { r with claims := some c }) rfl
      ⟨ht.unsigned, hstate⟩ he hp fun hpath hm => hread hpath hm ha

/-- A device of an org or a user that does not exist is refused. -/
theorem enroll_refused {w : World} {org user serial : String}
    (h : w.db.has .org org = false ∨ w.db.has .appUser user = false) :
    ((Server.enroll org user serial).run w).1 = { w with drawn := w.drawn + 1 } := by
  have hrefused : ∀ d : Device, d.orgId = org → d.userId = user → insert .all .device d w.db = .error .constraint := by
    rintro d rfl rfl
    have hall : (refs .device d).all (fun q => w.db.has q.1 q.2) = false := by
      rcases h with h | h <;> simp [refs, h]
    simp [insert, admissible, hall, inRange, Scope.writes]
  simp only [Server.enroll, newID, DB.createDeviceCert, DB.insertRow, Prog.bind_def, Prog.run_bind, Prog.run_lift,
    run_exec]
  rw [hrefused _ (by rfl) (by rfl)]
  rfl

theorem enroll_viewer {w : World} {serial : String}
    (h : w.crashed = true ∨ w.db.has .org c.orgID = false ∨ w.db.has .appUser c.subject = false) :
    Changes (SparesOrg A) w (step a w (.enroll c.orgID c.subject serial)) ∧
      (step a w (.enroll c.orgID c.subject serial)).db = w.db := by
  unfold step
  split
  · exact ⟨Changes.refl w, rfl⟩
  · next hcr =>
      rcases h with h | h
      · exact absurd h hcr
      · simp only [react, World.goroutine, enroll_refused h]
        exact ⟨⟨refl_of (SparesOrg A) _, rfl, rfl, rfl, rfl, rfl⟩, trivial⟩

/-- The token got no certificate, and the org is as it was in `w`. -/
structure Idle (A : Id) (w : World) (s : Session) : Prop where
  certs : s.certs = []
  streams : s.streams = []
  changes : Changes (SparesOrg A) w s.world

theorem call_idle (hc : IsViewer A c) {w : World} {v : ViewerCall} (h : Idle A w s) (ht : HoldsToken a s v)
    (hv : Harmless a c s v) : Idle A w (Session.call a c s v) := by
  cases v with
  | rest r =>
      rw [Harmless, hc.org] at hv
      exact ⟨h.certs, h.streams, h.changes.trans (rest_viewer hc ht hv)⟩
  | enroll serial =>
      obtain ⟨hch, hdb⟩ := enroll_viewer (a := a) hv
      refine ⟨?_, h.streams, h.changes.trans hch⟩
      simp only [Session.call, hdb]
      simpa using h.certs
  | connect serial =>
      simp only [Session.call, h.certs, List.not_mem_nil, if_false]
      exact h
  | send i env =>
      simp only [Session.call, h.streams, List.not_mem_nil, if_false]
      exact h
  | hangUp i =>
      simp only [Session.call, h.streams, List.not_mem_nil, if_false]
      exact h

/-- Whatever a viewer calls, the rows of its org stay as they were and nothing is pushed to it, if the
calls mark no notification and enrol no device. -/
theorem viewer_untouched (a : API) {A : Id} {c : Claims} {w : World} {calls : List ViewerCall} (hc : IsViewer A c)
    (ha : w.db.has .org A = true) (ht : Runs.Meets (Session.call a c) (HoldsToken a) { world := w } calls)
    (hm : Runs.Meets (Session.call a c) (Harmless a c) { world := w } calls) :
    Runs.Always (Session.call a c) (fun s => Untouched A w s.world) { world := w } calls := by
  have hidle : Runs.Always (Session.call a c) (Idle A w) { world := w } calls :=
    Runs.always_of_meets (fun _ _ h hv => call_idle hc h hv.1 hv.2) ⟨rfl, rfl, Changes.refl w⟩ (ht.and hm)
  refine hidle.mono fun s h => ⟨h.changes.db ha, ?_, ?_, ?_⟩
  · rw [h.changes.hub]
  · rw [h.changes.hub]
  · rw [h.changes.pushed]

namespace Sample

/-- The viewer of an org with a notification. -/
def watched : World :=
  { db := Store.ofRows
      [⟨.appUser, { id := "usr_a", email := "ana@a.dev", createdAt := 0 }⟩,
        ⟨.org, { id := "org_a", name := "A", ownerUserId := "usr_a", createdAt := 0 }⟩,
        ⟨.appUser, { id := "usr_v", email := "vera@a.dev", createdAt := 0 }⟩,
        ⟨.membership, { id := "mbr_v", orgId := "org_a", userId := "usr_v", permissionTier := .viewer }⟩,
        ⟨.notification, { id := "ntf_a", orgId := "org_a", userId := "usr_a", type := some "lease",
                          title := some "Lease revogado", body := none, link := none, createdAt := 0 }⟩] }

def viewer : Claims := ⟨"usr_v", "org_a", "viewer"⟩

def markRead : ViewerCall := .rest { method := "POST", path := "/v1/notifications" }

def newTask : ViewerCall :=
  .rest { method := "POST", path := "/v1/tasks", body := "\x7b\"title\":\"x\",\"prompt\":\"y\"\x7d" }

end Sample

/-- A viewer marks the notifications of its org as read, and enrols a device in it. -/
theorem viewer_writes :
    ¬ Runs.Always (Session.call {} Sample.viewer) (fun s => Untouched "org_a" Sample.watched s.world)
        { world := Sample.watched } [Sample.markRead] ∧
      ¬ Runs.Always (Session.call {} Sample.viewer) (fun s => Untouched "org_a" Sample.watched s.world)
        { world := Sample.watched } [.enroll "s1"] := by
  constructor
  · exact fun h => absurd (h.last.rows .notification) (by decide +kernel)
  · exact fun h => absurd (h.last.rows .device) (by decide +kernel)

/-- A viewer who asks for a task and for a stream. -/
theorem viewer_untouched_sample :
    Runs.Always (Session.call {} Sample.viewer) (fun s => Untouched "org_a" Sample.watched s.world)
      { world := Sample.watched } [Sample.newTask, .connect "s1"] := by
  refine viewer_untouched {} ⟨by decide, rfl, rfl⟩ (by decide +kernel) ⟨⟨?_, ?_⟩, trivial, trivial⟩ ⟨?_, trivial, trivial⟩
  · simp [Stripe.verifyWebhook]
  · rfl
  · intro hpath
    exact absurd hpath (by decide)

end Apifor
