import Apifor.Lemmas.Billing
import Apifor.Lemmas.Elsewhere
import Apifor.Theorems.Viewer

/-!
# What the other orgs do

Executors and users of other orgs, the webhook, the reaper and the scheduler, in any order: an org keeps
its rows and gets no envelope, as long as nobody names a task, a routine or a lease of it.
-/

namespace Apifor

open Server (Tenant stable_tenant Unreaped Undue Foreigner)

variable {A : Id} {a : API} {w w' : World} {u : Caller} {r : Request} {P : Store → Prop} {α : Type}

/-! ## Requests -/

/-- The org exists, refers to its own rows only, and its tasks have the ids that the cérebro gives. -/
structure Founded (A : Id) (s : Store) : Prop where
  there : s.has .org A = true
  tenant : Tenant A s

theorem stable_founded : Stable A (Founded A) := fun s s' h hs => ⟨h.has_org hs.there, stable_tenant s s' h hs.tenant⟩

/-- The request acts for another org, without the rights of a superadmin, and names neither a task nor a routine of
`A`; a billing event and a web flow that it carries are not `A`'s. -/
structure Abroad (A : Id) (a : API) (w : World) (r : Request) : Prop where
  org : (a.authz r).orgID ≠ A
  role : (a.authz r).role ≠ "superadmin"
  task : ∀ k, API.idBetween r.path "/v1/interventions/" "/answer" = some k → Lacks A .task k w.db
  routine : Text.hasPrefix r.path "/v1/routines/" = true →
    Lacks A .routine (API.splitAction (Text.trimPrefix r.path "/v1/routines/")).1 w.db
  event : ∀ q, a.bills r w = some q → q.1 ≠ A
  flow : r.path = "/v1/connections/git/github/oauth/callback" →
    ∀ st, w.http.ghStates (r.get "state") = some st → st.org ≠ A

theorem Untouched.memory (w : World) (m : HttpMemory) : Untouched A w { w with http := m } :=
  ⟨SameRows.refl _ _, rfl, rfl, rfl⟩

theorem blind_untouched : API.Blind (Untouched A) where
  refl := Untouched.refl A
  trans := fun _ _ _ => Untouched.trans
  memory := fun w m => Untouched.memory w m

theorem Untouched.of_changes (h : Changes (SparesOrg A) w w') (ha : w.db.has .org A = true) : Untouched A w w' :=
  ⟨h.db ha, by rw [h.hub], by rw [h.hub], by rw [h.pushed]⟩

theorem Sparing.of_changes {c : Cmd α} (h : Prog.Each (Changes (SparesOrg A)) c) : Sparing A (Founded A) c := fun w hs =>
  .of_changes (h.keeps Changes.refl (fun _ _ _ => Changes.trans) w) hs.there

namespace API

theorem createAndPlan_sparing {o title prompt repo : String} {refs : List String} (ho : o ≠ A) :
    Sparing A (Tenant A) (a.createAndPlan o title prompt refs repo) := by
  have hP := stable_tenant (A := A)
  refine Sparing.bind hP (.readOnly (DB.readOnly_firstWorkspace _)) fun wsp => ?_
  refine Sparing.bind hP (Server.createRealTask_sparing hP ho) fun res => ?_
  obtain ⟨task, created⟩ := res
  cases created with
  | error e => exact .done _
  | ok _ =>
      refine Sparing.bind hP (.readOnly (DB.readOnly_promptWithMemory _ _ _)) fun p => ?_
      refine Sparing.bind hP (.readOnly (DB.readOnly_pinnedWorkerForRepo _ _)) fun cfg => ?_
      refine Sparing.bind hP (hubSend_sparing ho) fun sent => ?_
      cases sent with
      | true => exact Sparing.bind hP (DB.setTaskStatus_sparing fun _ h => h.lacks DB.notIssued_planning) fun _ => .done _
      | false => exact .done _

theorem runRoutine_sparing {i : Id} : Sparing A (fun s => Tenant A s ∧ Lacks A .routine i s) (a.runRoutine i) := by
  unfold runRoutine getRoutineAction
  refine Sparing.query fun _ s hs => ⟨Tenant A, hs.1, ?_⟩
  have hP := stable_tenant (A := A)
  cases hq : (s .routine).get? (i, 0) with
  | none => exact .done _
  | some q =>
      have ho : q.orgId ≠ A := by
        obtain ⟨hmem, hkey⟩ := Table.get?_eq_some.1 hq
        exact fun ho => hs.2 q (List.mem_filter.2 ⟨hmem, decide_eq_true ho⟩) (congrArg Prod.fst hkey)
      refine Sparing.bind hP (Sparing.bind hP (createAndPlan_sparing ho) fun res => ?_) fun v => ?_
      · cases res <;> exact .done _
      · exact Sparing.bind hP (DB.createNotification_sparing hP ho) fun _ => .done _

variable (hrls : a.server.rls = true)

include hrls

/-- What a request does in its caller's scope. -/
theorem own_sparing {T : Tbl → Bool} (ho : u.orgID ≠ A) (x : OrgM T u.orgID α) : Sparing A (Tenant A) (x.cmd a.server.rls) := by
  rw [hrls]
  exact .org ho.symm (fun _ h => h.contained) x

theorem tasks_sparing (ho : u.orgID ≠ A) : Sparing A (Tenant A) (a.tasks u r) := by
  have hP := stable_tenant (A := A)
  unfold tasks createTask guarded
  dsimp only
  split
  · split
    · exact .done _
    · split
      · refine Sparing.bind hP (createAndPlan_sparing ho) fun res => ?_
        cases res with
        | error e => exact .done _
        | ok v => exact Sparing.bind hP (own_sparing hrls ho _) fun _ => .done _
      · exact .done _
  · exact own_sparing hrls ho _

theorem answerTask_sparing {k : Id} (ho : u.orgID ≠ A) :
    Sparing A (fun s => Tenant A s ∧ Lacks A .task k s) (a.answerTask u r k) := by
  have hP := (stable_tenant (A := A)).and (stable_lacks .task k)
  have hown : ∀ {T : Tbl → Bool} {β : Type} (x : OrgM T u.orgID β),
      Sparing A (fun s => Tenant A s ∧ Lacks A .task k s) (x.cmd a.server.rls) := fun x =>
    (own_sparing hrls ho x).mono fun _ h => h.1
  unfold answerTask
  dsimp only
  refine Sparing.bind hP (hown _) fun _ => ?_
  split
  · refine Sparing.bind hP (hown _) fun res => ?_
    cases res with
    | error e => exact .done _
    | ok _ =>
        refine Sparing.bind hP ?_ fun _ => .done _
        unfold dispatchMerge DB.getTaskRepo read
        refine Sparing.query fun _ s hs => ⟨fun s => Tenant A s ∧ Lacks A .task k s, hs, ?_⟩
        dsimp only
        cases htr : DB.taskRepo s k with
        | none => exact .done _
        | some tr =>
            dsimp only
            split
            · exact .done _
            · have htask : tr.orgID ≠ A := by
                obtain ⟨t, ht, rfl⟩ := Option.map_eq_some_iff.1 htr
                obtain ⟨hmem, hkey⟩ := Table.get?_eq_some.1 ht
                intro hto
                exact hs.2 t (List.mem_filter.2 ⟨hmem, decide_eq_true hto⟩) (congrArg Prod.fst hkey)
              refine Sparing.bind hP (.newID _) fun i => ?_
              exact Sparing.bind hP (hubSend_sparing htask) fun _ => .done _
  · split
    · exact hown _
    · exact .done _

theorem interventionAnswer_spares (h : Abroad A a w r) (ht : Tenant A w.db) :
    Untouched A w ((a.interventionAnswer (a.authz r) r).run w).1 := by
  unfold interventionAnswer guarded
  split
  · exact Untouched.refl A w
  · next k hk =>
      split
      · exact Untouched.refl A w
      · split
        · exact answerTask_sparing hrls h.org w ⟨ht, h.task k hk⟩
        · exact Untouched.refl A w

theorem routineAction_spares (h : Abroad A a w r) (ht : Tenant A w.db)
    (hp : Text.hasPrefix r.path "/v1/routines/" = true) :
    Untouched A w ((a.routineAction (a.authz r) r).run w).1 := by
  have hroutine := h.routine hp
  unfold routineAction guarded
  dsimp only
  split
  · exact Untouched.refl A w
  split
  · exact own_sparing hrls h.org _ w ht
  split
  · exact Untouched.refl A w
  split
  · exact Untouched.refl A w
  split
  · split
    · exact runRoutine_sparing w ⟨ht, hroutine⟩
    split
    · exact own_sparing hrls h.org _ w ht
    split
    · exact own_sparing hrls h.org _ w ht
    · exact Untouched.refl A w
  · exact Untouched.refl A w

theorem callback_spares (h : Abroad A a w r) (ht : Tenant A w.db)
    (hp : r.path = "/v1/connections/git/github/oauth/callback") :
    Untouched A w ((a.githubOAuthCallback r).run w).1 := by
  unfold githubOAuthCallback
  split
  · exact Untouched.refl A w
  · simp only [Prog.run_act, takeState, timeNow, Prog.bind_def, Prog.run_bind, Prog.run_lift]
    have hmem : Untouched A w { w with http := { w.http with
        ghStates := Function.update w.http.ghStates (r.get "state") none } } := .memory w _
    refine hmem.trans ?_
    cases hst : w.http.ghStates (r.get "state") with
    | none => exact Untouched.refl A _
    | some st =>
        dsimp only
        split
        · exact Untouched.refl A _
        · rw [hrls]
          exact Sparing.org (P := Tenant A) (h.flow hp st hst).symm (fun _ h => h.contained) _ _ ht

omit hrls

theorem upsertSubscription_sparing (hP : Stable A P) {o plan c sub : String} (ho : o ≠ A) :
    Sparing A P (DB.upsertSubscription o plan c sub) := by
  refine Sparing.bind hP (Sparing.exec fun _ s s' _ _ hs => ?_) fun res => ?_
  · split at hs
    · cases hs
    · obtain ⟨s1, hplan, heq⟩ := map_eq_ok hs
      cases heq
      exact Server.setOrgPlan_spares ho hplan
  · cases res with
    | error e => exact .done _
    | ok p =>
        refine Sparing.bind hP (Sparing.exec fun _ s s' _ _ hs => ?_) fun res => ?_
        · refine sameRows_update hs fun b _ hit => ?_
          simp only [Scope.writes, Bool.true_and, decide_eq_true_eq] at hit
          have hb : b.orgId ≠ A := fun hb => ho (hit.symm.trans hb)
          exact ⟨decide_eq_false hb, decide_eq_false hb⟩
        · rcases res with e | n
          · exact .done _
          · cases n with
            | zero => exact Sparing.bind hP (.newID _) fun _ => .insertRow fun _ _ _ => decide_eq_false ho
            | succ n => exact .done _

theorem applyEvent_sparing (hP : Stable A P) {o : Id} {ev : StripeEvent} (ho : o ≠ A) : Sparing A P (a.applyEvent o ev) := by
  unfold applyEvent
  dsimp only
  split
  · exact Sparing.bind hP (upsertSubscription_sparing hP ho) fun _ => .done _
  split
  · refine Sparing.bind hP .timeNow fun now => Sparing.bind hP ?_ fun _ => .done _
    exact Server.subsUpdate_sparing (f := fun b => { b with status := .past_due, graceUntil := some (now + a.graceSec * second) })
      (fun _ => rfl) (fun _ => rfl) ho
  split
  · refine Sparing.bind hP ?_ fun _ => Sparing.bind hP ?_ fun _ => .done _
    · exact Server.subsUpdate_sparing (f := fun b => { b with status := .active, graceUntil := none }) (fun _ => rfl)
        (fun _ => rfl) ho
    · exact Sparing.bind hP (.newID _) fun _ => .insertRow fun _ _ _ => decide_eq_false ho
  split
  · exact Sparing.bind hP (Server.downgradeToFree_sparing hP ho) fun _ => .done _
  · exact .done _

theorem superadmin_spares {c : Cmd Response} (hu : u.role ≠ "superadmin") : Untouched A w ((superadmin u c).run w).1 := by
  rw [superadmin, if_neg hu]
  exact Untouched.refl A w

include hrls

theorem route_spares (h : Abroad A a w r) (hs : Founded A w.db) {e : String × Handler} (he : e ∈ a.routes)
    (hp : matchesPath r.path e.1 = true) : Untouched A w ((e.2.run a (a.authz r) r).run w).1 := by
  have hown : ∀ {T : Tbl → Bool} {β : Type} (x : OrgM T (a.authz r).orgID β), Untouched A w ((x.cmd a.server.rls).run w).1 :=
    fun x => own_sparing hrls h.org x w hs.tenant
  rcases List.mem_append.1 he with he | he
  · obtain ⟨sc, hsc, rfl⟩ := List.mem_map.1 he
    exact hown _
  · simp only [List.mem_cons, List.not_mem_nil, or_false] at he
    rcases he with rfl | rfl | rfl | rfl | rfl | rfl | rfl | rfl | rfl | rfl | rfl | rfl | rfl | rfl | rfl | rfl |
      rfl | rfl | rfl
    · exact Untouched.refl A w
    · exact Sparing.of_changes metrics_none w hs
    · exact Untouched.refl A w
    · exact Sparing.of_changes login_none w hs
    · exact Sparing.of_changes register_spares w hs
    · dsimp only [Handler.run]
      exact tasks_sparing hrls h.org w hs.tenant
    · dsimp only [Handler.run]
      exact interventionAnswer_spares hrls h hs.tenant
    · dsimp only [Handler.run]
      exact routineAction_spares hrls h hs.tenant (hasPrefix_of_matchesPath hp)
    · exact callback_spares hrls h hs.tenant (eq_of_matchesPath (by decide) hp)
    · exact hown _
    · exact hown _
    · dsimp only [Handler.run]
      rcases webhook_run (a := a) (eq_of_matchesPath (by decide) hp) w with ⟨ev, hev, hrun⟩ | ⟨-, hrun⟩
      · rw [hrun]
        exact applyEvent_sparing (P := fun _ => True) (fun _ _ _ h => h) (h.event ev hev) w trivial
      · rw [hrun]
        exact Untouched.refl A w
    · exact superadmin_spares h.role
    · exact superadmin_spares h.role
    · exact superadmin_spares h.role
    · exact superadmin_spares h.role
    · exact superadmin_spares h.role
    · exact superadmin_spares h.role
    · exact superadmin_spares h.role

theorem serve_spares (h : Abroad A a w r) (hs : Founded A w.db) : Untouched A w ((a.serve r).run w).1 := by
  refine serve_rel blind_untouched fun _ e he hp m hm => ?_
  have h' : Abroad A a { w with http := m } r :=
    { org := h.org, role := h.role, task := h.task, routine := h.routine, event := h.event,
      flow := fun hp st hst => h.flow hp st (by rw [← hm]; exact hst) }
  exact route_spares hrls h' hs he hp

end API

/-! ## Steps -/

/-- An event that is none of `A`'s. -/
def Elsewhere (a : API) (A : Id) (w : World) : Event → Prop
  | .tick _ => True
  | .enroll o _ _ => o ≠ A
  | .connect serial => ∀ d, DB.findDevice w.db serial = some d → d.orgId ≠ A
  | .recv i env => ∀ st, w.streams[i]? = some st → Foreigner A w.db st env
  | .disconnect i => ∀ st, w.streams[i]? = some st → st.org ≠ A
  | .deliver i _ => ∀ st, w.streams[i]? = some st → st.org ≠ A
  | .rest r => Abroad A a w r
  | .poll i _ _ => ∀ p, w.http.ghPolls[i]? = some p → p.org ≠ A
  | .reap => Unreaped A w.now w.db
  | .sched => Undue A w.now w.db

theorem Untouched.goroutine {c : Cmd α} (h : Untouched A w (c.run w).1) : Untouched A w (w.goroutine c) :=
  ⟨h.rows, h.pushes.byOrg, h.pushes.chans, h.pushes.pushed⟩

theorem Hub.setChan_other {h : Hub} {o : Id} {n : Nat} {c : Chan} (ho : o ≠ A) : (h.setChan o n c).chans A = h.chans A :=
  Function.update_of_ne ho.symm _ _

theorem Hub.register_other {h : Hub} {o : Id} (ho : o ≠ A) :
    (h.register o).1.byOrg A = h.byOrg A ∧ (h.register o).1.chans A = h.chans A := by
  refine ⟨?_, ?_⟩
  · unfold Hub.register
    dsimp only
    rw [Function.update_of_ne ho.symm]
    split
    · rfl
    · rfl
  · unfold Hub.register
    dsimp only
    rw [Function.update_of_ne ho.symm]
    split
    · exact setChan_other ho
    · rfl

theorem Hub.unregister_other {h : Hub} {o : Id} {n : Nat} (ho : o ≠ A) :
    (h.unregister o n).byOrg A = h.byOrg A ∧ (h.unregister o n).chans A = h.chans A := by
  unfold Hub.unregister
  split
  · exact ⟨Function.update_of_ne ho.symm _ _, setChan_other ho⟩
  · exact ⟨rfl, rfl⟩

theorem enroll_sparing {o user serial : String} (ho : o ≠ A) : Sparing A (fun _ => True) (Server.enroll o user serial) := by
  have hP : Stable A fun _ => True := fun _ _ _ h => h
  exact Sparing.bind hP (.newID _) fun _ => Sparing.bind hP (DB.createDeviceCert_sparing ho) fun _ => .done _

theorem openStream_spares {serial : String} (h : ∀ d, DB.findDevice w.db serial = some d → d.orgId ≠ A) :
    Untouched A w ((Server.openStream serial).run w).1 := by
  simp only [Server.openStream, DB.findDeviceBySerial, Prog.bind_def, Prog.run_bind, DB.run_read]
  cases hd : DB.findDevice w.db serial with
  | none => exact Untouched.refl A w
  | some d =>
      obtain ⟨hby, hchans⟩ := Hub.register_other (h := w.hub) (h d hd)
      exact ⟨SameRows.refl _ _, hby, hchans, rfl⟩

theorem write_spares {i : Nat} {st : Stream} {ok : Bool} (ho : st.org ≠ A) : Untouched A w (w.write i st ok) := by
  have hchan : ∀ c, (w.hub.setChan st.org st.out c).chans A = w.hub.chans A := fun c => Hub.setChan_other ho
  unfold World.write
  dsimp only
  split
  · split
    · exact ⟨SameRows.refl _ _, rfl, rfl, rfl⟩
    · exact Untouched.refl A w
  · split
    · exact ⟨SameRows.refl _ _, rfl, hchan _, rfl⟩
    · exact ⟨SameRows.refl _ _, rfl, hchan _, rfl⟩

theorem pollTurn_sparing {i : Nat} {p : GhPoll} {token account : Reply} (ho : p.org ≠ A) :
    Sparing A (Tenant A) (pollTurn true i p token account) := by
  refine Sparing.bind stable_tenant (.org ho.symm (fun _ h => h.contained) _) fun ended => ?_
  split
  · exact fun w _ => Untouched.memory w _
  · exact .done _

/-- One step. -/
theorem step_untouched {e : Event} (hrls : a.server.rls = true) (hs : Founded A w.db) (h : Elsewhere a A w e) :
    Untouched A w (step a w e) := by
  unfold step
  split
  · exact Untouched.refl A w
  · cases e with
    | tick d => exact ⟨SameRows.refl _ _, rfl, rfl, rfl⟩
    | enroll o user serial => exact Untouched.goroutine (enroll_sparing h w trivial)
    | connect serial =>
        have hopen : Untouched A w (w.goroutine (Server.openStream serial)) := .goroutine (openStream_spares h)
        exact ⟨hopen.rows, hopen.pushes.byOrg, hopen.pushes.chans, hopen.pushes.pushed⟩
    | recv i env =>
        unfold react
        dsimp only
        cases hi : w.streams[i]? with
        | none => exact Untouched.refl A w
        | some st =>
            dsimp only
            split
            · exact Untouched.goroutine (Server.onMessage_spares a.server (h st hi) hs.tenant)
            · exact Untouched.refl A w
    | disconnect i =>
        unfold react
        dsimp only
        cases hi : w.streams[i]? with
        | none => exact Untouched.refl A w
        | some st =>
            dsimp only
            split
            · obtain ⟨hby, hchans⟩ := Hub.unregister_other (h := w.hub) (n := st.out) (h st hi)
              exact ⟨SameRows.refl _ _, hby, hchans, rfl⟩
            · exact Untouched.refl A w
    | deliver i ok =>
        unfold react
        dsimp only
        cases hi : w.streams[i]? with
        | none => exact Untouched.refl A w
        | some st =>
            dsimp only
            split
            · exact write_spares (h st hi)
            · exact Untouched.refl A w
    | rest r => exact API.serve_spares hrls h hs
    | poll i token account =>
        unfold react
        dsimp only
        cases hi : w.http.ghPolls[i]? with
        | none => exact Untouched.refl A w
        | some p =>
            dsimp only
            rw [hrls]
            exact Untouched.goroutine (pollTurn_sparing (h p hi) w hs.tenant)
    | reap => exact Untouched.goroutine (Server.reapOnce_spares a.server h)
    | sched => exact Untouched.goroutine (Server.schedule_spares a.server hs.tenant h)

/-- Whatever the executors and the users of other orgs do, an org keeps its rows and is sent nothing. -/
theorem elsewhere_untouched (a : API) (A : Id) (w : World) (es : List Event) (hrls : a.server.rls = true)
    (hs : Founded A w.db) (h : Runs.Meets (step a) (Elsewhere a A) w es) :
    Runs.Always (step a) (Untouched A w) w es := by
  refine Runs.always_of_meets (fun w' e hw he => ?_) (Untouched.refl A w) h
  exact hw.trans (step_untouched hrls (stable_founded _ _ hw.rows hs) he)

namespace Sample

/-- A second org beside the first, with a repository of its own. -/
def sideBySide : World :=
  { db := Store.ofRows (plans ++ rows ++
      [⟨.appUser, { id := "usr_b", email := "bia@b.dev", createdAt := 0 }⟩,
        ⟨.org, { id := "org_b", name := "B", ownerUserId := "usr_b", createdAt := 0 }⟩,
        ⟨.workspace, { id := "wsp_b", orgId := "org_b", name := "Principal" }⟩,
        ⟨.repository, { id := "repo_b", orgId := "org_b", workspaceId := "wsp_b", name := "site", provider := "github",
                        defaultBranch := "main", cloneUrl := some "https://github.com/b/site" }⟩]) }

/-- The first org's executor connects, its routine makes a task and the executor reports that it failed. -/
def nextDoor : List Event :=
  [.connect "s1", .sched, .recv 0 { type := .STEP_FAILED, payload := .stepEvent { taskId := "tsk_0", error := "no" } }, .reap]

/-- The state before the event numbered `n` of `nextDoor`. -/
def before (n : Nat) : World := Runs.exec (step {}) sideBySide (nextDoor.take n)

theorem founded_sideBySide : Founded "org_b" sideBySide.db := by
  refine ⟨by decide +kernel, ⟨fun t => ?_, ?_⟩⟩
  · cases t <;> decide +kernel
  · have hnone : (rowsOf "org_b" sideBySide.db .task).isEmpty = true := by decide +kernel
    intro t ht
    rw [List.isEmpty_iff.1 hnone] at ht
    cases ht

end Sample

theorem elsewhere_untouched_sample :
    Runs.Always (step {}) (Untouched "org_b" Sample.sideBySide) Sample.sideBySide Sample.nextDoor := by
  refine elsewhere_untouched {} "org_b" Sample.sideBySide Sample.nextDoor rfl Sample.founded_sideBySide ⟨?_, ?_, ?_, ?_, trivial⟩
  · intro d hd
    have hall : (DB.findDevice Sample.sideBySide.db "s1").all (fun d => decide (d.orgId ≠ "org_b")) = true := by decide +kernel
    rw [hd] at hall
    exact of_decide_eq_true hall
  · intro q hq _ _ _ _ _
    have hall : ∀ q ∈ ((Sample.before 1).db .routine).rows, q.orgId ≠ "org_b" := by decide +kernel
    exact hall q hq
  · intro st hst
    have horg : ∀ st ∈ (Sample.before 2).streams, st.org ≠ "org_b" := by decide +kernel
    have hdevice : ∀ st ∈ (Sample.before 2).streams, Lacks "org_b" .device st.device (Sample.before 2).db := by
      decide +kernel
    have htask : Lacks "org_b" .task "tsk_0" (Sample.before 2).db := by decide +kernel
    have hprs : ∀ p ∈ rowsOf "org_b" (Sample.before 2).db .pullRequest, p.taskId ≠ some "tsk_0" := by decide +kernel
    have hworkers : ∀ v ∈ rowsOf "org_b" (Sample.before 2).db .workerInstance, v.currentTaskId ≠ some "tsk_0" := by
      decide +kernel
    have hof : Server.orgOf (Sample.before 2).db "tsk_0" ≠ "org_b" := by decide +kernel
    have hmem : st ∈ (Sample.before 2).streams := List.mem_of_getElem? hst
    refine ⟨horg st hmem, hdevice st hmem, fun k hk => ?_⟩
    cases hk
    exact ⟨⟨htask, hprs, hworkers⟩, hof⟩
  · have hleases : ∀ l ∈ ((Sample.before 3).db .lease).rows, l.endedAt ≠ none := by decide +kernel
    have hsubs : ∀ b ∈ ((Sample.before 3).db .subscription).rows, b.status ≠ .past_due := by decide +kernel
    exact ⟨fun l hl hactive => absurd hactive (hleases l hl), fun b hb hdue => absurd hdue (hsubs b hb)⟩

end Apifor
