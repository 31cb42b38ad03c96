import Apifor.Lemmas.Outcomes

/-!
# No work without a lease

The lease is the product's central rule: an org works only while it holds one. Nothing that dispatches
work looks at the leases, so the rule holds in the runs whose events ask for work only for orgs that
hold one.
-/

namespace Apifor

variable {a : API} {w w' w'' : World} {e : Event} {o k : Id} {α β : Type}

/-- The org holds a lease. -/
def Leased (s : Store) (o : Id) : Prop := ∃ l ∈ (s .lease).rows, l.orgId = o ∧ l.endedAt = none

/-- Work that the step puts on an org's channel is put there while the org holds a lease. -/
def WorksLeased (a : API) (w : World) (e : Event) : Prop :=
  Emits (fun p => p.env.isWork = true → Leased p.db p.org) w (step a w e)

/-- An event that asks for work for an org: the outcome of a stage that goes on, an approval, a plan,
a new task, a routine that is run or due. -/
inductive AsksWork (a : API) (w : World) (e : Event) (o : Id) : Prop
  | result (st : Stream) (env : Envelope) (k : Id) (r : Server.StepResult) (kind : StepKind)
      (he : w.hears e = some (st, env)) (hr : env.result = some (k, r))
      (hn : (a.server.afterResult w k r).next = some kind) (hc : CanSend w.hub (a.server.afterResult w k r).db k)
      (ho : ((DB.taskRepo (a.server.afterResult w k r).db k).map (·.orgID)).getD "" = o)
  | snapshot (st : Stream) (env : Envelope) (k : Id) (kind : StepKind) (he : w.hears e = some (st, env))
      (hk : env.snapshot = some k) (hn : (a.server.afterSnapshot w k).next = some kind)
      (hc : CanSend w.hub (a.server.afterSnapshot w k).db k)
      (ho : ((DB.taskRepo (a.server.afterSnapshot w k).db k).map (·.orgID)).getD "" = o)
  | approve (r : Request) (k : Id) (hr : w.serves e = some r) (ha : API.Admits a r w) (hk : a.approves r = some k)
      (hc : CanSend w.hub (a.approvedDb r w.db k) k)
      (ho : ((DB.taskRepo (a.approvedDb r w.db k) k).map (·.orgID)).getD "" = o)
  | plan (st : Stream) (env : Envelope) (k : Id) (he : w.hears e = some (st, env)) (hk : env.plans = some k)
      (hc : ∃ tr, DB.taskRepo w.db k = some tr ∧ tr.cloneURL ≠ "") (ho : st.org = o)
  | create (r : Request) (hr : w.serves e = some r) (ha : API.Admits a r w) (hm : a.makesTask r = true)
      (hc : w.hub.byOrg o ≠ none) (ho : (a.authz r).orgID = o)
  | routine (r : Request) (i : Id) (q : Routine) (hr : w.serves e = some r) (ha : API.Admits a r w)
      (hi : a.runs r = some i) (hq : (w.db .routine).get? (i, 0) = some q) (hc : w.hub.byOrg o ≠ none) (ho : q.orgId = o)
  | due (ds : List DB.RoutineDue) (d : DB.RoutineDue) (he : e = .sched) (hrun : w.crashed = false)
      (hds : (DB.dueRoutines.run w).2 = some (.ok ds)) (hd : d ∈ ds) (hc : w.hub.byOrg o ≠ none) (ho : d.orgID = o)

/-- Every org that the event asks work for holds a lease. -/
def AsksLeased (a : API) (w : World) (e : Event) : Prop := ∀ o, AsksWork a w e o → Leased w.db o

/-! ## Requests for a plan -/

/-- A plan was requested from connected orgs of `P` only. -/
structure Plans (P : Id → Prop) (w w' : World) : Prop where
  byOrg : w'.hub.byOrg = w.hub.byOrg
  pushed : Emits (fun p => p.env.type = .REQUEST_PLAN → P p.org ∧ w.hub.byOrg p.org ≠ none) w w'

namespace Plans

variable {P : Id → Prop}

theorem refl (P : Id → Prop) (w : World) : Plans P w w := ⟨rfl, .refl w⟩

theorem trans (h : Plans P w w') (h' : Plans P w' w'') : Plans P w w'' := by
  refine ⟨h'.byOrg.trans h.byOrg, h.pushed.trans (h'.pushed.mono fun p hp hty => ?_)⟩
  rw [← h.byOrg]
  exact hp hty

theorem of_foot {T : Tbl → Bool} (h : Foot T (fun _ e => e.type ≠ .REQUEST_PLAN) w w') : Plans P w w' :=
  ⟨h.byOrg, h.emits fun _ hp _ hty => absurd hty hp⟩

theorem of_within {T : Tbl → Bool} {c : Cmd α} (h : Within T (fun _ e => e.type ≠ .REQUEST_PLAN) c) :
    Prog.Keeps (Plans P) c := fun w => of_foot (h w)

theorem of_readOnly {c : Cmd α} (h : DB.ReadOnly c) : Prog.Keeps (Plans P) c :=
  of_within (T := fun _ => false) (.ofReadOnly h)

theorem bind {c : Cmd α} {g : α → Cmd β} (hc : Prog.Keeps (Plans P) c) (hg : ∀ x, Prog.Keeps (Plans P) (g x)) :
    Prog.Keeps (Plans P) (c.bind g) := Prog.Keeps.bind (fun _ _ _ h h' => h.trans h') hc hg

theorem done (x : α) : Prog.Keeps (Plans P) (.done x : Cmd α) := fun w => refl P w

theorem hubSend {org : Id} {env : Envelope} (hP : P org) : Prog.Keeps (Plans P) (hubSend org env) := fun w => by
  have hfoot : Foot (fun _ => false) (fun _ _ => True) w ((Apifor.hubSend org env).run w).1 := Within.hubSend trivial w
  refine ⟨hfoot.byOrg, ?_⟩
  cases hn : w.hub.byOrg org with
  | none =>
      simp only [Apifor.hubSend, Prog.run_act, hn, Prog.run_done]
      exact .refl w
  | some n => exact (hubSend_emits org env w).mono fun p hp _ => by rw [hp.org, hn]; exact ⟨hP, fun h => by cases h⟩

end Plans

section PlanRequests

variable {P : Id → Prop}

theorem fireRoutine_plans (s : Server) {org wsp : Id} {act : RoutineAction} (hP : P org) :
    Prog.Keeps (Plans P) (s.fireRoutine org wsp act) := by
  refine Plans.bind (Plans.of_readOnly ?_) fun wsp => Plans.bind (Plans.of_within (DB.createRealTask_within
    (T := fun t => t == .task) rfl)) fun r => ?_
  · split
    · exact DB.readOnly_firstWorkspace _
    · exact .done _
  · obtain ⟨task, created⟩ := r
    cases created with
    | error e => exact Plans.done _
    | ok _ =>
        refine Plans.bind (Plans.of_readOnly (DB.readOnly_promptWithMemory _ _ _)) fun p => ?_
        have hnote : ∀ {ty ti bo li : String}, Prog.Keeps (Plans P) (DB.createNotification org ty ti bo li) :=
          Plans.of_within (DB.createNotification_within (T := fun t => t == .notification) rfl)
        refine Plans.bind (Plans.hubSend hP) fun sent => ?_
        cases sent with
        | true =>
            exact Plans.bind (Plans.of_within (DB.setTaskStatus_within (T := fun t => t == .task) rfl)) fun _ => hnote
        | false => exact hnote

theorem fireAll_plans (s : Server) (ds : List DB.RoutineDue) (hP : ∀ d ∈ ds, P d.orgID) :
    Prog.Keeps (Plans P) (s.fireAll ds) := by
  induction ds with
  | nil => exact Plans.done _
  | cons d ds ih =>
      refine Plans.bind (fireRoutine_plans s (hP d List.mem_cons_self)) fun _ => ?_
      refine Plans.bind (Plans.of_within (DB.markRoutineRan_within (T := fun t => t == .routine) rfl)) fun _ => ?_
      exact ih fun d hd => hP d (List.mem_cons_of_mem _ hd)

/-- The scheduler requests plans for the orgs of the routines that are due. -/
theorem schedule_plans (s : Server) (w : World) :
    Plans (fun o => ∃ ds d, (DB.dueRoutines.run w).2 = some (.ok ds) ∧ d ∈ ds ∧ d.orgID = o) w (s.schedule.run w).1 := by
  have hrun : ∃ r, DB.dueRoutines.run w = (w, some r) := ⟨_, run_query _ _ w⟩
  obtain ⟨r, hr⟩ := hrun
  have hsched : s.schedule.run w = _ := Prog.run_bind_of_eq hr
  rw [hsched]
  cases r with
  | error e => exact Plans.refl _ w
  | ok ds => exact fireAll_plans s ds (fun d hd => ⟨ds, d, by rw [hr], hd, rfl⟩) w

namespace API

variable {u : Caller} {r : Request}

theorem createAndPlan_plans {org title prompt repo : String} {rs : List String} (hP : P org) :
    Prog.Keeps (Plans P) (a.createAndPlan org title prompt rs repo) := by
  refine Plans.bind (Plans.of_readOnly (DB.readOnly_firstWorkspace _)) fun wsp => ?_
  refine Plans.bind (Plans.of_within (DB.createRealTask_within (T := fun t => t == .task) rfl)) fun c => ?_
  obtain ⟨task, created⟩ := c
  cases created with
  | error e => exact Plans.done _
  | ok _ =>
      refine Plans.bind (Plans.of_readOnly (DB.readOnly_promptWithMemory _ _ _)) fun p => ?_
      refine Plans.bind (Plans.of_readOnly (DB.readOnly_pinnedWorkerForRepo _ _)) fun cfg => ?_
      refine Plans.bind (Plans.hubSend hP) fun sent => ?_
      cases sent with
      | true =>
          exact Plans.bind (Plans.of_within (DB.setTaskStatus_within (T := fun t => t == .task) rfl)) fun _ => Plans.done _
      | false => exact Plans.done _

theorem tasks_plans (hp : matchesPath r.path "/v1/tasks" = true)
    (hP : a.makesTask r = true → P (a.authz r).orgID) : Prog.Keeps (Plans P) (a.tasks (a.authz r) r) := by
  unfold tasks createTask guarded
  dsimp only
  split
  · next hm =>
      split
      · exact Plans.done _
      · split
        · next hc =>
            refine Plans.bind (createAndPlan_plans (hP (by simp [makesTask, hp, hm, hc]))) fun res => ?_
            cases res with
            | error e => exact Plans.done _
            | ok v => exact Plans.bind (Plans.of_within (OrgM.within _ _)) fun _ => Plans.done _
        · exact Plans.done _
  · exact Plans.of_within (OrgM.within _ _)

theorem runRoutine_plans {i : Id} (hP : ∀ q, (w.db .routine).get? (i, 0) = some q → P q.orgId) :
    Plans P w ((a.runRoutine i).run w).1 := by
  simp only [runRoutine, getRoutineAction, Prog.bind_def, Prog.run_bind, run_query]
  cases hq : (w.db .routine).get? (i, 0) with
  | none => exact Plans.refl P w
  | some q =>
      have hplan : Prog.Keeps (Plans P) (a.createAndPlan q.orgId q.action.title q.action.prompt q.action.refs
          q.action.repoId) := createAndPlan_plans (hP q hq)
      refine Plans.bind (Plans.bind hplan fun res => ?_) (fun v => ?_) w
      · cases res <;> exact Plans.done _
      · refine Plans.bind (Plans.of_within (T := fun t => t == .notification) ?_) fun _ => Plans.done _
        exact DB.createNotification_within rfl

theorem routineAction_plans (hp : matchesPath r.path "/v1/routines/" = true)
    (hP : ∀ i q, a.runs r = some i → (w.db .routine).get? (i, 0) = some q → P q.orgId) :
    Plans P w ((a.routineAction (a.authz r) r).run w).1 := by
  unfold routineAction guarded
  unfold runs at hP
  dsimp only at hP ⊢
  split
  · exact Plans.refl P w
  · split
    · exact Plans.of_within (OrgM.within _ _) w
    · split
      · exact Plans.refl P w
      · next action hact =>
          split
          · exact Plans.refl P w
          · next hm =>
              split
              · next hc =>
                  split
                  · next hrun => exact runRoutine_plans fun q hq => hP _ q (by simp [hp, not_not.1 hm, hc, hact, hrun]) hq
                  · split
                    · exact Plans.of_within (OrgM.within _ _) w
                    · split
                      · exact Plans.of_within (OrgM.within _ _) w
                      · exact Plans.refl P w
              · exact Plans.refl P w

/-- The orgs that a request asks a plan for. -/
inductive AsksPlan (a : API) (r : Request) (s : Store) (o : Id) : Prop
  | create (hm : a.makesTask r = true) (ho : (a.authz r).orgID = o)
  | routine (i : Id) (q : Routine) (hi : a.runs r = some i) (hq : (s .routine).get? (i, 0) = some q) (ho : q.orgId = o)

theorem blind_plans : Blind (Plans P) where
  refl := Plans.refl P
  trans := fun _ _ _ h h' => h.trans h'
  memory := fun _ _ => ⟨rfl, .of_eq rfl⟩

theorem serve_plans (a : API) (r : Request) (w : World) :
    Plans (fun o => Admits a r w ∧ AsksPlan a r w.db o) w ((a.serve r).run w).1 := by
  refine serve_rel blind_plans fun ha e he hp m _ => ?_
  cases route_kind he with
  | plain h => exact Plans.of_within (h _ _ _) _
  | devices => exact Plans.of_within (OrgM.within _ _) _
  | tasks =>
      dsimp only [Handler.run]
      exact tasks_plans hp (fun hm => ⟨ha, .create hm rfl⟩) _
  | answer =>
      dsimp only [Handler.run]
      exact Plans.of_foot (interventionAnswer_within hp (fun _ _ _ _ _ => nofun) _)
  | routine =>
      dsimp only [Handler.run]
      exact routineAction_plans (w := { w with http := m }) hp fun i q hi hq => ⟨ha, .routine i q hi hq rfl⟩

end API

end PlanRequests

/-! ## Work -/

/-- The leases an org holds depend on the lease rows alone. -/
theorem Leased.congr {s s' : Store} (h : s' .lease = s .lease) : Leased s' o ↔ Leased s o := by
  rw [Leased, Leased, h]

/-- No lease has been granted or ended where work is pushed. -/
theorem step_lease (a : API) (w : World) (e : Event) :
    Emits (fun p => p.env.isWork = true → p.db .lease = w.db .lease) w (step a w e) := by
  have hfoot : ∀ {T : Tbl → Bool} {w' : World}, T .lease = false → Foot T (fun _ _ => True) w w' →
      Emits (fun p => p.env.isWork = true → p.db .lease = w.db .lease) w w' := fun hT h =>
    h.emits fun p _ ht _ => Table.ext (ht.rows_eq hT fun _ => rfl)
  have hidle : ∀ {T : Tbl → Bool} {w' : World}, Foot T (fun _ e => e.isWork = false) w w' →
      Emits (fun p => p.env.isWork = true → p.db .lease = w.db .lease) w w' := fun h =>
    h.emits fun p hp _ hw => by rw [hp] at hw; cases hw
  refine step_rel (fun w' _ h => .of_eq h) (fun w' w'' h _ hp => ?_) (fun st env _ => ?_) (fun r _ => ?_) (fun _ _ => ?_)
    fun _ _ => ?_
  · obtain ⟨l, hl, hP⟩ := h
    exact ⟨l, by rw [hp, hl], hP⟩
  · by_cases hty : env.type = .LEASE_REQUEST
    · have hgrant : a.server.onMessage st env = a.server.onLeaseRequest st := by rw [Server.onMessage, hty]
      rw [hgrant]
      exact hidle (Server.onLeaseRequest_within (fun _ _ h => h) a.server st w)
    · exact hfoot (T := fun t => messageTables t && decide (t ≠ .lease)) rfl (onMessage_within a.server st env
        (fun t ht hl => by simp [ht, hl]) (fun h => absurd h hty) (fun _ _ _ _ _ => trivial) (fun _ _ _ => trivial) w)
  · exact hfoot rfl (API.serve_foot fun _ => ⟨fun _ _ _ _ => trivial, fun _ _ _ _ _ => trivial, fun _ _ _ _ _ _ _ => trivial⟩)
  · exact hidle (Server.reapOnce_within (fun _ _ h => h) a.server w)
  · exact hfoot rfl (Server.schedule_within a.server (fun _ _ _ _ => trivial) w)

/-- A plan is requested for an org that the event asks work for. -/
theorem step_plans (a : API) (w : World) (e : Event) :
    Emits (fun p => p.env.type = .REQUEST_PLAN → AsksWork a w e p.org) w (step a w e) := by
  have hnone : ∀ {T : Tbl → Bool} {w' : World}, Foot T (fun _ e => e.type ≠ .REQUEST_PLAN) w w' →
      Emits (fun p => p.env.type = .REQUEST_PLAN → AsksWork a w e p.org) w w' := fun h =>
    h.emits fun p hp _ hty => absurd hty hp
  have hidle : ∀ e : Envelope, e.isWork = false → e.type ≠ .REQUEST_PLAN := fun e he hty => by
    simp [Envelope.isWork, hty] at he
  refine step_rel (fun w' _ h => .of_eq h) (fun w' w'' h _ hp => ?_) (fun st env _ => ?_) (fun r hr => ?_) (fun _ _ => ?_)
    fun he hc => ?_
  · obtain ⟨l, hl, hP⟩ := h
    exact ⟨l, by rw [hp, hl], hP⟩
  · exact hnone (onMessage_within (T := messageTables) a.server st env (fun _ h _ => h) (fun _ => rfl)
      (fun _ _ _ _ _ h => by cases h) (fun _ e h => hidle e h) w)
  · refine (API.serve_plans a r w).pushed.mono fun p hp hty => ?_
    obtain ⟨⟨ha, hask⟩, hby⟩ := hp hty
    cases hask with
    | create hm ho => exact .create r hr ha hm hby ho
    | routine i q hi hq ho => exact .routine r i q hr ha hi hq hby ho
  · exact hnone (Server.reapOnce_within (fun _ e h => hidle e h) a.server w)
  · refine (schedule_plans a.server w).pushed.mono fun p hp hty => ?_
    obtain ⟨⟨ds, d, hds, hd, ho⟩, hby⟩ := hp hty
    exact .due ds d he hc hds hd hby ho

/-- Every `DISPATCH_STEP` that is pushed carries a step. -/
theorem step_dispatches (a : API) (w : World) (e : Event) :
    Emits (fun p => p.env.type = .DISPATCH_STEP → ∃ kind k, p.env.dispatches kind k) w (step a w e) := by
  have hfoot : ∀ {T : Tbl → Bool} {w' : World},
      Foot T (fun _ e => e.type = .DISPATCH_STEP → ∃ kind k, e.dispatches kind k) w w' →
      Emits (fun p => p.env.type = .DISPATCH_STEP → ∃ kind k, p.env.dispatches kind k) w w' := fun h =>
    h.emits fun _ hp _ => hp
  have hstep : ∀ i k kind b, ∃ kind' k', (Server.stepEnvelope i k kind b).dispatches kind' k' := fun i k kind b =>
    ⟨kind, k, rfl, _, rfl, rfl, rfl⟩
  have hidle : ∀ e : Envelope, e.isWork = false → e.type = .DISPATCH_STEP → ∃ kind k, e.dispatches kind k :=
    fun e he hty => by simp [Envelope.isWork, hty] at he
  refine step_rel (fun w' _ h => .of_eq h) (fun w' w'' h _ hp => ?_) (fun st env _ => ?_) (fun r _ => ?_) (fun _ _ => ?_)
    fun _ _ => ?_
  · obtain ⟨l, hl, hP⟩ := h
    exact ⟨l, by rw [hp, hl], hP⟩
  · exact hfoot (onMessage_within (T := messageTables) a.server st env (fun _ h _ => h) (fun _ => rfl)
      (fun _ i k kind b _ => hstep i k kind b) (fun _ e h => hidle e h) w)
  · exact hfoot (API.serve_foot fun _ => ⟨fun _ _ _ _ h => (by cases h), fun k _ o i b _ => hstep i k .MERGE b,
      fun _ _ _ _ _ _ _ h => (by cases h)⟩)
  · exact hfoot (Server.reapOnce_within (fun _ e h => hidle e h) a.server w)
  · exact hfoot (Server.schedule_within a.server (fun _ _ _ _ h => by cases h) w)

/-! ## Steps -/

theorem aside_savePlanSteps (sts : List DB.PlanStepIn) : Aside (DB.savePlanSteps k sts) := by
  induction sts with
  | nil => exact .done _
  | cons st sts ih =>
      refine Aside.bind (.newID _) fun i => Aside.bind (.exec fun now s s' x h => ?_) fun r => ?_
      · have hother : ∀ {t : Tbl}, pipeTables t = true → t ≠ .step := fun ht he => by rw [he] at ht; cases ht
        unfold DB.upsertStep at h
        split at h
        · cases h
        · split at h
          · obtain ⟨u, hu, heq⟩ := map_eq_ok h
            cases heq
            exact fun t ht => update_other hu (hother ht)
          · obtain ⟨u, hu, heq⟩ := map_eq_ok h
            cases heq
            exact fun t ht => insert_other hu (hother ht)
      · cases r with
        | error e => exact .done _
        | ok _ => exact ih

/-- A planned task whose repository has no clone URL is not worked on. -/
theorem onPlanResult_quiet {st : Stream} {pr : PlanResult}
    (h : ∀ tr, DB.taskRepo w.db pr.taskId = some tr → tr.cloneURL = "") :
    ((Server.onPlanResult st pr).run w).1.pushed = w.pushed := by
  obtain ⟨w1, r, hrun, h1⟩ := (At.start w).aside (aside_savePlanSteps (k := pr.taskId)
    (pr.steps.map fun p => { idx := p.idx, type := Server.stepKindToType p.kind, label := p.label : DB.PlanStepIn }))
  simp only [Server.onPlanResult, DB.savePlan, Prog.bind_def, Prog.bind_assoc, Prog.run_bind_of_eq hrun]
  cases r with
  | error e => exact h1.pushed
  | ok _ =>
      obtain ⟨w2, x, hrun2, h2⟩ := h1.updateTask (k := pr.taskId) "SavePlan"
        (fun t => { t with status := .in_review, tokensUsed := pr.tokensUsed }) (fun _ => rfl) fun _ => rfl
      rw [Prog.run_bind_of_eq hrun2]
      cases x with
      | error e => exact h2.pushed
      | ok _ =>
          have hrepo : DB.taskRepo w2.db pr.taskId = DB.taskRepo w.db pr.taskId := by
            rw [h2.db.taskRepo]
            refine taskRepo_setTask ?_ ?_ ?_ _ <;> exact fun _ => rfl
          simp only [Prog.run_bind_of_eq (DB.run_getTaskRepo pr.taskId), hrepo]
          cases htr : DB.taskRepo w.db pr.taskId with
          | none => exact h2.pushed
          | some tr =>
              simp only [h tr htr, if_true]
              exact h2.pushed

theorem Emits.and {P Q : Push → Prop} (h : Emits P w w') (h' : Emits Q w w') : Emits (fun p => P p ∧ Q p) w w' := by
  obtain ⟨l, hl, hP⟩ := h
  obtain ⟨l', hl', hQ⟩ := h'
  have heq : l = l' := List.append_cancel_right (hl.symm.trans hl')
  exact ⟨l, hl, fun p hp => ⟨hP p hp, hQ p (heq ▸ hp)⟩⟩

/-- The step that follows an outcome is dispatched to the org of the task's repository. -/
theorem Becomes.dispatches {o : Outcome} (h : Becomes w k o w') :
    Emits (fun p => ∃ kind, o.next = some kind ∧ CanSend w.hub o.db k ∧
      p.org = ((DB.taskRepo o.db k).map (·.orgID)).getD "") w w' := by
  cases hn : o.next with
  | none => exact .of_eq (h.quiet (.inl hn))
  | some kind =>
      by_cases hc : CanSend w.hub o.db k
      · obtain ⟨p, hp, hd⟩ := h.sends kind hn hc
        refine ⟨[p], hp, fun q hq => ?_⟩
        rw [List.mem_singleton.1 hq]
        exact ⟨kind, rfl, hc, hd.org⟩
      · exact .of_eq (h.quiet (.inr hc))

/-- A step is dispatched to an org that the event asks work for. -/
theorem step_asks (a : API) (w : World) (e : Event) :
    Emits (fun p => (∃ kind k, p.env.dispatches kind k) → AsksWork a w e p.org) w (step a w e) := by
  cases step_effect a w e with
  | result st env k r he hr h =>
      exact h.dispatches.mono fun p ⟨kind, hn, hc, ho⟩ _ => .result st env k r kind he hr hn hc ho.symm
  | snapshot st env k he hk h =>
      exact h.dispatches.mono fun p ⟨kind, hn, hc, ho⟩ _ => .snapshot st env k kind he hk hn hc ho.symm
  | approve r k hr ha hk h =>
      exact h.dispatches.mono fun p ⟨_, _, hc, ho⟩ _ => .approve r k hr ha hk hc ho.symm
  | reject r k hr ha hk h => exact h.dispatches.mono fun p ⟨kind, hn, _⟩ _ => by cases hn
  | plan st env k he hk h hf =>
      by_cases hurl : ∃ tr, DB.taskRepo w.db k = some tr ∧ tr.cloneURL ≠ ""
      · refine h.pushed.mono fun p hp ⟨kind, i, hd⟩ => ?_
        exact .plan st env k he hk hurl (hp kind i hd).2.2.symm
      · refine .of_eq ?_
        rw [step_of_hears he, World.goroutine_pushed]
        unfold Envelope.plans at hk
        split at hk
        · next pr hty hpl =>
            cases hk
            have hmsg : a.server.onMessage st env = Server.onPlanResult st pr := by rw [Server.onMessage, hty, hpl]
            rw [hmsg]
            refine onPlanResult_quiet fun tr htr => ?_
            by_contra hne
            exact hurl ⟨tr, htr, hne⟩
        · cases hk
  | calm h hf => exact h.pushed.mono fun p hp ⟨kind, i, hd⟩ => absurd hd (hp kind i)

/-- An event that asks for work only for orgs that hold a lease pushes work only for those. -/
theorem worksLeased_step (h : AsksLeased a w e) : WorksLeased a w e := by
  have hall := ((step_lease a w e).and (step_plans a w e)).and ((step_dispatches a w e).and (step_asks a w e))
  refine hall.mono fun p ⟨⟨hl, hplan⟩, hshape, hdisp⟩ hw => ?_
  have hask : AsksWork a w e p.org := by
    rw [Envelope.isWork, Bool.or_eq_true, decide_eq_true_eq, decide_eq_true_eq] at hw
    rcases hw with hty | hty
    · exact hplan hty
    · exact hdisp (hshape hty)
  exact (Leased.congr (hl hw)).2 (h p.org hask)

/-! ## Runs -/

/-- In every run whose events ask for work only for orgs that hold a lease, work is put on an org's
channel only while the org holds a lease. -/
theorem work_leased (a : API) (w : World) (es : List Event) (h : Runs.Meets (step a) (AsksLeased a) w es) :
    Runs.Meets (step a) (WorksLeased a) w es := h.mono fun _ _ => worksLeased_step

/-! ## A routine that is due -/

namespace Sample

/-- The installation with a lease of the org. -/
def leased : World :=
  { db := Store.ofRows (plans ++ rows ++
      [⟨.workerInstance, { id := "wrk_a", orgId := "org_a", workspaceId := "wsp_a" }⟩,
        ⟨.lease, { id := "lse_a", orgId := "org_a", workerInstanceId := "wrk_a" }⟩]) }

/-- The scheduler ticks while the org's executor is connected. -/
def dueRun : List Event := [.connect "s1", .sched]

end Sample

/-- The scheduler asks an org without a lease for a plan. -/
theorem unleased_work : ¬ Runs.Meets (step {}) (WorksLeased {}) Sample.world Sample.dueRun := by
  rintro ⟨-, hsched, -⟩
  have hwork : (Runs.exec (step {}) Sample.world Sample.dueRun).pushed.any (fun p =>
      p.env.isWork && (p.db .lease).rows.isEmpty) = true ∧
      (step {} Sample.world (.connect "s1")).pushed.isEmpty = true := by decide +kernel
  obtain ⟨p, hp, hbool⟩ := List.any_eq_true.1 hwork.1
  rw [Bool.and_eq_true, List.isEmpty_iff] at hbool
  rcases hsched.mem hp with hleased | hold
  · obtain ⟨l, hl, -⟩ := hleased hbool.1
    rw [hbool.2] at hl
    cases hl
  · rw [List.isEmpty_iff.1 hwork.2] at hold
    cases hold

theorem AsksLeased.of_quiet (hh : w.hears e = none) (hs : w.serves e = none) (he : e ≠ .sched) : AsksLeased a w e := by
  intro o h
  cases h with
  | result st env k r kind he => rw [hh] at he; cases he
  | snapshot st env k kind he => rw [hh] at he; cases he
  | approve r k hr => rw [hs] at hr; cases hr
  | plan st env k he => rw [hh] at he; cases he
  | create r hr => rw [hs] at hr; cases hr
  | routine r i q hr => rw [hs] at hr; cases hr
  | due ds d hsched => exact absurd hsched he

theorem AsksLeased.sched (h : ∀ q ∈ (w.db .routine).rows, Leased w.db q.orgId) : AsksLeased a w .sched := by
  intro o h'
  cases h' with
  | result st env k r kind he => cases he
  | snapshot st env k kind he => cases he
  | approve r k hr => cases hr
  | plan st env k he => cases he
  | create r hr => cases hr
  | routine r i q hr => cases hr
  | due ds d _ _ hds hd _ ho =>
      simp only [DB.dueRoutines, run_query] at hds
      split at hds
      · cases hds
        obtain ⟨q, hq, rfl⟩ := List.mem_map.1 hd
        exact ho ▸ h q (List.mem_reverse.1 (List.mem_of_mem_filter hq))
      · cases hds

theorem work_leased_sample : Runs.Meets (step {}) (WorksLeased {}) Sample.leased Sample.dueRun := by
  refine work_leased {} Sample.leased Sample.dueRun ⟨.of_quiet rfl rfl nofun, .sched ?_, trivial⟩
  unfold Leased
  decide +kernel

end Apifor
