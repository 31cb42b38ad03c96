import Apifor.Lemmas.Screens
import Apifor.System

/-!
# Requests

The middleware and the mux change nothing but the memory of the REST side, so what a request does is
what its handler does. Footprints and task flows of the handlers that are not programs of one org.
-/

namespace Apifor

namespace API

variable {a : API} {u : Caller} {r : Request}

/-! ## From the handler to the server -/

/-- The program only counts, caches and answers. -/
def OnlyMemory {α : Type} (c : Cmd α) : Prop :=
  ∀ w, ∃ m x, m.ghStates = w.http.ghStates ∧ c.run w = ({ w with http := m }, some x)

theorem OnlyMemory.done {α : Type} (x : α) : OnlyMemory (.done x : Cmd α) := fun w => ⟨w.http, x, rfl, rfl⟩

theorem OnlyMemory.bind {α β : Type} {c : Cmd α} {g : α → Cmd β} (hc : OnlyMemory c) (hg : ∀ x, OnlyMemory (g x)) :
    OnlyMemory (c.bind g) := fun w => by
  obtain ⟨m, x, hm, hx⟩ := hc w
  obtain ⟨m', y, hm', hy⟩ := hg x { w with http := m }
  exact ⟨m', y, hm'.trans hm, by rw [Prog.run_bind_of_eq hx, hy]⟩

theorem OnlyMemory.httpStep {α : Type} {f : Time → HttpMemory → HttpMemory × α}
    (hf : ∀ now m, (f now m).1.ghStates = m.ghStates) : OnlyMemory (httpStep f) := fun w => ⟨_, _, hf w.now w.http, rfl⟩

theorem OnlyMemory.query {α : Type} (n : String) (f : Time → Store → Except DbErr α) : OnlyMemory (query n f) :=
  fun w => ⟨w.http, _, rfl, run_query n f w⟩

theorem onlyMemory_unixNow : OnlyMemory unixNow := fun w => ⟨w.http, _, rfl, rfl⟩

theorem onlyMemory_rpm (org : Id) : OnlyMemory (rpm org) := by
  refine OnlyMemory.bind onlyMemory_unixNow fun unix => OnlyMemory.bind (.httpStep fun _ _ => rfl) fun c => ?_
  cases c with
  | some n => exact .done _
  | none =>
      refine OnlyMemory.bind (OnlyMemory.bind (.query _ _) fun p => ?_) fun p => .httpStep fun _ _ => rfl
      cases p <;> exact .done _

theorem onlyMemory_allow (org : Id) : OnlyMemory (allow org) := by
  refine OnlyMemory.bind (onlyMemory_rpm org) fun limit => ?_
  split
  · exact .done _
  · exact OnlyMemory.bind onlyMemory_unixNow fun unix => .httpStep fun _ _ => rfl

theorem onlyMemory_refuse (u : Caller) (r : Request) : OnlyMemory (a.refuse u r) := by
  unfold refuse
  split
  · exact .done _
  · split
    · refine OnlyMemory.bind (onlyMemory_allow _) fun ok => ?_
      cases ok with
      | true => exact .done _
      | false => exact OnlyMemory.bind (.httpStep fun _ _ => rfl) fun _ => .done _
    · exact .done _

/-- A reflexive and transitive relation that does not look at the memory of the REST side. -/
structure Blind (R : World → World → Prop) : Prop where
  refl : ∀ w, R w w
  trans : ∀ w w' w'', R w w' → R w' w'' → R w w''
  memory : ∀ w m, R w { w with http := m }

theorem longest_mem {l : List (String × Handler)} {e : String × Handler} (h : longest l = some e) : e ∈ l := by
  induction l with
  | nil => cases h
  | cons x xs ih =>
      simp only [longest] at h
      split at h
      · cases h
        exact List.mem_cons_self
      · next e' he' =>
          split at h
          · cases h
            exact List.mem_cons_self
          · cases h
            exact List.mem_cons_of_mem _ (ih he')

variable {R : World → World → Prop} {w : World}

theorem mux_rel (hr : ∀ w, R w w)
    (h : ∀ e ∈ a.routes, matchesPath r.path e.1 = true → R w ((e.2.run a u r).run w).1) :
    R w ((a.mux u r).run w).1 := by
  unfold mux
  dsimp only
  split
  · next e he =>
      obtain ⟨hmem, hmatch⟩ := List.mem_filter.1 (longest_mem he)
      split
      · next hclean =>
          rw [hclean] at hmatch
          exact h e hmem hmatch
      · exact hr w
  · split_ifs <;> exact hr w

/-- The rest of `serve` after the middleware. -/
def pass (a : API) (r : Request) : Option Response → Cmd Response
  | some resp => (recordStatus resp.code).bind fun _ => .done resp
  | none => (a.cors (a.authz r) r).bind fun resp => (recordStatus resp.code).bind fun _ => .done resp

theorem serve_eq (a : API) (r : Request) :
    a.serve r =
      (countMetric fun k => { k with requests := k.requests + 1 }).bind fun _ =>
        (a.refuse (a.authz r) r).bind (a.pass r) := by
  refine congrArg (Prog.bind _) (funext fun _ => congrArg (Prog.bind _) (funext fun o => ?_))
  cases o <;> rfl

/-- The middleware lets the request through to the mux. -/
def Admits (a : API) (r : Request) (w : World) : Prop :=
  r.method ≠ "OPTIONS" ∧
    (((countMetric fun k => { k with requests := k.requests + 1 }).bind fun _ => a.refuse (a.authz r) r).run w).2 =
      some none

instance : Decidable (Admits a r w) :=
  have (x : Option (Option Response)) : Decidable (x = some none) :=
    match x with
    | some none => .isTrue rfl
    | some (some _) => .isFalse nofun
    | none => .isFalse nofun
  inferInstanceAs (Decidable (_ ∧ _))

/-- What a request does is what the handler of its path does. -/
theorem serve_rel (hR : Blind R)
    (h : Admits a r w → ∀ e ∈ a.routes, matchesPath r.path e.1 = true → ∀ m, m.ghStates = w.http.ghStates →
      R { w with http := m } ((e.2.run a (a.authz r) r).run { w with http := m }).1) :
    R w ((a.serve r).run w).1 := by
  have hstatus : ∀ (w' : World) (resp : Response),
      R w' (((recordStatus resp.code).bind fun _ => (.done resp : Cmd Response)).run w').1 :=
    fun w' resp => hR.memory w' _
  have hrefuse : OnlyMemory ((countMetric fun k => { k with requests := k.requests + 1 }).bind
      fun _ => a.refuse (a.authz r) r) := .bind (.httpStep fun _ _ => rfl) fun _ => onlyMemory_refuse _ _
  obtain ⟨m, o, hstates, ho⟩ := hrefuse w
  rw [serve_eq, ← Prog.bind_assoc, Prog.run_bind_of_eq ho]
  refine hR.trans _ _ _ (hR.memory w m) ?_
  cases o with
  | some resp => exact hstatus _ _
  | none =>
      have hcors : R { w with http := m } ((a.cors (a.authz r) r).run { w with http := m }).1 := by
        unfold cors
        split
        · exact hR.refl _
        · next hm => exact mux_rel hR.refl fun e he hp => h ⟨hm, by rw [ho]⟩ e he hp m hstates
      simp only [pass, Prog.run_bind]
      cases (Prog.run (a.cors (a.authz r) r) { w with http := m }).2 with
      | none => exact hcors
      | some resp => exact hR.trans _ _ _ hcors (hstatus _ _)

theorem serve_keeps (hR : Blind R)
    (h : ∀ e ∈ a.routes, matchesPath r.path e.1 = true → Prog.Keeps R (e.2.run a (a.authz r) r)) :
    Prog.Keeps R (a.serve r) := fun _ => serve_rel hR fun _ e he hm _ _ => h e he hm _

/-! ## What a request asks for -/

/-- The task that an approving answer names. -/
def approves (a : API) (r : Request) : Option Id :=
  if matchesPath r.path "/v1/interventions/" = true ∧ r.method = "POST" ∧ can (a.authz r).role "write" = true ∧
      (Json.decodeFirst answerFields r.body {}).1.decision = "approve" then
    idBetween r.path "/v1/interventions/" "/answer"
  else none

/-- The request makes a task of the caller's org. -/
def makesTask (a : API) (r : Request) : Bool :=
  matchesPath r.path "/v1/tasks" && decide (r.method = "POST") && can (a.authz r).role "write"

/-- The routine that the request runs. -/
def runs (a : API) (r : Request) : Option Id :=
  let (id, action) := splitAction (Text.trimPrefix r.path "/v1/routines/")
  if matchesPath r.path "/v1/routines/" = true ∧ r.method = "POST" ∧ can (a.authz r).role "write" = true ∧
      action = some "run" then
    some id
  else none

/-! ## Footprints -/

/-- The tables that requests write. -/
def restTables : Tbl → Bool
  | .lease | .workerInstance | .usageEvent | .workerHoursCounter | .step | .ciRun | .qaReport | .planCatalog
  | .agentProfile => false
  | _ => true

variable {K : Id → Envelope → Prop} {T : Tbl → Bool} {B : Id} {α : Type}

/-- The tables that requests write, but those of tasks. -/
def quietTables : Tbl → Bool
  | .task | .pullRequest => false
  | t => restTables t

/-- The tables that requests write, but those of tasks and devices. -/
def plainTables : Tbl → Bool
  | .device => false
  | t => quietTables t

/-- The tables that the screens of tasks and routines write. -/
def workTables : Tbl → Bool
  | .task | .routine | .auditLog | .notification => true
  | _ => false

/-- The tables that a human's answer writes. -/
def answerTables : Tbl → Bool
  | .memory => true
  | t => DB.reviews t

/-- With the tasks, but not their pull requests. -/
def taskTables : Tbl → Bool
  | .pullRequest => false
  | t => restTables t

theorem within_plain (hT : ∀ t, T t = true → plainTables t = true) (x : OrgM T B α) (rls : Bool) :
    Within plainTables K (x.cmd rls) := (x.within rls).mono hT fun _ _ h => h

theorem plain_quiet : ∀ t, plainTables t = true → quietTables t = true := by
  intro t
  cases t <;> decide

theorem quiet_task : ∀ t, quietTables t = true → taskTables t = true := by
  intro t
  cases t <;> decide

theorem task_rest : ∀ t, taskTables t = true → restTables t = true := by
  intro t
  cases t <;> decide

theorem work_task : ∀ t, workTables t = true → taskTables t = true := by
  intro t
  cases t <;> decide

theorem Within.task {c : Cmd α} (h : Within quietTables K c) : Within taskTables K c :=
  h.mono quiet_task fun _ _ h => h

theorem Within.rest {c : Cmd α} (h : Within quietTables K c) : Within restTables K c :=
  (Within.task h).mono task_rest fun _ _ h => h

theorem settings_plain : ∀ t, settings t = true → plainTables t = true := by
  intro t
  cases t <;> decide

theorem devices_quiet : ∀ t, DB.deviceTables t = true → quietTables t = true := by
  intro t
  cases t <;> decide

theorem plan_plain : ∀ t, DB.planTables t = true → plainTables t = true := by
  intro t
  cases t <;> decide

theorem onboarding_plain : ∀ t, DB.onboarding t = true → plainTables t = true := by
  intro t
  cases t <;> decide

theorem within_settings (x : OrgM settings B α) (rls : Bool) : Within plainTables K (x.cmd rls) :=
  within_plain settings_plain x rls

theorem answer_rest : ∀ t, answerTables t = true → restTables t = true := by
  intro t
  cases t <;> decide

theorem within_reviews (x : OrgM DB.reviews B α) (rls : Bool) : Within answerTables K (x.cmd rls) :=
  (x.within rls).mono (fun t => by cases t <;> decide) fun _ _ h => h

theorem createAndPlan_within (ht : T .task = true) {org title prompt repo : String} {rs : List String}
    (hK : ∀ k p, K org (Server.requestPlan k p rs)) : Within T K (a.createAndPlan org title prompt rs repo) := by
  refine Within.bind (.ofReadOnly (DB.readOnly_firstWorkspace _)) fun wsp => ?_
  refine Within.bind (DB.createRealTask_within ht) fun c => ?_
  obtain ⟨task, created⟩ := c
  cases created with
  | error e => exact .done _
  | ok _ =>
      refine Within.bind (.ofReadOnly (DB.readOnly_promptWithMemory _ _ _)) fun p => ?_
      refine Within.bind (.ofReadOnly (DB.readOnly_pinnedWorkerForRepo _ _)) fun cfg => ?_
      refine Within.bind (.hubSend (hK _ _)) fun sent => ?_
      cases sent with
      | true => exact Within.bind (DB.setTaskStatus_within ht) fun _ => .done _
      | false => exact .done _

theorem createTask_within (hK : can u.role "write" = true → ∀ k p rs, K u.orgID (Server.requestPlan k p rs)) :
    Within workTables K (a.createTask u r) := by
  unfold createTask guarded
  dsimp only
  split
  · exact .done _
  · split
    · next hc =>
        refine Within.bind (createAndPlan_within rfl fun k p => hK hc k p _) fun res => ?_
        cases res with
        | error e => exact .done _
        | ok v =>
            refine Within.bind ((DB.writeAudit_each (.touches rfl fun h => ?_)).within _) fun _ => .done _
            cases h
    · exact .done _

theorem dispatchMerge_within {task : Id} (hK : ∀ o i b, K o (Server.stepEnvelope i task .MERGE b)) :
    Within T K (dispatchMerge task) := by
  refine Within.bind (.ofReadOnly (DB.readOnly_getTaskRepo task)) fun res => ?_
  rcases res with e | tr
  · exact .done _
  · cases tr with
    | none => exact .done _
    | some tr =>
        dsimp only
        split
        · exact .done _
        · exact Within.bind (.newID _) fun i => Within.bind (.hubSend (hK _ _ _)) fun _ => .done _

theorem approveAnswer_within {task : Id} (hK : ∀ o i b, K o (Server.stepEnvelope i task .MERGE b)) :
    Within answerTables K (a.approveAnswer u task) := by
  refine Within.bind (within_reviews _ _) fun res => ?_
  cases res with
  | error e => exact .done _
  | ok _ => exact Within.bind (dispatchMerge_within hK) fun _ => .done _

theorem answerTask_within {task : Id}
    (hK : (Json.decodeFirst answerFields r.body {}).1.decision = "approve" →
      ∀ o i b, K o (Server.stepEnvelope i task .MERGE b)) : Within answerTables K (a.answerTask u r task) := by
  unfold answerTask
  dsimp only
  refine Within.bind ((rememberAnswer_each (.touches rfl nofun)).within _) fun _ => ?_
  split
  · next hd => exact approveAnswer_within (hK hd)
  · split
    · exact within_reviews _ _
    · exact .done _

theorem interventionAnswer_within (hp : matchesPath r.path "/v1/interventions/" = true)
    (hK : ∀ task, a.approves r = some task → ∀ o i b, K o (Server.stepEnvelope i task .MERGE b)) :
    Within answerTables K (a.interventionAnswer (a.authz r) r) := by
  unfold interventionAnswer guarded
  split
  · exact .done _
  · next task hid =>
      split
      · exact .done _
      · next hm =>
          split
          · next hc => exact answerTask_within fun hd => hK task (by rw [approves, if_pos ⟨hp, not_not.1 hm, hc, hd⟩, hid])
          · exact .done _

theorem runRoutine_pace (ht : T .task = true) (hn : T .notification = true) {id : Id}
    (hK : ∀ q, (w.db .routine).get? (id, 0) = some q → ∀ k p rs, K q.orgId (Server.requestPlan k p rs)) :
    Pace T K w ((a.runRoutine id).run w).1 := by
  simp only [runRoutine, getRoutineAction, Prog.bind_def, Prog.run_bind, run_query]
  cases hq : (w.db .routine).get? (id, 0) with
  | none => exact Pace.refl w
  | some q =>
      have hplan : Within T K (a.createAndPlan q.orgId q.action.title q.action.prompt q.action.refs
          q.action.repoId) := createAndPlan_within ht fun k p => hK q hq k p _
      refine Within.run (Within.bind (Within.bind hplan fun res => ?_) fun v => ?_) w
      · cases res <;> exact .done _
      · exact Within.bind (DB.createNotification_within hn) fun _ => .done _

theorem routineAction_pace (hp : matchesPath r.path "/v1/routines/" = true)
    (hK : ∀ id q, a.runs r = some id → (w.db .routine).get? (id, 0) = some q →
      ∀ k p rs, K q.orgId (Server.requestPlan k p rs)) :
    Pace workTables K w ((a.routineAction (a.authz r) r).run w).1 := by
  unfold routineAction guarded
  unfold runs at hK
  dsimp only at hK ⊢
  split
  · exact Pace.refl w
  · split
    · exact ((dropRoutine_each (.touches (W := workTables) rfl nofun)).within _).run w
    · split
      · exact Pace.refl w
      · next action hact =>
          split
          · exact Pace.refl w
          · next hm =>
              split
              · next hc =>
                  split
                  · next hrun =>
                      refine runRoutine_pace rfl rfl fun q hq => hK _ q ?_ hq
                      rw [if_pos ⟨hp, not_not.1 hm, hc, by rw [hact, hrun]⟩]
                  · split
                    · exact ((setRoutine_each (.touches (W := workTables) rfl nofun)).within _).run w
                    · split
                      · exact ((setRoutine_each (.touches (W := workTables) rfl nofun)).within _).run w
                      · exact Pace.refl w
              · exact Pace.refl w

theorem githubOAuthCallback_within (hT : T .connection = true) : Within T K (a.githubOAuthCallback r) := by
  unfold githubOAuthCallback
  split
  · exact .done _
  · have htake : Within T K (Prog.lift (takeState (r.get "state")) : Cmd (Option GhState)) :=
      .memory fun w => ⟨(takeState (r.get "state") w).1.http, rfl, rfl, rfl⟩
    refine htake.bind fun st => Within.bind .timeNow fun now => ?_
    cases st with
    | none => exact .done _
    | some st =>
        dsimp only
        split
        · exact .done _
        · exact (finishOAuth_each (.touches hT nofun)).within _

theorem login_within : Within T K (a.login r) := by
  unfold login
  dsimp only
  split
  · exact .done _
  · refine Within.bind (.query _ _) fun res => ?_
    split
    · exact .done _
    · split
      · exact .done _
      · split
        · exact .done _
        · refine Within.bind .timeNow fun now => ?_
          split <;> exact .done _

theorem register_within : Within plainTables K (a.register r) := by
  unfold register
  dsimp only
  split
  · exact .done _
  · refine Within.bind (.query _ _) fun res => ?_
    split
    · exact .done _
    · refine Within.bind ?_ fun res => ?_
      · refine Within.bind (.newID _) fun _ => Within.bind (.newID _) fun _ => Within.bind (.newID _) fun _ => ?_
        refine Within.bind (.newID _) fun _ => Within.bind (.newID _) fun _ => ?_
        refine Within.bind (within_plain onboarding_plain _ _) fun res => ?_
        cases res <;> exact .done _
      · cases res with
        | error e => exact .done _
        | ok v => exact Within.bind .timeNow fun _ => .done _

theorem upsertSubscription_within {org plan customer sub : String} :
    Within plainTables K (DB.upsertSubscription org plan customer sub) := by
  refine Within.bind (Within.exec fun _ s s' _ h => ?_) fun res => ?_
  · split at h
    · cases h
    · next p _ =>
        cases hs : DB.setOrgPlan org p s with
        | error e => rw [hs] at h; cases h
        | ok s1 => rw [hs] at h; cases h; exact DB.setOrgPlan_touches rfl hs
  · cases res with
    | error e => exact .done _
    | ok p =>
        refine Within.bind (Within.exec fun _ s s' _ h => Touches.update rfl h) fun res => ?_
        rcases res with e | n
        · exact .done _
        · cases n with
          | zero => exact Within.bind (.newID _) fun _ => DB.insertRow_within rfl
          | succ n => exact .done _

theorem setSubscriptionPastDue_within {org : Id} {t : Time} : Within plainTables K (DB.setSubscriptionPastDue org t) :=
  Within.execUpdate (t := .subscription) (p := fun _ b => decide (b.orgId = org))
    (f := fun _ b => { b with status := .past_due, graceUntil := some t }) (fun _ _ => rfl) rfl

theorem setSubscriptionActive_within {org : Id} : Within plainTables K (DB.setSubscriptionActive org) :=
  Within.execUpdate (t := .subscription) (p := fun _ b => decide (b.orgId = org))
    (f := fun _ b => { b with status := .active, graceUntil := none }) (fun _ _ => rfl) rfl

theorem createInvoice_within {org inv cur st url : String} {n : Int} :
    Within plainTables K (DB.createInvoice org inv n cur st url) :=
  Within.bind (.newID _) fun _ => DB.insertRow_within rfl

theorem applyEvent_within {org : Id} {ev : StripeEvent} : Within plainTables K (a.applyEvent org ev) := by
  unfold applyEvent
  dsimp only
  split
  · exact Within.bind upsertSubscription_within fun _ => .done _
  · split
    · exact Within.bind .timeNow fun now => Within.bind setSubscriptionPastDue_within fun _ => .done _
    · split
      · exact Within.bind setSubscriptionActive_within fun _ => Within.bind createInvoice_within fun _ => .done _
      · split
        · exact Within.bind (DB.downgradeToFree_within rfl rfl) fun _ => .done _
        · exact .done _

theorem eventOrg_readOnly (o : StripeObject) : DB.ReadOnly (eventOrg o) := by
  unfold eventOrg
  split
  · exact .done _
  · split
    · exact .done _
    · refine DB.ReadOnly.bind ?_ fun res => ?_
      · unfold DB.orgByStripeCustomer
        split
        · exact .done _
        · exact .query _ _
      · cases res <;> exact .done _

theorem webhook_within : Within plainTables K (a.webhook r) := by
  refine Within.bind .timeNow fun now => ?_
  split
  · exact .done _
  · dsimp only
    split
    · exact .done _
    · refine Within.bind (.ofReadOnly (eventOrg_readOnly _)) fun org => ?_
      split
      · exact .done _
      · exact Within.bind applyEvent_within fun _ => .done _

/-! ### The superadmin -/

theorem superadmin_within {h : Cmd Response} (hh : Within T K h) : Within T K (superadmin u h) := by
  unfold superadmin
  split
  · exact hh
  · exact .done _

theorem adminScreen_within {n : String} {f : Store → Response} : Within T K (adminScreen u n f) := by
  refine superadmin_within (Within.bind (.query _ _) fun res => ?_)
  cases res <;> exact .done _

theorem adminAnswer_within {res : Except DbErr Unit} {audit : Cmd Unit} {v : Val} (h : Within plainTables K audit) :
    Within plainTables K (adminAnswer res audit v) := by
  cases res with
  | error e => exact .done _
  | ok _ => exact Within.bind h fun _ => .done _

theorem adminPlan_within {org : Id} : Within plainTables K (a.adminPlan u r org) := by
  unfold adminPlan
  dsimp only
  split
  · exact .done _
  · split
    · exact .done _
    · refine Within.bind (Within.exec fun _ s s' _ h => ?_) fun res => adminAnswer_within (within_settings _ _)
      split at h
      · cases h
      · next p _ =>
          cases hs : DB.setOrgPlan org p s with
          | error e => rw [hs] at h; cases h
          | ok s1 => rw [hs] at h; cases h; exact DB.setOrgPlan_touches rfl hs

theorem adminSuspend_within {org : Id} {b : Bool} : Within plainTables K (a.adminSuspend u org b) := by
  have hexec : Within plainTables K (adminSuspendOrg org b) :=
    Within.execUpdate (t := .org) (p := fun _ o => decide (o.id = org)) (f := fun _ o => { o with suspended := some b })
      (fun _ _ => rfl) rfl
  exact hexec.bind fun res => adminAnswer_within (within_settings _ _)

theorem adminOrgAction_within : Within plainTables K (a.adminOrgAction u r) := by
  refine superadmin_within ?_
  dsimp only
  split_ifs
  · exact .done _
  · exact adminScreen_within
  · exact .done _
  · exact .done _
  · exact adminPlan_within
  · exact adminSuspend_within
  · exact adminSuspend_within
  · exact .done _

theorem adminUserStatus_within {id : Id} {action : String} {st : UserStatus} :
    Within plainTables K (a.adminUserStatus u id action st) := by
  have hexec : Within plainTables K (adminSetUserStatus id st) :=
    Within.execUpdate (t := .appUser) (p := fun _ v => decide (v.id = id)) (f := fun _ v => { v with status := st })
      (fun _ _ => rfl) rfl
  unfold adminUserStatus
  split
  · exact .done _
  · refine hexec.bind fun res => adminAnswer_within (Within.bind (.query _ _) fun org => ?_)
    cases org with
    | error e => exact .done _
    | ok org =>
        dsimp only
        split
        · exact within_settings _ _
        · exact .done _

theorem adminUserAction_within : Within plainTables K (a.adminUserAction u r) := by
  refine superadmin_within ?_
  split
  · exact .done _
  · dsimp only
    split_ifs
    · exact .done _
    · exact adminUserStatus_within
    · exact adminUserStatus_within
    · exact .done _

/-- `K` allows what the request may make the cérebro push. -/
structure Sends (K : Id → Envelope → Prop) (a : API) (r : Request) (s : Store) : Prop where
  plan : a.makesTask r = true → ∀ k p rs, K (a.authz r).orgID (Server.requestPlan k p rs)
  merge : ∀ task, a.approves r = some task → ∀ o i b, K o (Server.stepEnvelope i task .MERGE b)
  routine : ∀ id q, a.runs r = some id → (s .routine).get? (id, 0) = some q →
    ∀ k p rs, K q.orgId (Server.requestPlan k p rs)

theorem metricsHandler_within : Within T K metricsHandler := by
  refine Within.bind (Within.memory fun w => ⟨w.http, rfl, rfl, rfl⟩) fun m => Within.bind (.query _ _) fun res => ?_
  cases res <;> exact .done _

theorem tasks_within (hp : matchesPath r.path "/v1/tasks" = true)
    (hK : a.makesTask r = true → ∀ k p rs, K (a.authz r).orgID (Server.requestPlan k p rs)) :
    Within workTables K (a.tasks (a.authz r) r) := by
  unfold tasks
  split
  · next hm => exact createTask_within fun hc => hK (by simp [makesTask, hp, hm, hc])
  · exact listing_each.within _

theorem blind_foot : Blind (Foot T K) where
  refl := Foot.refl
  trans := fun _ _ _ => Foot.trans
  memory := fun w m => ⟨Touches.refl _, rfl, rfl, rfl, fun _ h => h, [], rfl, fun _ h => by cases h⟩

/-- The routes by what their handlers may do: all but three leave the tasks alone and push nothing, and
one of those writes devices. -/
inductive RouteKind (a : API) : String × Handler → Prop
  | plain {e : String × Handler} (h : ∀ K u r, Within plainTables K (e.2.run a u r)) : RouteKind a e
  | devices : RouteKind a ("/v1/devices/", .own DB.deviceTables deviceRevoke)
  | tasks : RouteKind a ("/v1/tasks", .free a.tasks)
  | answer : RouteKind a ("/v1/interventions/", .free a.interventionAnswer)
  | routine : RouteKind a ("/v1/routines/", .free a.routineAction)

theorem route_kind {e : String × Handler} (he : e ∈ a.routes) : RouteKind a e := by
  rcases List.mem_append.1 he with he | he
  · obtain ⟨s, -, rfl⟩ := List.mem_map.1 he
    exact .plain fun _ _ _ => within_settings _ _
  · simp only [List.mem_cons, List.not_mem_nil, or_false] at he
    rcases he with rfl | rfl | rfl | rfl | rfl | rfl | rfl | rfl | rfl | rfl | rfl | rfl | rfl | rfl | rfl | rfl |
      rfl | rfl | rfl
    · exact .plain fun _ _ _ => .done _
    · exact .plain fun _ _ _ => metricsHandler_within
    · exact .plain fun _ _ _ => .done _
    · exact .plain fun _ _ _ => login_within
    · exact .plain fun _ _ _ => register_within
    · exact .tasks
    · exact .answer
    · exact .routine
    · exact .plain fun _ _ _ => githubOAuthCallback_within rfl
    · exact .devices
    · exact .plain fun _ _ _ => within_plain plan_plain _ _
    · exact .plain fun _ _ _ => webhook_within
    · exact .plain fun _ _ _ => adminScreen_within
    · exact .plain fun _ _ _ => adminScreen_within
    · exact .plain fun _ _ _ => adminOrgAction_within
    · exact .plain fun _ _ _ => adminScreen_within
    · exact .plain fun _ _ _ => adminUserAction_within
    · exact .plain fun _ _ _ => adminScreen_within
    · exact .plain fun _ _ _ => adminScreen_within

/-- What a request writes and pushes. -/
theorem serve_foot (hK : Admits a r w → Sends K a r w.db) : Foot restTables K w ((a.serve r).run w).1 := by
  refine serve_rel blind_foot fun hw e he hp m _ => ?_
  obtain ⟨hplan, hmerge, hroutine⟩ := hK hw
  cases route_kind he with
  | plain h => exact Within.rest ((h _ _ _).mono plain_quiet fun _ _ h => h) _
  | devices => exact Within.rest ((OrgM.within _ _).mono devices_quiet fun _ _ h => h) _
  | tasks => exact (tasks_within hp hplan _).mono (fun t ht => task_rest t (work_task t ht)) fun _ _ h => h
  | answer => exact (interventionAnswer_within hp hmerge _).mono answer_rest fun _ _ h => h
  | routine =>
      have hpace : Pace workTables K { w with http := m } _ := routineAction_pace hp hroutine
      exact hpace.foot.mono (fun t ht => task_rest t (work_task t ht)) fun _ _ h => h

/-! ## Task flows -/

variable {S : Id → TaskStatus → Prop}

theorem quiet_flow {c : Cmd α} (h : Within T (fun _ _ => True) c) (hT : T .task = false := by rfl) :
    Prog.Keeps (Flow S) c := Flow.of_within hT h

theorem createAndPlan_flow {org title prompt repo : String} {rs : List String} :
    Prog.Keeps (Flow S) (a.createAndPlan org title prompt rs repo) := by
  refine Flow.bind (Flow.ofReadOnly (DB.readOnly_firstWorkspace _)) fun wsp => ?_
  refine Flow.bind DB.createRealTask_flow fun c => ?_
  obtain ⟨task, created⟩ := c
  cases created with
  | error e => exact Flow.done _
  | ok _ =>
      refine Flow.bind (Flow.ofReadOnly (DB.readOnly_promptWithMemory _ _ _)) fun p => ?_
      refine Flow.bind (Flow.ofReadOnly (DB.readOnly_pinnedWorkerForRepo _ _)) fun cfg => ?_
      refine Flow.bind Flow.hubSend fun sent => ?_
      cases sent with
      | true => exact Flow.bind (DB.setTaskStatus_flow DB.notIssued_planning) fun _ => Flow.done _
      | false => exact Flow.done _

theorem tasks_flow : Prog.Keeps (Flow S) (a.tasks u r) := by
  unfold tasks createTask guarded
  dsimp only
  split
  · split
    · exact Flow.done _
    · split
      · refine Flow.bind createAndPlan_flow fun res => ?_
        cases res with
        | error e => exact Flow.done _
        | ok v => exact Flow.bind (quiet_flow (within_settings _ _) rfl) fun _ => Flow.done _
      · exact Flow.done _
  · exact quiet_flow (within_settings _ _) rfl

theorem reviewed_flows {sc : Scope} {s : Store} {task : Id} {st : ReviewStatus} :
    Flows S s (DB.reviewed sc s task st) := by
  unfold DB.reviewed
  split
  · split
    · exact Flows.refl s
    · exact Flows.of_touches (T := fun t => t == .pullRequest) rfl (Touches.set rfl)
  · exact Flows.refl s

theorem answerReview_flow {rls : Bool} {n : String} {task : Id} {st : ReviewStatus} {f : Task → Task}
    {hf : ∀ t, (f t).id = t.id} (hr : ∀ t, refs .task (f t) = refs .task t) (ho : ∀ t, (f t).orgId = t.orgId)
    (hm : ∀ t, t.id = task → Moved S t (f t)) :
    Prog.Keeps (Flow S) ((DB.answerReview (B := B) n task st f hf).cmd rls) := fun w => by
  rw [DB.run_answerReview hr ho]
  exact Flow.of_flows (reviewed_flows.trans (Flows.update fun t _ ht => hm t (by simp at ht; exact ht.2)))

theorem dispatchMerge_flow {task : Id} : Prog.Keeps (Flow S) (dispatchMerge task) :=
  Flow.of_within (T := fun _ => false) rfl (dispatchMerge_within fun _ _ _ => trivial)

variable (h : ∀ k st, st ≠ .merged → st ≠ .planning → S k st)

include h

theorem answerTask_flow {task : Id} : Prog.Keeps (Flow S) (a.answerTask u r task) := by
  have happrove : Prog.Keeps (Flow S) ((DB.approveHumanReview (B := u.orgID) task).cmd a.server.rls) :=
    answerReview_flow (fun _ => rfl) (fun _ => rfl) fun t ht =>
      ⟨rfl, rfl, fun _ h => h, .inr (h _ .running (by decide) (by decide))⟩
  have hreject : Prog.Keeps (Flow S)
      ((DB.rejectHumanReview (B := u.orgID) task (Json.decodeFirst answerFields r.body {}).1.note).cmd a.server.rls) :=
    answerReview_flow (fun _ => rfl) (fun _ => rfl) fun t ht =>
      ⟨rfl, rfl, fun _ h => h, .inr (h _ .failed (by decide) (by decide))⟩
  unfold answerTask
  dsimp only
  refine Flow.bind (quiet_flow (within_settings _ _) rfl) fun _ => ?_
  split
  · refine Flow.bind happrove fun res => ?_
    cases res with
    | error e => exact Flow.done _
    | ok _ => exact Flow.bind dispatchMerge_flow fun _ => Flow.done _
  · split
    · refine Flow.bind hreject fun res => ?_
      cases res <;> exact Flow.done _
    · exact Flow.done _

theorem interventionAnswer_flow : Prog.Keeps (Flow S) (a.interventionAnswer u r) := by
  unfold interventionAnswer guarded
  split
  · exact Flow.done _
  · split
    · exact Flow.done _
    · split
      · exact answerTask_flow h
      · exact Flow.done _

omit h

theorem runRoutine_flow {id : Id} : Prog.Keeps (Flow S) (a.runRoutine id) := by
  refine Flow.bind (Flow.query _ _) fun res => ?_
  rcases res with e | ⟨o, w, act⟩
  · exact Flow.done _
  · refine Flow.bind (Flow.bind createAndPlan_flow fun res => ?_) fun v => ?_
    · cases res <;> exact Flow.done _
    · exact Flow.bind Server.createNotification_flow fun _ => Flow.done _

theorem routineAction_flow : Prog.Keeps (Flow S) (a.routineAction u r) := by
  unfold routineAction guarded
  dsimp only
  split
  · exact Flow.done _
  · split
    · exact quiet_flow (within_settings _ _) rfl
    · split
      · exact Flow.done _
      · split
        · exact Flow.done _
        · split
          · split
            · exact runRoutine_flow
            · split
              · exact quiet_flow (within_settings _ _) rfl
              · split
                · exact quiet_flow (within_settings _ _) rfl
                · exact Flow.done _
          · exact Flow.done _

theorem blind_flow : Blind (Flow S) where
  refl := Flow.refl
  trans := fun _ _ _ => Flow.trans
  memory := fun _ _ => Flow.of_flows (Flows.refl _)

/-- No request makes a task `merged`. -/
theorem serve_flow (h : ∀ k st, st ≠ .merged → st ≠ .planning → S k st) : Prog.Keeps (Flow S) (a.serve r) := by
  refine serve_keeps blind_flow fun e he _ => ?_
  cases route_kind he with
  | plain hp => exact quiet_flow ((hp _ _ _).mono plain_quiet fun _ _ h => h) rfl
  | devices => exact quiet_flow ((OrgM.within _ _).mono devices_quiet fun _ _ h => h) rfl
  | tasks =>
      dsimp only [Handler.run]
      exact tasks_flow
  | answer =>
      dsimp only [Handler.run]
      exact interventionAnswer_flow h
  | routine =>
      dsimp only [Handler.run]
      exact routineAction_flow

end API

end Apifor
