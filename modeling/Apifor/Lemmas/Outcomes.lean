import Apifor.Lemmas.Stages

/-!
# What a step does to the pipeline

A step has the outcome of a result, a snapshot or an answer, or it plans a task, or it leaves pull
requests alone and dispatches nothing.
-/

namespace Apifor

variable {a : API} {w w' : World} {e : Event} {k : Id}

/-! ## Requests -/

namespace API

variable {u : Caller} {r : Request}

/-- The route that the mux leads a request to. -/
def target (a : API) (r : Request) : Option (String × Handler) :=
  if cleanPath r.path = r.path then longest (a.routes.filter fun e => matchesPath r.path e.1) else none

theorem target_mem {e : String × Handler} (h : a.target r = some e) : e ∈ a.routes ∧ matchesPath r.path e.1 = true := by
  unfold target at h
  split at h
  · exact List.mem_filter.1 (longest_mem h)
  · cases h

theorem eq_of_matchesPath {path pat : String} (hs : Text.hasSuffix pat "/" = false) (h : matchesPath path pat = true) :
    path = pat := by
  rw [matchesPath, hs, Bool.false_and, Bool.or_false] at h
  exact (of_decide_eq_true h).symm

theorem hasPrefix_of_matchesPath {path pat : String} (h : matchesPath path pat = true) : Text.hasPrefix path pat = true := by
  rw [matchesPath, Bool.or_eq_true, Bool.and_eq_true] at h
  rcases h with h | h
  · rw [of_decide_eq_true h, Text.hasPrefix]
    exact List.isPrefixOf_iff_prefix.2 (List.prefix_refl _)
  · exact h.2

theorem cors_run (hm : r.method ≠ "OPTIONS") (w : World) :
    ((a.cors u r).run w).1 = match a.target r with
      | some e => ((e.2.run a u r).run w).1
      | none => w := by
  unfold cors mux target
  rw [if_neg hm]
  dsimp only
  by_cases hclean : cleanPath r.path = r.path
  · rw [if_pos hclean, hclean]
    cases longest (a.routes.filter fun e => matchesPath r.path e.1) with
    | some e => simp only [if_true]
    | none =>
        dsimp only
        split_ifs <;> rfl
  · simp only [hclean, if_false]
    cases longest (a.routes.filter fun e => matchesPath (cleanPath r.path) e.1) with
    | some e => rfl
    | none =>
        dsimp only
        split_ifs <;> rfl

/-- A request that is let through does what the handler of its route does; another one changes memory only. -/
theorem serve_run (a : API) (r : Request) (w : World) :
    (Admits a r w ∧ ∃ e, a.target r = some e ∧ ∃ m m',
        ((a.serve r).run w).1 = { ((e.2.run a (a.authz r) r).run { w with http := m }).1 with http := m' }) ∨
      (Admits a r w → a.target r = none) ∧ ∃ m, ((a.serve r).run w).1 = { w with http := m } := by
  have hrefuse : OnlyMemory ((countMetric fun k => { k with requests := k.requests + 1 }).bind
      fun _ => a.refuse (a.authz r) r) := .bind (.httpStep fun _ _ => rfl) fun _ => onlyMemory_refuse _ _
  obtain ⟨m, o, -, ho⟩ := hrefuse w
  have hrun : (a.serve r).run w = (a.pass r o).run { w with http := m } := by
    rw [serve_eq, ← Prog.bind_assoc, Prog.run_bind_of_eq ho]
  rw [hrun]
  cases o with
  | some resp =>
      refine .inr ⟨fun ha => ?_, _, rfl⟩
      have hadm := ha.2
      rw [ho] at hadm
      cases hadm
  | none =>
      have hpass : ∃ m', ((a.pass r none).run { w with http := m }).1 =
          { ((a.cors (a.authz r) r).run { w with http := m }).1 with http := m' } := by
        simp only [pass, Prog.run_bind]
        cases (Prog.run (a.cors (a.authz r) r) { w with http := m }).2 with
        | none => exact ⟨_, rfl⟩
        | some resp => exact ⟨_, rfl⟩
      obtain ⟨m', hm'⟩ := hpass
      rw [hm']
      by_cases hopt : r.method = "OPTIONS"
      · refine .inr ⟨fun ha => absurd hopt ha.1, m', ?_⟩
        rw [cors, if_pos hopt]
        rfl
      · rw [cors_run hopt]
        cases ht : a.target r with
        | none => exact .inr ⟨fun _ => rfl, m', rfl⟩
        | some e => exact .inl ⟨⟨hopt, by rw [ho]⟩, e, rfl, m, m', rfl⟩

theorem serve_cases (a : API) (r : Request) (w : World) :
    (∃ m, ((a.serve r).run w).1 = { w with http := m }) ∨
      Admits a r w ∧ ∃ e ∈ a.routes, matchesPath r.path e.1 = true ∧ ∃ m m',
        ((a.serve r).run w).1 = { ((e.2.run a (a.authz r) r).run { w with http := m }).1 with http := m' } := by
  rcases serve_run a r w with ⟨ha, e, ht, hm⟩ | ⟨-, hm⟩
  · exact .inr ⟨ha, e, (target_mem ht).1, (target_mem ht).2, hm⟩
  · exact .inl hm

/-- The task that a rejecting answer names. -/
def rejects (a : API) (r : Request) : Option Id :=
  if matchesPath r.path "/v1/interventions/" = true ∧ r.method = "POST" ∧ can (a.authz r).role "write" = true ∧
      (Json.decodeFirst answerFields r.body {}).1.decision = "reject" then
    idBetween r.path "/v1/interventions/" "/answer"
  else none

theorem id_resumed (t : Task) : ({ t with status := .running, blockedReason := none } : Task).id = t.id := rfl

/-- The store after an approving answer. -/
def approvedDb (a : API) (r : Request) (db : Store) (k : Id) : Store :=
  DB.answered (withOrg a.server.rls (a.authz r).orgID) db k .approved
    (fun t => { t with status := .running, blockedReason := none }) id_resumed

/-- The store after a rejecting answer. -/
def rejectedDb (a : API) (r : Request) (db : Store) (k : Id) : Store :=
  DB.answered (withOrg a.server.rls (a.authz r).orgID) db k .changes
    (fun t => { t with
      status := .failed,
      blockedReason := some ("revisão humana reprovou: " ++ (Json.decodeFirst answerFields r.body {}).1.note) })
    fun _ => rfl

def afterApprove (a : API) (r : Request) (w : World) (k : Id) : Outcome :=
  ⟨a.approvedDb r w.db k, w.testsSkipped, some .MERGE⟩

def afterReject (a : API) (r : Request) (w : World) (k : Id) : Outcome :=
  ⟨a.rejectedDb r w.db k, w.testsSkipped, none⟩

theorem aside_rememberAnswer (b : AnswerBody) (rls : Bool) : Aside ((rememberAnswer u b).cmd rls) := by
  unfold rememberAnswer
  split
  · refine Aside.bind (.readOnly (DB.readOnly_firstWorkspace _)) fun wsp => Aside.bind ?_ fun _ => .done _
    refine Aside.bind (.newID _) fun i => Aside.exec fun now s s' x h => ?_
    rw [Tx.run_bind] at h
    split at h
    · cases h
    · next res hres =>
        cases h
        obtain ⟨s1, hins, heq⟩ := map_eq_ok hres
        cases heq
        exact fun t ht => insert_other hins fun he => by rw [he] at ht; cases ht
  · exact .done _

end API

section Answers

variable {s s' : Store} {sc : Scope} {st : ReviewStatus} {f : Task → Task} {hf : ∀ t, (f t).id = t.id}

/-- Which pull requests and tasks a scope may write does not depend on the store. -/
theorem writes_pr (sc : Scope) (s s' : Store) : sc.writes s' .pullRequest = sc.writes s .pullRequest := by
  cases sc <;> rfl

theorem writes_task (sc : Scope) (s s' : Store) : sc.writes s' .task = sc.writes s .task := by
  cases sc <;> rfl

theorem reviewed_other {t : Tbl} (ht : t ≠ .pullRequest) : DB.reviewed sc s k st t = s t := by
  unfold DB.reviewed
  cases (select sc s .pullRequest).find? fun p => decide (p.taskId = some k) with
  | none => rfl
  | some p =>
      by_cases hp : p.id = ""
      · simp only [hp, if_true]
      · simp only [hp, if_false]
        exact Store.set_of_ne s _ ht

theorem SeesSame.reviewed (h : SeesSame s s') : SeesSame (DB.reviewed sc s k st) (DB.reviewed sc s' k st) := by
  have hp : s' .pullRequest = s .pullRequest := h _ rfl
  have hw := writes_pr sc s s'
  have hsel : select sc s' .pullRequest = select sc s .pullRequest := by
    have hr : sc.reads s' .pullRequest = sc.reads s .pullRequest := hw
    rw [select, select, hp, hr]
  unfold DB.reviewed
  rw [hsel, hw]
  split
  · split
    · exact h
    · exact h.set (by rw [hp])
  · exact h

theorem SeesSame.answered (h : SeesSame s s') :
    SeesSame (DB.answered sc s k st f hf) (DB.answered sc s' k st f hf) := by
  have hrev : SeesSame (DB.reviewed sc s k st) (DB.reviewed sc s' k st) := h.reviewed
  have ht : DB.reviewed sc s' k st .task = DB.reviewed sc s k st .task := hrev _ rfl
  unfold DB.answered
  dsimp only
  rw [writes_task sc (DB.reviewed sc s k st) (DB.reviewed sc s' k st)]
  exact hrev.set (by rw [ht])

theorem taskRepo_answered (ho : ∀ t, (f t).orgId = t.orgId) (hr : ∀ t, (f t).repoId = t.repoId)
    (hd : ∀ t, (f t).description = t.description) (i : Id) :
    DB.taskRepo (DB.answered sc s k st f hf) i = DB.taskRepo s i :=
  (taskRepo_update ho hr hd i).trans (taskRepo_congr (reviewed_other (by decide)) (reviewed_other (by decide)) i)

theorem API.taskRepo_approvedDb {r : Request} (i : Id) : DB.taskRepo (a.approvedDb r s k) i = DB.taskRepo s i := by
  refine taskRepo_answered ?_ ?_ ?_ i <;> exact fun _ => rfl

end Answers

namespace API

variable {u : Caller} {r : Request}

theorem At.answerReview {w1 : World} {db : Store} {sk : List Id} (h : At w db sk w1) {B : Id} (rls : Bool) (n : String)
    (st : ReviewStatus) (f : Task → Task) (hf : ∀ t, (f t).id = t.id) (hr : ∀ t, refs .task (f t) = refs .task t)
    (ho : ∀ t, (f t).orgId = t.orgId) :
    ∃ w2 x, ((DB.answerReview (B := B) n k st f hf).cmd rls).run w1 = (w2, some x) ∧ x = .ok () ∧
      At w (DB.answered (withOrg rls B) db k st f hf) sk w2 :=
  ⟨_, _, DB.run_answerReview hr ho w1, rfl, h.db.answered, h.hub, h.pushed, h.testsSkipped⟩

theorem answerTask_approve (hd : (Json.decodeFirst answerFields r.body {}).1.decision = "approve") :
    Becomes w k (a.afterApprove r w k) ((a.answerTask (a.authz r) r k).run w).1 := by
  obtain ⟨w1, _, hrun1, h1⟩ := (At.start w).aside
    (aside_rememberAnswer (u := a.authz r) (Json.decodeFirst answerFields r.body {}).1 a.server.rls)
  obtain ⟨w2, x, hrun2, rfl, h2⟩ := At.answerReview (k := k) h1 (B := (a.authz r).orgID) a.server.rls
    "ApproveHumanReview" .approved (fun t => { t with status := .running, blockedReason := none }) (fun _ => rfl)
    (fun _ => rfl) fun _ => rfl
  have hmerge := At.dispatchMerge (k := k) h2
  simp only [answerTask, approveAnswer, DB.approveHumanReview, Prog.bind_def, Prog.run_bind_of_eq hrun1, hd, if_true,
    Prog.run_bind_of_eq hrun2]
  rw [Prog.run_bind]
  split <;> exact hmerge

theorem answerTask_reject (hd : (Json.decodeFirst answerFields r.body {}).1.decision = "reject") :
    Becomes w k (a.afterReject r w k) ((a.answerTask (a.authz r) r k).run w).1 := by
  obtain ⟨w1, _, hrun1, h1⟩ := (At.start w).aside
    (aside_rememberAnswer (u := a.authz r) (Json.decodeFirst answerFields r.body {}).1 a.server.rls)
  obtain ⟨w2, x, hrun2, rfl, h2⟩ := At.answerReview (k := k) h1 (B := (a.authz r).orgID) a.server.rls
    "RejectHumanReview" .changes
    (fun t => { t with
      status := .failed,
      blockedReason := some ("revisão humana reprovou: " ++ (Json.decodeFirst answerFields r.body {}).1.note) })
    (fun _ => rfl) (fun _ => rfl) fun _ => rfl
  have hcmd : (rejectAnswer (a.authz r) k (Json.decodeFirst answerFields r.body {}).1.note).cmd a.server.rls =
      ((DB.rejectHumanReview k (Json.decodeFirst answerFields r.body {}).1.note).cmd a.server.rls).bind
        fun res => (answer (T := DB.reviews) (a.authz r) res fun _ => pure (decided k "reject" [])).cmd a.server.rls := rfl
  have hne : "reject" ≠ "approve" := by decide
  simp only [answerTask, Prog.bind_def, Prog.run_bind_of_eq hrun1, hd, if_neg hne, if_true]
  rw [hcmd, DB.rejectHumanReview, Prog.run_bind_of_eq hrun2]
  exact At.becomes h2

/-- What a request does to the pipeline. -/
inductive Effect (a : API) (r : Request) (w w' : World) : Prop
  | approve (k : Id) (hk : a.approves r = some k) (h : Becomes w k (a.afterApprove r w k) w')
  | reject (k : Id) (hk : a.rejects r = some k) (h : Becomes w k (a.afterReject r w k) w')
  | calm (h : Foot taskTables (fun _ e => ∀ kind k, ¬ e.dispatches kind k) w w') (hf : ∀ S, Flow S w w')

/-- The memory of the REST side is no part of the pipeline. -/
theorem Effect.http {m m' : HttpMemory} {w' : World} (h : Effect a r { w with http := m } w') :
    Effect a r w { w' with http := m' } := by
  cases h with
  | approve k hk h => exact .approve k hk ⟨h.tables, h.testsSkipped, h.quiet, h.sends⟩
  | reject k hk h => exact .reject k hk ⟨h.tables, h.testsSkipped, h.quiet, h.sends⟩
  | calm h hf => exact .calm ⟨h.db, h.now, h.byOrg, h.streams, h.testsSkipped, h.pushed⟩ hf

theorem Effect.within {α : Type} {c : Cmd α} (h : Within quietTables (fun _ e => ∀ kind k, ¬ e.dispatches kind k) c) :
    Effect a r w (c.run w).1 := .calm (Within.task h w) fun _ =>
    Flow.of_within (T := quietTables) rfl (h.mono (fun _ h => h) fun _ _ _ => trivial) w

theorem noStep_plan (k p : String) (rs : List String) : ∀ kind i, ¬ (Server.requestPlan k p rs).dispatches kind i := by
  rintro kind i ⟨hty, -⟩
  cases hty

theorem interventionAnswer_effect (hp : matchesPath r.path "/v1/interventions/" = true) :
    Effect a r w ((a.interventionAnswer (a.authz r) r).run w).1 := by
  unfold interventionAnswer guarded
  cases hid : idBetween r.path "/v1/interventions/" "/answer" with
  | none => exact .within (.done _)
  | some k =>
      dsimp only
      split
      · exact .within (.done _)
      · next hm =>
          split
          · next hc =>
              by_cases hap : (Json.decodeFirst answerFields r.body {}).1.decision = "approve"
              · refine .approve k ?_ (answerTask_approve hap)
                rw [approves, if_pos ⟨hp, not_not.1 hm, hc, hap⟩, hid]
              · by_cases hre : (Json.decodeFirst answerFields r.body {}).1.decision = "reject"
                · refine .reject k ?_ (answerTask_reject hre)
                  rw [rejects, if_pos ⟨hp, not_not.1 hm, hc, hre⟩, hid]
                · refine .within ?_
                  unfold answerTask
                  dsimp only
                  refine Within.bind ((within_settings _ _).mono plain_quiet fun _ _ h => h) fun _ => ?_
                  rw [if_neg hap, if_neg hre]
                  exact .done _
          · exact .within (.done _)

theorem route_effect {e : String × Handler} (he : e ∈ a.routes) (hp : matchesPath r.path e.1 = true) :
    Effect a r w ((e.2.run a (a.authz r) r).run w).1 := by
  cases route_kind he with
  | plain h => exact .within ((h _ _ _).mono plain_quiet fun _ _ h => h)
  | devices => exact .within ((OrgM.within _ _).mono devices_quiet fun _ _ h => h)
  | tasks =>
      have hfoot : Foot taskTables (fun _ e => ∀ kind k, ¬ e.dispatches kind k) w ((a.tasks (a.authz r) r).run w).1 :=
        (tasks_within hp (fun _ k p rs => noStep_plan k p rs) w).mono work_task fun _ _ h => h
      dsimp only [Handler.run]
      exact .calm hfoot fun _ => tasks_flow w
  | answer =>
      dsimp only [Handler.run]
      exact interventionAnswer_effect hp
  | routine =>
      have hfoot : Foot taskTables (fun _ e => ∀ kind k, ¬ e.dispatches kind k) w ((a.routineAction (a.authz r) r).run w).1 :=
        (routineAction_pace hp fun _ _ _ _ k p rs => noStep_plan k p rs).foot.mono work_task fun _ _ h => h
      dsimp only [Handler.run]
      exact .calm hfoot fun _ => routineAction_flow w

theorem serve_effect (a : API) (r : Request) (w : World) :
    (∃ m, ((a.serve r).run w).1 = { w with http := m }) ∨ Admits a r w ∧ Effect a r w ((a.serve r).run w).1 := by
  rcases serve_cases a r w with hm | ⟨ha, e, he, hp, m, m', hm⟩
  · exact .inl hm
  · rw [hm]
    exact .inr ⟨ha, (route_effect he hp).http⟩

end API

/-! ## Steps -/

/-- The result of a stage that a message reports. -/
def Envelope.result (env : Envelope) : Option (Id × Server.StepResult) :=
  match env.type, env.payload with
  | .STEP_COMPLETED, .stepEvent ev => (Server.parseResult ev.output).map (ev.taskId, ·)
  | _, _ => none

/-- The task whose snapshot a message is. -/
def Envelope.snapshot (env : Envelope) : Option Id :=
  match env.type, env.payload with
  | .TASK_STATE_SNAPSHOT, .taskStateSnapshot snap => some snap.taskId
  | _, _ => none

/-- The task that a message plans. -/
def Envelope.plans (env : Envelope) : Option Id :=
  match env.type, env.payload with
  | .PLAN_RESULT, .planResult pr => some pr.taskId
  | _, _ => none

/-- Pull requests are kept, and what is pushed satisfies `P`. -/
structure Keeping (P : Push → Prop) (w w' : World) : Prop where
  prs : List.Forall₂ (Kept .pullRequest) (w.db .pullRequest).rows (w'.db .pullRequest).rows
  testsSkipped : ∀ i ∈ w.testsSkipped, i ∈ w'.testsSkipped
  pushed : Emits P w w'

/-- No step is dispatched. -/
def NoStep (p : Push) : Prop := ∀ kind k, ¬ p.env.dispatches kind k

/-- No step is dispatched but the first one of a planned task, on the org's stream that planned it. -/
def OnlyExec (o k : Id) (p : Push) : Prop := ∀ kind i, p.env.dispatches kind i → kind = .EXEC ∧ i = k ∧ p.org = o

theorem Keeping.refl {P : Push → Prop} (w : World) : Keeping P w w :=
  ⟨List.forall₂_same.2 fun r _ => Kept.refl _ r, fun _ h => h, .refl w⟩

theorem Keeping.of_foot {P : Push → Prop} {T : Tbl → Bool} {K : Id → Envelope → Prop} (ht : T .pullRequest = false)
    (hK : ∀ p : Push, K p.org p.env → P p) (h : Foot T K w w') : Keeping P w w' :=
  ⟨h.db _ ht, h.testsSkipped, h.emits fun p hp _ => hK p hp⟩

/-- Tasks are new, or only end. -/
def Ends (w w' : World) : Prop :=
  ∀ S : Id → TaskStatus → Prop, (∀ k st, Server.isTerminal st = true → S k st) → Flow S w w'

theorem Ends.of_within {T : Tbl → Bool} {K : Id → Envelope → Prop} {α : Type} {c : Cmd α} (hT : T .task = false)
    (h : Within T K c) : Ends w (c.run w).1 := fun _ _ => Flow.of_within hT (h.mono (fun _ h => h) fun _ _ _ => trivial) w

theorem Ends.of_eq (h : w'.db .task = w.db .task) : Ends w w' := fun _ _ =>
  Flow.of_flows ⟨by rw [h]; exact (Flows.refl w.db).source, by rw [h]; exact (Flows.refl w.db).target⟩

/-- What a step does to the pipeline. -/
inductive StepEffect (a : API) (w : World) (e : Event) (w' : World) : Prop
  | result (st : Stream) (env : Envelope) (k : Id) (r : Server.StepResult) (he : w.hears e = some (st, env))
      (hr : env.result = some (k, r)) (h : Becomes w k (a.server.afterResult w k r) w')
  | snapshot (st : Stream) (env : Envelope) (k : Id) (he : w.hears e = some (st, env)) (hk : env.snapshot = some k)
      (h : Becomes w k (a.server.afterSnapshot w k) w')
  | approve (r : Request) (k : Id) (hr : w.serves e = some r) (ha : API.Admits a r w) (hk : a.approves r = some k)
      (h : Becomes w k (a.afterApprove r w k) w')
  | reject (r : Request) (k : Id) (hr : w.serves e = some r) (ha : API.Admits a r w) (hk : a.rejects r = some k)
      (h : Becomes w k (a.afterReject r w k) w')
  | plan (st : Stream) (env : Envelope) (k : Id) (he : w.hears e = some (st, env)) (hk : env.plans = some k)
      (h : Keeping (OnlyExec st.org k) w w') (hf : ∀ S : Id → TaskStatus → Prop, S k .in_review → Flow S w w')
  | calm (h : Keeping NoStep w w') (hf : Ends w w')

/-- The last update of a goroutine's world is of what no handler looks at. -/
theorem StepEffect.crashed {b : Bool} (h : StepEffect a w e w') : StepEffect a w e { w' with crashed := b } := by
  cases h with
  | result st env k r he hr h => exact .result st env k r he hr ⟨h.tables, h.testsSkipped, h.quiet, h.sends⟩
  | snapshot st env k he hk h => exact .snapshot st env k he hk ⟨h.tables, h.testsSkipped, h.quiet, h.sends⟩
  | approve r k hr ha hk h => exact .approve r k hr ha hk ⟨h.tables, h.testsSkipped, h.quiet, h.sends⟩
  | reject r k hr ha hk h => exact .reject r k hr ha hk ⟨h.tables, h.testsSkipped, h.quiet, h.sends⟩
  | plan st env k he hk h hf => exact .plan st env k he hk ⟨h.prs, h.testsSkipped, h.pushed⟩ hf
  | calm h hf => exact .calm ⟨h.prs, h.testsSkipped, h.pushed⟩ hf

theorem noStep_of_not_work {p : Push} (h : p.env.isWork = false) : NoStep p := by
  rintro kind k ⟨hty, -⟩
  simp [Envelope.isWork, hty] at h

theorem onMessage_effect {st : Stream} {env : Envelope} (he : w.hears e = some (st, env)) :
    StepEffect a w e ((a.server.onMessage st env).run w).1 := by
  have hcalm : ∀ {T : Tbl → Bool} {α : Type} {c : Cmd α}, T .pullRequest = false →
      Within T (fun _ e => e.isWork = false) c → Ends w (c.run w).1 → StepEffect a w e (c.run w).1 := fun ht hc hf =>
    .calm (.of_foot ht (fun _ => noStep_of_not_work) (hc w)) hf
  unfold Server.onMessage
  split
  · have hc : Within (fun t => t == .device) (fun _ e => e.isWork = false) (DB.touchDevice st.device) :=
      DB.touchDevice_within rfl
    exact hcalm rfl hc (.of_within rfl hc)
  · have hc := Server.onLeaseRequest_within (K := fun _ e => e.isWork = false) (fun _ _ h => h) a.server st
    exact hcalm rfl hc (.of_within rfl hc)
  · next ev hty hpl =>
      unfold Server.onStepCompleted
      cases hr : Server.parseResult ev.output with
      | some r =>
          refine .result st env ev.taskId r he ?_ (Server.advancePipeline_becomes a.server w ev.taskId r)
          simp [Envelope.result, hty, hpl, hr]
      | none =>
          exact hcalm (T := fun t => t == .task || t == .workerInstance) rfl
            (Within.bind (DB.completeTask_within rfl rfl) fun _ => .done _)
            fun S hS => Flow.bind (DB.completeTask_flow (hS _ _ rfl)) (fun _ => Flow.done _) w
  · exact hcalm (T := fun t => t == .task) rfl (Within.bind (DB.failTask_within rfl) fun _ => .done _)
      fun S hS => Flow.bind (DB.failTask_flow (hS _ _ rfl)) (fun _ => Flow.done _) w
  · next snap hty hpl =>
      refine .snapshot st env snap.taskId he ?_ (Server.reconcileTask_becomes a.server w snap.taskId)
      simp [Envelope.snapshot, hty, hpl]
  · next pr hty hpl =>
      refine .plan st env pr.taskId he ?_ (.of_foot (T := Server.planTables)
        (K := fun o e => ∀ kind i, e.dispatches kind i → kind = .EXEC ∧ i = pr.taskId ∧ o = st.org) rfl (fun _ h => h)
        (Server.onPlanResult_within st pr ?_ w)) fun S hS => Server.onPlanResult_flow st pr hS w
      · simp [Envelope.plans, hty, hpl]
      · rintro i b kind j ⟨-, p, hp, hkind, hj⟩
        cases hp
        exact ⟨hkind.symm, hj.symm, rfl⟩
  · exact hcalm (T := fun _ => false) rfl (.done _) (.of_eq rfl)

/-- Opening a stream and writing to one leave the store and the log alone. -/
theorem Keeping.of_eq {P : Push → Prop} (hdb : w'.db = w.db) (hsk : w'.testsSkipped = w.testsSkipped)
    (hp : w'.pushed = w.pushed) : Keeping P w w' :=
  ⟨by rw [hdb]; exact (Keeping.refl (P := P) w).prs, fun i hi => by rwa [hsk], .of_eq hp⟩

theorem openStream_keeping {P : Push → Prop} (serial : String) (w : World) :
    Keeping P w ((Server.openStream serial).run w).1 ∧ ((Server.openStream serial).run w).1.db = w.db := by
  simp only [Server.openStream, DB.findDeviceBySerial, Prog.bind_def, Prog.run_bind, DB.run_read]
  cases DB.findDevice w.db serial <;> exact ⟨.of_eq rfl rfl rfl, rfl⟩

theorem write_keeping {P : Push → Prop} (w : World) (i : Nat) (st : Stream) (ok : Bool) :
    Keeping P w (w.write i st ok) ∧ (w.write i st ok).db = w.db := by
  unfold World.write
  dsimp only
  split
  · split
    · exact ⟨.of_eq rfl rfl rfl, rfl⟩
    · exact ⟨.refl w, rfl⟩
  · cases ok <;> exact ⟨.of_eq rfl rfl rfl, rfl⟩

theorem step_effect (a : API) (w : World) (e : Event) : StepEffect a w e (step a w e) := by
  have hcalm : ∀ {T : Tbl → Bool} {α : Type} {c : Cmd α}, T .pullRequest = false → T .task = false →
      Within T (fun _ e => e.isWork = false) c → StepEffect a w e (c.run w).1 := fun ht ht' hc =>
    .calm (.of_foot ht (fun _ => noStep_of_not_work) (hc w)) (.of_within ht' hc)
  have hsame : ∀ {w' : World}, Keeping NoStep w w' ∧ w'.db = w.db → StepEffect a w e w' := fun h =>
    .calm h.1 (.of_eq (by rw [h.2]))
  have hself : StepEffect a w e w := hsame ⟨.refl w, rfl⟩
  unfold step
  split
  · exact hself
  · next hc =>
      have hc : w.crashed = false := by simpa using hc
      cases e with
      | tick d => exact hsame ⟨.of_eq rfl rfl rfl, rfl⟩
      | enroll orgID userID serial =>
          refine StepEffect.crashed (hcalm (T := fun t => t == .device) rfl rfl ?_)
          exact Within.bind (.newID _) fun _ => Within.bind (DB.createDeviceCert_within rfl) fun _ => .done _
      | connect serial => exact StepEffect.crashed (StepEffect.crashed (hsame (openStream_keeping serial w)))
      | recv i env =>
          cases hi : w.streams[i]? with
          | none => simpa only [react, hi] using hself
          | some st =>
              by_cases hr : w.ready st = true
              · simp only [react, hi, hr, if_true]
                exact (onMessage_effect (hears_recv hi hc hr)).crashed
              · simpa only [react, hi, hr, Bool.false_eq_true, if_false] using hself
      | disconnect i =>
          cases hi : w.streams[i]? with
          | none => simpa only [react, hi] using hself
          | some st =>
              simp only [react, hi]
              split
              · exact hsame ⟨.of_eq rfl rfl rfl, rfl⟩
              · exact hself
      | deliver i ok =>
          cases hi : w.streams[i]? with
          | none => simpa only [react, hi] using hself
          | some st =>
              simp only [react, hi]
              split
              · exact hsame (write_keeping w i st ok)
              · exact hself
      | rest r =>
          have hserves : w.serves (.rest r) = some r := by simp [World.serves, hc]
          rcases API.serve_effect a r w with ⟨m, hm⟩ | ⟨ha, heff⟩
          · have hreact : react a w (.rest r) = { w with http := m } := hm
            rw [hreact]
            exact hsame ⟨.of_eq rfl rfl rfl, rfl⟩
          · cases heff with
            | approve k hk h => exact .approve r k hserves ha hk h
            | reject k hk h => exact .reject r k hserves ha hk h
            | calm h hf => exact .calm (.of_foot rfl (fun _ h => h) h) fun S _ => hf S
      | poll i token account =>
          cases hi : w.http.ghPolls[i]? with
          | none => simpa only [react, hi] using hself
          | some p =>
              simp only [react, hi]
              exact StepEffect.crashed (hcalm (T := fun t => t == .connection) rfl rfl (pollTurn_within rfl))
      | reap => exact StepEffect.crashed (hcalm rfl rfl (Server.reapOnce_within (fun _ _ h => h) a.server))
      | sched =>
          refine StepEffect.crashed (.calm (.of_foot rfl (fun _ h => h)
            (Server.schedule_within a.server (K := fun _ e => ∀ kind k, ¬ e.dispatches kind k)
              (fun _ k p rs => API.noStep_plan k p rs) w)) fun S _ => Server.schedule_flow a.server w)

end Apifor
