import Apifor.Lemmas.Outcomes

/-!
# Tasks that are over

A task that is merged, failed or canceled should keep its status, and no step should be dispatched for
it any more. Only the reconciliation looks at the status, so this holds of the runs in which no other
message or answer names a task that is over, unless it only repeats what the task already is.
-/

namespace Apifor

variable {a : API} {w w' w'' : World} {e : Event} {k : Id}

/-! ## The law -/

/-- Tasks that are over keep their status, and no step was dispatched for them in between. -/
def Absorbed (w w' : World) : Prop :=
  ∀ t ∈ (w.db .task).rows, Server.isTerminal t.status = true →
    (∃ t' ∈ (w'.db .task).rows, t'.id = t.id ∧ t'.status = t.status) ∧
      Emits (fun p => ∀ kind, ¬ p.env.dispatches kind t.id) w w'

theorem Absorbed.refl (w : World) : Absorbed w w := fun t ht _ => ⟨⟨t, ht, rfl, rfl⟩, .refl w⟩

theorem Absorbed.trans (h : Absorbed w w') (h' : Absorbed w' w'') : Absorbed w w'' := by
  intro t ht hover
  obtain ⟨⟨t', ht', hid, hst⟩, hemit⟩ := h t ht hover
  obtain ⟨⟨t'', ht'', hid', hst'⟩, hemit'⟩ := h' t' ht' (hst ▸ hover)
  rw [hid] at hid' hemit'
  exact ⟨⟨t'', ht'', hid', hst'.trans hst⟩, hemit.trans hemit'⟩

/-- What the result of a stage would do to a task that is over, it does not do. -/
structure ResultSpares (s : Server) (w : World) (t : Task) (r : Server.StepResult) : Prop where
  exec : r.kind ≠ "exec"
  test : r.kind = "test" →
    (r.passed = true → ¬ CanSend w.hub w.db t.id) ∧ (r.passed = false → t.status = .failed)
  review : r.kind = "review" →
    (r.approved = true → (s.gateOf w.db t.id = true → Server.humanOk w.db t.id = true) ∧ ¬ CanSend w.hub w.db t.id) ∧
      (r.approved = false → t.status = .failed)
  merge : r.kind = "merge" → t.status = .merged

/-- What an event does to one task that is over: nothing. -/
structure Spares (a : API) (w : World) (e : Event) (t : Task) : Prop where
  result : ∀ st env r, w.hears e = some (st, env) → env.result = some (t.id, r) → ResultSpares a.server w t r
  done : ∀ st env ev, w.hears e = some (st, env) → env.type = .STEP_COMPLETED → env.payload = .stepEvent ev →
    Server.parseResult ev.output = none → ev.taskId = t.id → t.status = .merged
  failed : ∀ st env ev, w.hears e = some (st, env) → env.type = .STEP_FAILED → env.payload = .stepEvent ev →
    ev.taskId = t.id → t.status = .failed
  plan : ∀ st env, w.hears e = some (st, env) → env.plans ≠ some t.id
  approve : ∀ r, w.serves e = some r → API.Admits a r w → a.approves r = some t.id →
    (withOrg a.server.rls (a.authz r).orgID).writes w.db .task t = false ∧ ¬ CanSend w.hub w.db t.id
  reject : ∀ r, w.serves e = some r → API.Admits a r w → a.rejects r = some t.id →
    (withOrg a.server.rls (a.authz r).orgID).writes w.db .task t = false ∨ t.status = .failed

/-- The event leaves alone every task that is over. -/
def SparesOver (a : API) (w : World) (e : Event) : Prop :=
  ∀ t ∈ (w.db .task).rows, Server.isTerminal t.status = true → Spares a w e t

/-! ## Statuses -/

/-- A task that is over gets no other status. -/
def KeepsOver (w : World) (k : Id) (st : TaskStatus) : Prop :=
  ∀ t ∈ (w.db .task).rows, t.id = k → Server.isTerminal t.status = true → st = t.status

theorem Flows.congr {S : Id → TaskStatus → Prop} {s s' s'' : Store} (h : Flows S s s') (ht : s'' .task = s' .task) :
    Flows S s s'' := ⟨by rw [ht]; exact h.source, by rw [ht]; exact h.target⟩

theorem Flows.of_eq {S : Id → TaskStatus → Prop} {s s' : Store} (ht : s' .task = s .task) : Flows S s s' :=
  (Flows.refl s).congr ht

theorem Flows.setTask {S : Id → TaskStatus → Prop} {s : Store} {f : Task → Task} {hf : ∀ t, (f t).id = t.id}
    (hm : ∀ t, t.id = k → Moved S t (f t)) : Flows S s (s.setTask k f hf) :=
  Flows.update fun t _ ht => hm t (of_decide_eq_true ht)

/-- A new status of one task. -/
theorem Flows.status {S : Id → TaskStatus → Prop} {s s' : Store} {f : Task → Task} {v : TaskStatus}
    (ht : s' .task = s .task) (hst : ∀ t, (f t).status = v) (ho : ∀ t, (f t).orgId = t.orgId)
    (hr : ∀ t, (f t).repoId = t.repoId) (h : S k v) (hf : ∀ t, (f t).id = t.id := by intro; rfl) :
    Flows S s (s'.setTask k f hf) :=
  (Flows.of_eq ht).trans (Flows.setTask fun t htk =>
    ⟨hf t, ho t, fun r hr' => by rwa [hr] at hr', .inr (by rw [hst, htk]; exact h)⟩)

theorem execDb_flows {S : Id → TaskStatus → Prop} {r : Server.StepResult} (h : S k .in_review) :
    Flows S w.db (Server.execDb w k r) := by
  unfold Server.execDb
  cases w.db.getTask k with
  | none => exact Flows.refl _
  | some t =>
      dsimp only
      cases hi : insert .all .pullRequest (Server.newPR w k r t) w.db with
      | error e => exact Flows.refl _
      | ok db =>
          refine Flows.status (v := .in_review) (insert_other hi (by decide)) ?_ ?_ ?_ h <;> exact fun _ => rfl

theorem afterResult_flows {s : Server} {S : Id → TaskStatus → Prop} {r : Server.StepResult}
    (hexec : r.kind = "exec" → S k .in_review) (htest : r.kind = "test" → r.passed = false → S k .failed)
    (hreview : r.kind = "review" → r.approved = false → S k .failed)
    (hblock : r.kind = "review" → r.approved = true → s.gateOf w.db k = true → Server.humanOk w.db k = false →
      S k .blocked)
    (hmerge : r.kind = "merge" → S k .merged) : Flows S w.db (s.afterResult w k r).db := by
  unfold Server.afterResult
  split
  · next hk =>
      unfold Server.afterExec
      dsimp only
      split <;> exact execDb_flows (hexec hk)
  · split
    · next hk =>
        unfold Server.afterTest
        dsimp only
        split
        · exact Flows.of_eq (setLatest_other (by decide))
        · next hp =>
            refine Flows.status (v := .failed) (setLatest_other (by decide)) ?_ ?_ ?_
              (htest hk (by simpa using hp)) <;> exact fun _ => rfl
    · split
      · next hk =>
          unfold Server.afterReview
          dsimp only
          split
          · next hp =>
              refine Flows.status (v := .failed) (setLatest_other (by decide)) ?_ ?_ ?_
                (hreview hk (by simpa using hp)) <;> exact fun _ => rfl
          · next hp =>
              split
              · next hg =>
                  simp only [Bool.and_eq_true, Bool.not_eq_true'] at hg
                  refine Flows.status (v := .blocked) (setLatest_other (by decide)) ?_ ?_ ?_
                    (hblock hk (by simpa using hp) hg.1 hg.2) <;> exact fun _ => rfl
              · exact Flows.of_eq (setLatest_other (by decide))
      · split
        · next hk =>
            refine Flows.status (v := .merged) (setLatest_other (by decide)) ?_ ?_ ?_ (hmerge hk) <;> exact fun _ => rfl
        · exact Flows.refl _

/-- A result that spares a task that is over sends nothing for it. -/
theorem afterResult_quiet {s : Server} {r : Server.StepResult} {t : Task} (h : ResultSpares s w t r) :
    (s.afterResult w t.id r).next = none ∨ ¬ CanSend w.hub (s.afterResult w t.id r).db t.id := by
  have hsame : ∀ {f : PullRequest → PullRequest} {hf : ∀ p, (f p).id = p.id},
      CanSend w.hub (w.db.setLatest t.id f hf) t.id → CanSend w.hub w.db t.id := by
    rintro f hf ⟨tr, htr, hrest⟩
    refine ⟨tr, ?_, hrest⟩
    rwa [taskRepo_congr (setLatest_other (by decide)) (setLatest_other (by decide))] at htr
  unfold Server.afterResult
  split
  · next hk => exact absurd hk h.exec
  · split
    · next hk =>
        unfold Server.afterTest
        dsimp only
        split
        · next hp => exact .inr fun hc => (h.test hk).1 hp (hsame hc)
        · exact .inl rfl
    · split
      · next hk =>
          unfold Server.afterReview
          dsimp only
          split
          · exact .inl rfl
          · next hp =>
              split
              · exact .inl rfl
              · exact .inr fun hc => ((h.review hk).1 (by simpa using hp)).2 (hsame hc)
      · split <;> exact .inl rfl

/-! ## Steps -/

/-- What becomes of the tasks in a step is what the messages and the requests make of them. -/
theorem step_moves {S : Id → TaskStatus → Prop}
    (hmsg : ∀ st env, w.hears e = some (st, env) → Flow S w ((a.server.onMessage st env).run w).1)
    (hreq : ∀ r, w.serves e = some r → Flow S w ((a.serve r).run w).1) : Flow S w (step a w e) := by
  refine step_rel (fun w' ht _ => ?_) (fun w' w'' hf hdb _ hi => ?_) hmsg hreq (fun _ _ => ?_) fun _ _ => ?_
  · exact Flow.of_flows (Flows.of_touches rfl ht)
  · obtain ⟨hi', hf'⟩ := hf hi
    exact ⟨fun t ht => hi' t (by rwa [← hdb]), show Flows S w.db w''.db by rwa [hdb]⟩
  · exact Flow.of_within (T := Server.reaperTables) rfl (Server.reapOnce_within (fun _ _ _ => trivial) a.server) w
  · exact Server.schedule_flow a.server w

theorem onMessage_keepsOver {st : Stream} {env : Envelope} (h : SparesOver a w e) (he : w.hears e = some (st, env)) :
    Flow (KeepsOver w) w ((a.server.onMessage st env).run w).1 := by
  have hof : ∀ {k : Id} {w' : World} {o : Outcome}, Becomes w k o w' → Flows (KeepsOver w) w.db o.db →
      Flow (KeepsOver w) w w' := fun hb hf => Flow.of_flows (hf.congr (hb.tables .task rfl))
  unfold Server.onMessage
  split
  · exact Flow.of_within (T := fun t => t == .device) rfl (DB.touchDevice_within rfl) w
  · exact Flow.of_within rfl (Server.onLeaseRequest_within (fun _ _ _ => trivial) a.server st) w
  · next ev hty hpl =>
      unfold Server.onStepCompleted
      cases hr : Server.parseResult ev.output with
      | some r =>
          have hres : env.result = some (ev.taskId, r) := by simp [Envelope.result, hty, hpl, hr]
          have hsp : ∀ t ∈ (w.db .task).rows, t.id = ev.taskId → Server.isTerminal t.status = true →
              ResultSpares a.server w t r := fun t ht hid hover => (h t ht hover).result st env r he (hid ▸ hres)
          refine hof (Server.advancePipeline_becomes a.server w ev.taskId r) (afterResult_flows ?_ ?_ ?_ ?_ ?_)
          · exact fun hk t ht hid hover => absurd hk (hsp t ht hid hover).exec
          · exact fun hk hp t ht hid hover => (((hsp t ht hid hover).test hk).2 hp).symm
          · exact fun hk hp t ht hid hover => (((hsp t ht hid hover).review hk).2 hp).symm
          · intro hk hp hg hh t ht hid hover
            have hok := (((hsp t ht hid hover).review hk).1 hp).1 (by rw [hid]; exact hg)
            rw [hid, hh] at hok
            cases hok
          · exact fun hk t ht hid hover => ((hsp t ht hid hover).merge hk).symm
      | none =>
          refine Flow.bind (DB.completeTask_flow fun t ht hid hover => ?_) (fun _ => Flow.done _) w
          exact ((h t ht hover).done st env ev he hty hpl hr hid.symm).symm
  · next ev hty hpl =>
      refine Flow.bind (DB.failTask_flow fun t ht hid hover => ?_) (fun _ => Flow.done _) w
      exact ((h t ht hover).failed st env ev he hty hpl hid.symm).symm
  · next snap hty hpl =>
      refine hof (Server.reconcileTask_becomes a.server w snap.taskId) ?_
      unfold Server.afterSnapshot
      split
      · next hb =>
          have hopen : KeepsOver w snap.taskId .blocked := fun t ht hid hover => by
            -- the reconciliation leaves alone a task that is over
            have hget : w.db.getTask snap.taskId = some t := Table.get?_eq_some.2 ⟨ht, by simp only [key, hid]⟩
            simp [Server.reconcileBlocks, Server.openPR, DB.pipelineState, hget, hover] at hb
          refine Flows.status (v := .blocked) rfl ?_ ?_ ?_ hopen <;> exact fun _ => rfl
      · exact Flows.refl _
  · next pr hty hpl =>
      refine Server.onPlanResult_flow st pr (fun t ht hid hover => ?_) w
      exact absurd (by simp [Envelope.plans, hty, hpl, hid]) ((h t ht hover).plan st env he)
  · exact Flow.done _ w

/-- An answer moves the task that it names, if its caller may write it. -/
theorem answered_keepsOver {sc : Scope} {rs : ReviewStatus} {f : Task → Task} {v : TaskStatus}
    (h : ∀ t ∈ (w.db .task).rows, t.id = k → Server.isTerminal t.status = true →
      sc.writes w.db .task t = false ∨ v = t.status)
    (hst : ∀ t, (f t).status = v) (ho : ∀ t, (f t).orgId = t.orgId) (hr : ∀ t, (f t).repoId = t.repoId)
    (hf : ∀ t, (f t).id = t.id := by intro; rfl) : Flows (KeepsOver w) w.db (DB.answered sc w.db k rs f hf) := by
  have htask : DB.reviewed sc w.db k rs .task = w.db .task := reviewed_other (by decide)
  refine API.reviewed_flows.trans (Flows.update fun t ht hp => ?_)
  rw [htask] at ht
  simp only [Bool.and_eq_true, decide_eq_true_eq] at hp
  rw [writes_task sc w.db] at hp
  refine ⟨hf t, ho t, fun r hr' => by rwa [hr] at hr', .inr fun t' ht' hid hover => ?_⟩
  have heq : t' = t := (w.db .task).eq_of_key_eq ht' ht (by simp only [key, hid])
  subst heq
  rw [hst]
  exact (h t' ht' hp.2 hover).resolve_left (by rw [hp.1]; decide)

theorem serve_keepsOver {r : Request} (h : SparesOver a w e) (hr : w.serves e = some r) :
    Flow (KeepsOver w) w ((a.serve r).run w).1 := by
  rcases API.serve_effect a r w with ⟨m, hm⟩ | ⟨ha, heff⟩
  · rw [hm]
    exact Flow.of_flows (Flows.refl _)
  · cases heff with
    | approve k hk hb =>
        refine Flow.of_flows (Flows.congr (answered_keepsOver (v := .running) (fun t ht hid hover => ?_) ?_ ?_ ?_)
          (hb.tables .task rfl))
        · exact .inl ((h t ht hover).approve r hr ha (hid ▸ hk)).1
        all_goals exact fun _ => rfl
    | reject k hk hb =>
        refine Flow.of_flows (Flows.congr (answered_keepsOver (v := .failed) (fun t ht hid hover => ?_) ?_ ?_ ?_)
          (hb.tables .task rfl))
        · exact ((h t ht hover).reject r hr ha (hid ▸ hk)).imp_right Eq.symm
        all_goals exact fun _ => rfl
    | calm hf hflow => exact hflow _

/-- A step that spares the tasks that are over absorbs them. -/
theorem absorbed_step (hi : Issued w) (h : SparesOver a w e) : Absorbed w (step a w e) := by
  obtain ⟨-, hflow⟩ := step_moves (S := KeepsOver w) (fun st env he => onMessage_keepsOver h he)
    (fun r hr => serve_keepsOver h hr) hi
  refine fun t ht hover => ⟨?_, ?_⟩
  · obtain ⟨t', ht', hm⟩ := hflow.target t ht
    exact ⟨t', ht', hm.id, hm.status.elim id fun hs => hs t ht rfl hover⟩
  · have hother : ∀ {i : Id} {o : Outcome}, Becomes w i o (step a w e) →
        (t.id = i → o.next = none ∨ ¬ CanSend w.hub o.db i) →
        Emits (fun p => ∀ kind, ¬ p.env.dispatches kind t.id) w (step a w e) := by
      intro i o hb hq
      by_cases hid : t.id = i
      · exact .of_eq (hb.quiet (hq hid))
      · by_cases hquiet : o.next = none ∨ ¬ CanSend w.hub o.db i
        · exact .of_eq (hb.quiet hquiet)
        · obtain ⟨kind, hk⟩ := Option.ne_none_iff_exists'.1 (not_or.1 hquiet).1
          obtain ⟨p, hp, hd⟩ := hb.sends kind hk (not_not.1 (not_or.1 hquiet).2)
          refine ⟨[p], hp, fun q hq' kind' => ?_⟩
          rw [List.mem_singleton.1 hq']
          rintro ⟨-, d, hd', -, htask⟩
          obtain ⟨n, b, henv⟩ := hd.env
          rw [henv] at hd'
          cases hd'
          exact hid htask.symm
    cases step_effect a w e with
    | result st env k r he hr hb =>
        refine hother hb fun hid => ?_
        subst hid
        exact afterResult_quiet ((h t ht hover).result st env r he hr)
    | snapshot st env k he hk hb =>
        refine hother hb fun hid => .inl ?_
        subst hid
        have hget : w.db.getTask t.id = some t := Table.get?_eq_some.2 ⟨ht, rfl⟩
        simp [Server.afterSnapshot, Server.reconcileBlocks, Server.reconcileKind, Server.openPR, DB.pipelineState, hget,
          hover]
    | approve r k hr ha hk hb =>
        refine hother hb fun hid => .inr ?_
        subst hid
        rintro ⟨tr, htr, hrest⟩
        refine ((h t ht hover).approve r hr ha hk).2 ⟨tr, ?_, hrest⟩
        exact (API.taskRepo_approvedDb t.id).symm.trans htr
    | reject r k hr ha hk hb => exact hother hb fun _ => .inl rfl
    | plan st env k he hk hkeep =>
        refine hkeep.pushed.mono fun p hp kind hd => (h t ht hover).plan st env he ?_
        rw [hk, (hp kind t.id hd).2.1]
    | calm hkeep _ => exact hkeep.pushed.mono fun p hp kind => hp kind t.id

theorem issued_exec (a : API) (hi : Issued w) (es : List Event) : Issued (Runs.exec (step a) w es) := by
  induction es generalizing w with
  | nil => exact hi
  | cons e es ih =>
      exact ih (step_flow (a := a) (e := e) (S := fun _ _ => True) (fun _ _ _ _ => trivial) (fun _ _ _ _ _ _ _ => trivial) hi).1

/-- In a run in which every event spares the tasks that are over, they keep their status from then on,
and no step is dispatched for them. -/
theorem terminal_absorbing (a : API) (w : World) (es es' : List Event) (hi : Issued w)
    (h : Runs.Meets (step a) (SparesOver a) (Runs.exec (step a) w es) es') :
    Absorbed (Runs.exec (step a) w es) (Runs.exec (step a) (Runs.exec (step a) w es) es') := by
  have hi' := issued_exec a hi es
  generalize Runs.exec (step a) w es = v at h hi'
  induction es' generalizing v with
  | nil => exact Absorbed.refl v
  | cons e es' ih => exact (absorbed_step hi' h.1).trans (ih _ h.2 (issued_exec a hi' [e]))

/-- A routine makes a task, and its executor reports that it failed. -/
def failedRun : List Event :=
  [.connect "s1", .sched, .recv 0 { type := .STEP_FAILED, payload := .stepEvent { taskId := "tsk_0", error := "no" } }]

def lateRun : List Event := [.recv 0 { type := .PLAN_RESULT, payload := .planResult { taskId := "tsk_0" } }]

/-- A late plan takes the failed task back to review. -/
theorem latePlan_revives :
    ¬ Absorbed (Runs.exec (step {}) Sample.world failedRun)
      (Runs.exec (step {}) (Runs.exec (step {}) Sample.world failedRun) lateRun) := by
  intro h
  have hany : ((Runs.exec (step {}) Sample.world failedRun).db .task).rows.any
      (fun t => decide (t.id = "tsk_0" ∧ t.status = .failed)) = true := by decide +kernel
  have hall : ((Runs.exec (step {}) (Runs.exec (step {}) Sample.world failedRun) lateRun).db .task).rows.all
      (fun t => decide (t.id = "tsk_0" → t.status = .in_review)) = true := by decide +kernel
  obtain ⟨t, ht, hst⟩ := List.any_eq_true.1 hany
  obtain ⟨hid, hst⟩ := of_decide_eq_true hst
  obtain ⟨⟨t', ht', hid', hst'⟩, -⟩ := h t ht (by rw [hst]; rfl)
  have hlate := of_decide_eq_true (List.all_eq_true.1 hall t' ht') (hid'.trans hid)
  rw [hlate, hst] at hst'
  cases hst'

/-- A repeated failure, and a snapshot. -/
def quietRun : List Event :=
  [.recv 0 { type := .STEP_FAILED, payload := .stepEvent { taskId := "tsk_0", error := "no" } },
    .recv 0 { type := .TASK_STATE_SNAPSHOT, payload := .taskStateSnapshot { taskId := "tsk_0" } }]

theorem terminal_absorbing_sample :
    Absorbed (Runs.exec (step {}) Sample.world failedRun)
      (Runs.exec (step {}) (Runs.exec (step {}) Sample.world failedRun) quietRun) := by
  refine terminal_absorbing {} Sample.world failedRun quietRun issued_sample ⟨?_, ?_, trivial⟩
  · have hall : ((Runs.exec (step {}) Sample.world failedRun).db .task).rows.all
        (fun t => decide (t.status = .failed)) = true := by decide +kernel
    intro t ht _
    have hst := of_decide_eq_true (List.all_eq_true.1 hall t ht)
    refine ⟨fun st env r he hr => ?_, fun st env ev he hty => ?_, fun _ _ _ _ _ _ _ => hst, fun st env he => ?_,
      fun r hr => ?_, fun r hr => ?_⟩
    · obtain ⟨i, hi, -⟩ := hears_eq_some he
      cases hi
      cases hr
    · obtain ⟨i, hi, -⟩ := hears_eq_some he
      cases hi
      cases hty
    · obtain ⟨i, hi, -⟩ := hears_eq_some he
      cases hi
      nofun
    · cases hr
    · cases hr
  · intro t ht _
    refine ⟨fun st env r he hr => ?_, fun st env ev he hty => ?_, fun st env ev he hty => ?_, fun st env he => ?_,
      fun r hr => ?_, fun r hr => ?_⟩
    · obtain ⟨i, hi, -⟩ := hears_eq_some he
      cases hi
      cases hr
    · obtain ⟨i, hi, -⟩ := hears_eq_some he
      cases hi
      cases hty
    · obtain ⟨i, hi, -⟩ := hears_eq_some he
      cases hi
      cases hty
    · obtain ⟨i, hi, -⟩ := hears_eq_some he
      cases hi
      nofun
    · cases hr
    · cases hr

end Apifor
