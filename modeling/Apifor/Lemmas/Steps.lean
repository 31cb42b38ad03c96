import Apifor.Lemmas.Requests
import Apifor.Lib.Runs

/-!
# Steps

What one step of the system does: a message, a request, the reaper and the scheduler do what their
handlers do, and every other event leaves the tasks and the pushed envelopes alone.
-/

namespace Apifor

variable {a : API} {w : World} {e : Event}

theorem hears_recv {i : Nat} {env : Envelope} {st : Stream} (hi : w.streams[i]? = some st) (hc : w.crashed = false)
    (hr : w.ready st = true) : w.hears (.recv i env) = some (st, env) := by
  simp [World.hears, hi, hc, hr, Option.filter]

theorem hears_eq_some {st : Stream} {env : Envelope} (h : w.hears e = some (st, env)) :
    ∃ i, e = .recv i env ∧ w.streams[i]? = some st ∧ w.crashed = false ∧ w.ready st = true := by
  cases e with
  | recv i env' =>
      simp only [World.hears, Option.map_eq_some_iff, Option.filter_eq_some_iff] at h
      obtain ⟨st', ⟨hi, hr⟩, heq⟩ := h
      cases heq
      simp only [Bool.and_eq_true, Bool.not_eq_true'] at hr
      exact ⟨i, rfl, hi, hr.1, hr.2⟩
  | _ => cases h

theorem step_of_hears {st : Stream} {env : Envelope} (h : w.hears e = some (st, env)) :
    step a w e = w.goroutine (a.server.onMessage st env) := by
  obtain ⟨i, rfl, hi, hc, hr⟩ := hears_eq_some h
  simp only [step, hc, Bool.false_eq_true, if_false, react, hi, hr, if_true]

/-- The tables that enrolling and polling write. -/
def outerTables : Tbl → Bool
  | .device | .connection => true
  | _ => false

/-- A round of the polling goroutine writes connections only. -/
theorem pollTurn_within {T : Tbl → Bool} {K : Id → Envelope → Prop} {rls : Bool} {i : Nat} {p : GhPoll}
    {token account : Reply} (hT : T .connection = true) : Within T K (pollTurn rls i p token account) := by
  refine Within.bind ((API.pollGitHubDevice_each (.touches hT nofun)).within _) fun ended => ?_
  cases ended with
  | true => exact .memory fun w => ⟨{ w.http with ghPolls := w.http.ghPolls.eraseIdx i }, rfl, rfl, rfl⟩
  | false => exact .done _

theorem openStream_keeps (serial : String) (w : World) :
    ((Server.openStream serial).run w).1.db = w.db ∧ ((Server.openStream serial).run w).1.pushed = w.pushed := by
  simp only [Server.openStream, DB.findDeviceBySerial, Prog.bind_def, Prog.run_bind, DB.run_read]
  cases DB.findDevice w.db serial <;> exact ⟨rfl, rfl⟩

theorem write_keeps (w : World) (i : Nat) (st : Stream) (ok : Bool) :
    (w.write i st ok).db = w.db ∧ (w.write i st ok).pushed = w.pushed := by
  unfold World.write
  dsimp only
  split
  · split <;> exact ⟨rfl, rfl⟩
  · cases ok <;> exact ⟨rfl, rfl⟩

/-- A relation between the tasks and the pushed envelopes of two worlds holds of every step if it
holds of what the four kinds of handlers do. -/
theorem step_rel {R : World → World → Prop}
    (hquiet : ∀ w', Touches outerTables w.db w'.db → w'.pushed = w.pushed → R w w')
    (hcongr : ∀ w' w'', R w w' → w''.db = w'.db → w''.pushed = w'.pushed → R w w'')
    (hmsg : ∀ st env, w.hears e = some (st, env) → R w ((a.server.onMessage st env).run w).1)
    (hreq : ∀ r, w.serves e = some r → R w ((a.serve r).run w).1)
    (hreap : e = .reap → w.crashed = false → R w (a.server.reapOnce.run w).1)
    (hsched : e = .sched → w.crashed = false → R w (a.server.schedule.run w).1) : R w (step a w e) := by
  have hself : R w w := hquiet w (Touches.refl _) rfl
  have hnone : ∀ {T : Tbl → Bool} {α : Type} {c : Cmd α}, (∀ t, T t = true → outerTables t = true) →
      Within T (fun _ _ => False) c → R w (c.run w).1 := by
    intro T α c hT hc
    refine hquiet _ ((hc w).db.mono hT) ?_
    obtain ⟨l, hl, hp⟩ := (hc w).pushed
    cases l with
    | nil => exact hl
    | cons p l => exact (hp p List.mem_cons_self).1.elim
  unfold step
  split
  · exact hself
  · next hc =>
      have hc : w.crashed = false := by simpa using hc
      cases e with
      | tick d => exact hcongr w _ hself rfl rfl
      | enroll orgID userID serial =>
          refine hcongr _ _ (hnone (T := fun t => t == .device) ?_ ?_) rfl rfl
          · intro t ht
            cases t <;> first | rfl | cases ht
          · exact Within.bind (.newID _) fun _ => Within.bind (DB.createDeviceCert_within rfl) fun _ => .done _
      | connect serial =>
          obtain ⟨hdb, hpushed⟩ := openStream_keeps serial w
          exact hcongr w _ hself hdb hpushed
      | recv i env =>
          cases hi : w.streams[i]? with
          | none => simpa only [react, hi] using hself
          | some st =>
              by_cases hr : w.ready st = true
              · simp only [react, hi, hr, if_true]
                exact hcongr _ _ (hmsg st env (hears_recv hi hc hr)) rfl rfl
              · simpa only [react, hi, hr, Bool.false_eq_true, if_false] using hself
      | disconnect i =>
          cases hi : w.streams[i]? with
          | none => simpa only [react, hi] using hself
          | some st =>
              simp only [react, hi]
              split
              · exact hcongr w _ hself rfl rfl
              · exact hself
      | deliver i ok =>
          cases hi : w.streams[i]? with
          | none => simpa only [react, hi] using hself
          | some st =>
              simp only [react, hi]
              split
              · obtain ⟨hdb, hpushed⟩ := write_keeps w i st ok
                exact hcongr w _ hself hdb hpushed
              · exact hself
      | rest r => exact hreq r (by simp [World.serves, hc])
      | poll i token account =>
          cases hi : w.http.ghPolls[i]? with
          | none => simpa only [react, hi] using hself
          | some p =>
              simp only [react, hi]
              exact hcongr _ _ (hnone (fun _ h => h) (pollTurn_within rfl)) rfl rfl
      | reap => exact hcongr _ _ (hreap rfl hc) rfl rfl
      | sched => exact hcongr _ _ (hsched rfl hc) rfl rfl

/-! ## Pushes -/

/-- What was pushed between two worlds satisfies `P`. -/
def Emits (P : Push → Prop) (w w' : World) : Prop := ∃ l, w'.pushed = l ++ w.pushed ∧ ∀ p ∈ l, P p

theorem Emits.of_eq {P : Push → Prop} {w w' : World} (h : w'.pushed = w.pushed) : Emits P w w' :=
  ⟨[], h, fun _ hp => by cases hp⟩

theorem Emits.mem {P : Push → Prop} {w w' : World} (h : Emits P w w') {p : Push} (hp : p ∈ w'.pushed) :
    P p ∨ p ∈ w.pushed := by
  obtain ⟨l, hl, hP⟩ := h
  rw [hl] at hp
  exact (List.mem_append.1 hp).imp (hP p) id

theorem Emits.old {P : Push → Prop} {w w' : World} (h : Emits P w w') {p : Push} (hp : p ∈ w.pushed) :
    p ∈ w'.pushed := by
  obtain ⟨l, hl, -⟩ := h
  rw [hl]
  exact List.mem_append_right l hp

theorem Foot.emits {T : Tbl → Bool} {K : Id → Envelope → Prop} {P : Push → Prop} {w w' : World} (h : Foot T K w w')
    (hP : ∀ p : Push, K p.org p.env → Touches T w.db p.db → P p) : Emits P w w' := by
  obtain ⟨l, hl, hp⟩ := h.pushed
  exact ⟨l, hl, fun p hm => hP p (hp p hm).1 (hp p hm).2.1⟩

/-- The tables that messages write. -/
def messageTables : Tbl → Bool
  | .device | .lease | .usageEvent => true
  | t => Server.pipelineTables t

/-- What a message writes and pushes; only a lease request writes leases. -/
theorem onMessage_within {T : Tbl → Bool} {K : Id → Envelope → Prop} (s : Server) (st : Stream) (env : Envelope)
    (hT : ∀ t, messageTables t = true → t ≠ .lease → T t = true) (hlease : env.type = .LEASE_REQUEST → T .lease = true)
    (hM : ∀ o i k kind b, K o (Server.stepEnvelope i k kind b)) (hW : ∀ o e, e.isWork = false → K o e) :
    Within T K (s.onMessage st env) := by
  have hmono : ∀ {U : Tbl → Bool} {c : Cmd Unit}, (∀ t, U t = true → messageTables t = true) → U .lease = false →
      Within U K c → Within T K c := fun hU hl hc =>
    hc.mono (fun t ht => hT t (hU t ht) fun he => by rw [he, hl] at ht; cases ht) fun _ _ h => h
  have hpipe : ∀ t, Server.pipelineTables t = true → messageTables t = true := by
    intro t
    cases t <;> decide
  have hplan : ∀ t, Server.planTables t = true → messageTables t = true := by
    intro t
    cases t <;> decide
  unfold Server.onMessage
  split
  · exact DB.touchDevice_within (hT _ rfl nofun)
  · next _ hty =>
      refine (Server.onLeaseRequest_within hW s st).mono (fun t ht => ?_) fun _ _ h => h
      by_cases hl : t = .lease
      · rw [hl]
        exact hlease hty
      · refine hT t ?_ hl
        cases t <;> first | rfl | cases ht
  · unfold Server.onStepCompleted
    split
    · exact hmono hpipe rfl (Server.advancePipeline_within (fun o i kind b => hM o i _ kind b) s _)
    · exact hmono hpipe rfl (Within.bind (DB.completeTask_within rfl rfl) fun _ => .done _)
  · exact Within.bind (DB.failTask_within (hT _ rfl nofun)) fun _ => .done _
  · exact hmono hpipe rfl (Server.reconcileTask_within (fun o i kind b => hM o i _ kind b) s)
  · exact hmono hplan rfl (Server.onPlanResult_within st _ fun _ _ => hM _ _ _ _ _)
  · exact .done _

theorem onMessage_foot (s : Server) (st : Stream) (env : Envelope) :
    Within messageTables (fun _ _ => True) (s.onMessage st env) :=
  onMessage_within s st env (fun _ h _ => h) (fun _ => rfl) (fun _ _ _ _ _ => trivial) fun _ _ _ => trivial

/-- What was pushed stays pushed. -/
theorem step_grows (a : API) (w : World) (e : Event) : Emits (fun _ => True) w (step a w e) := by
  have hfoot : ∀ {T : Tbl → Bool} {w' : World}, Foot T (fun _ _ => True) w w' → Emits (fun _ => True) w w' :=
    fun h => h.emits fun _ _ _ => trivial
  refine step_rel (fun w' _ h => .of_eq h) (fun w' w'' h _ hp => ?_) (fun st env _ => ?_) (fun r _ => ?_) (fun _ _ => ?_)
    fun _ _ => ?_
  · obtain ⟨l, hl, hP⟩ := h
    exact ⟨l, by rw [hp, hl], hP⟩
  · exact hfoot (onMessage_foot a.server st env w)
  · exact hfoot (API.serve_foot fun _ => ⟨fun _ _ _ _ => trivial, fun _ _ _ _ _ => trivial, fun _ _ _ _ _ _ _ => trivial⟩)
  · exact hfoot (Server.reapOnce_within (fun _ _ _ => trivial) a.server w)
  · exact hfoot (Server.schedule_within a.server (fun _ _ _ _ => trivial) w)

/-! ## Tasks -/

/-- A step moves no task to `planning`, and to `merged` only by a result that claims it. -/
theorem step_flow {S : Id → TaskStatus → Prop} (h : ∀ k st, st ≠ .merged → st ≠ .planning → S k st)
    (hm : ∀ st env ev, w.hears e = some (st, env) → env.type = .STEP_COMPLETED → env.payload = .stepEvent ev →
      Server.ClaimsMerge ev → S ev.taskId .merged) : Flow S w (step a w e) := by
  refine step_rel (fun w' ht _ => ?_) (fun w' w'' hf hdb _ hi => ?_) (fun st env he => ?_) (fun r _ => ?_)
    (fun _ _ => ?_) fun _ _ => ?_
  · exact Flow.of_flows (Flows.of_touches rfl ht)
  · obtain ⟨hi', hf'⟩ := hf hi
    exact ⟨fun t ht => hi' t (by rwa [← hdb]), show Flows S w.db w''.db by rwa [hdb]⟩
  · exact Server.onMessage_flow a.server st env h (fun ev ht hp => hm st env ev he ht hp) w
  · exact API.serve_flow h w
  · exact Flow.of_within (T := Server.reaperTables) rfl (Server.reapOnce_within (fun _ _ _ => trivial) a.server) w
  · exact Server.schedule_flow a.server w

theorem issued_sample : Issued Sample.world := fun t ht => by
  rw [Sample.no_tasks] at ht
  cases ht

end Apifor
