import Apifor.Lemmas.Dispatch
import Apifor.Lemmas.Gates

/-!
# What the results of the stages make of a store

A pure account of the pipeline: the store after a result, and the step that follows. `Becomes` says
that a handler does just this, up to the tables that the pipeline never looks at.
-/

namespace Apifor

/-! ## What the pipeline sees -/

/-- The tables that gates and dispatches are read from. -/
def pipeTables : Tbl → Bool
  | .task | .pullRequest | .repository | .pinnedWorker | .poolConfig | .workspace => true
  | _ => false

def SeesSame (s s' : Store) : Prop := ∀ t, pipeTables t = true → s' t = s t

section Sees

variable {s s' s'' : Store}

theorem SeesSame.refl (s : Store) : SeesSame s s := fun _ _ => rfl

theorem SeesSame.trans (h : SeesSame s s') (h' : SeesSame s' s'') : SeesSame s s'' :=
  fun t ht => (h' t ht).trans (h t ht)

theorem SeesSame.set {t : Tbl} (h : SeesSame s s') {x x' : Table (key t)} (hx : x' = x) :
    SeesSame (s.set t x) (s'.set t x') := by
  intro t' ht'
  by_cases htt : t' = t
  · subst htt
    rw [Store.set_same, Store.set_same, hx]
  · rw [Store.set_of_ne _ _ htt, Store.set_of_ne _ _ htt, h t' ht']

theorem getTask_congr (ht : s' .task = s .task) (k : Id) : s'.getTask k = s.getTask k := by
  rw [Store.getTask, ht, Store.getTask]

theorem latestPR_congr (hp : s' .pullRequest = s .pullRequest) (k : Id) : s'.latestPR k = s.latestPR k := by
  rw [Store.latestPR, hp, Store.latestPR]

theorem taskRepo_congr (ht : s' .task = s .task) (hr : s' .repository = s .repository) (k : Id) :
    DB.taskRepo s' k = DB.taskRepo s k := by
  have hrepo : s'.getRepo = s.getRepo := funext fun i => by rw [Store.getRepo, hr, Store.getRepo]
  rw [DB.taskRepo, DB.taskRepo, getTask_congr ht, hrepo]

theorem pinnedOf_congr (hp : s' .pinnedWorker = s .pinnedWorker) (o r : Id) :
    DB.pinnedOf s' o r = DB.pinnedOf s o r := by rw [DB.pinnedOf, DB.pinnedOf, Store.pinnedFor, Store.pinnedFor, hp]

theorem flagOf_congr (hc : s' .poolConfig = s .poolConfig) (hw : s' .workspace = s .workspace) (o : Id)
    (f : PoolBehavior → Option Bool) : DB.flagOf s' o f = DB.flagOf s o f := by
  rw [DB.flagOf, DB.flagOf, Store.poolConfig, Store.poolConfig, Store.firstWorkspace, Store.firstWorkspace, hc, hw]

/-- The gate of a task depends on where the task belongs, and on the configuration. -/
theorem gateOf_congr {k : Id} (ht : DB.taskRepo s' k = DB.taskRepo s k) (hp : s' .pinnedWorker = s .pinnedWorker)
    (hc : s' .poolConfig = s .poolConfig) (hw : s' .workspace = s .workspace) (sv : Server) :
    sv.gateOf s' k = sv.gateOf s k := by
  simp only [Server.gateOf, Server.orgOf, Server.repoOf, ht, pinnedOf_congr hp, flagOf_congr hc hw]

theorem SeesSame.taskRepo (h : SeesSame s s') (k : Id) : DB.taskRepo s' k = DB.taskRepo s k :=
  taskRepo_congr (h _ rfl) (h _ rfl) k

theorem SeesSame.latestPR (h : SeesSame s s') (k : Id) : s'.latestPR k = s.latestPR k := latestPR_congr (h _ rfl) k

theorem SeesSame.gateOf (h : SeesSame s s') (sv : Server) (k : Id) : sv.gateOf s' k = sv.gateOf s k :=
  gateOf_congr (h.taskRepo k) (h _ rfl) (h _ rfl) (h _ rfl) sv

end Sees

/-! ## Parts that the pipeline does not see -/

/-- The program runs to its end, beside the pipeline: its tables, the hub and the log are as before. -/
structure Beside (w w' : World) : Prop where
  db : SeesSame w.db w'.db
  hub : w'.hub = w.hub
  pushed : w'.pushed = w.pushed
  testsSkipped : w'.testsSkipped = w.testsSkipped

theorem Beside.refl (w : World) : Beside w w := ⟨SeesSame.refl _, rfl, rfl, rfl⟩

theorem Beside.trans {w w' w'' : World} (h : Beside w w') (h' : Beside w' w'') : Beside w w'' :=
  ⟨h.db.trans h'.db, h'.hub.trans h.hub, h'.pushed.trans h.pushed, h'.testsSkipped.trans h.testsSkipped⟩

def Aside {α : Type} (c : Cmd α) : Prop := ∀ w, ∃ w' x, c.run w = (w', some x) ∧ Beside w w'

namespace Aside

variable {α β : Type}

theorem done (x : α) : Aside (.done x : Cmd α) := fun w => ⟨w, x, rfl, Beside.refl w⟩

theorem bind {c : Cmd α} {g : α → Cmd β} (hc : Aside c) (hg : ∀ x, Aside (g x)) : Aside (c.bind g) := fun w => by
  obtain ⟨w', x, hx, hb⟩ := hc w
  obtain ⟨w'', y, hy, hb'⟩ := hg x w'
  exact ⟨w'', y, by rw [Prog.run_bind_of_eq hx, hy], hb.trans hb'⟩

theorem readOnly {c : Cmd α} (h : DB.ReadOnly c) : Aside c := fun w => by
  obtain ⟨x, hx⟩ := h.run w
  exact ⟨w, x, hx, Beside.refl w⟩

theorem newID (pre : String) : Aside (newID pre) := fun _ => ⟨_, _, rfl, SeesSame.refl _, rfl, rfl, rfl⟩

theorem exec {n : String} {f : Time → Store → Except DbErr (Store × α)}
    (h : ∀ now s s' x, f now s = .ok (s', x) → SeesSame s s') : Aside (exec n f) := fun w => by
  rw [run_exec]
  cases hf : f w.now w.db with
  | error e => exact ⟨w, _, rfl, Beside.refl w⟩
  | ok r => exact ⟨_, _, rfl, h _ _ _ _ hf, rfl, rfl, rfl⟩

theorem insertRow {t : Tbl} (ht : pipeTables t = false) {n : String} {r : Time → Row t} :
    Aside (DB.insertRow n t r) := exec fun now s s' _ h => by
  obtain ⟨u, hu, heq⟩ := map_eq_ok h
  cases heq
  exact fun t' ht' => insert_other hu fun he => by rw [he, ht] at ht'; cases ht'

theorem createNotification (org ty title body link : String) : Aside (DB.createNotification org ty title body link) :=
  bind (readOnly (.query _ _)) fun _ => bind (newID _) fun _ => bind (insertRow rfl) fun _ => done _

theorem recordStepOutput (task ty st out : String) : Aside (DB.recordStepOutput task ty st out) := by
  refine bind (exec fun now s s' _ h => ?_) fun _ => done _
  split at h
  · obtain ⟨u, hu, heq⟩ := map_eq_ok h
    cases heq
    exact fun t' ht' => update_other hu fun he => by rw [he] at ht'; cases ht'
  · cases h

theorem createQAReport (task : Id) (passed : Bool) (summary : String) :
    Aside (DB.createQAReport task passed summary) := by
  refine bind (readOnly (.query _ _)) fun r => ?_
  cases r with
  | error e => exact done _
  | ok v => exact bind (newID _) fun _ => bind (insertRow rfl) fun _ => done _

end Aside

/-! ## Where a handler has come to -/

/-- From `w` the handler has come to `w'`: the pipeline's tables are those of `db`, the log names `sk`,
and nothing was pushed. -/
structure At (w : World) (db : Store) (sk : List Id) (w' : World) : Prop where
  db : SeesSame db w'.db
  hub : w'.hub = w.hub
  pushed : w'.pushed = w.pushed
  testsSkipped : w'.testsSkipped = sk

variable {w w' : World} {db : Store} {sk : List Id} {k : Id} {α β : Type}

theorem At.start (w : World) : At w w.db w.testsSkipped w := ⟨SeesSame.refl _, rfl, rfl, rfl⟩

theorem At.beside {w'' : World} (h : At w db sk w') (hb : Beside w' w'') : At w db sk w'' :=
  ⟨h.db.trans hb.db, hb.hub.trans h.hub, hb.pushed.trans h.pushed, hb.testsSkipped.trans h.testsSkipped⟩

theorem At.aside (h : At w db sk w') {c : Cmd α} (hc : Aside c) :
    ∃ w'' x, c.run w' = (w'', some x) ∧ At w db sk w'' := by
  obtain ⟨w'', x, hx, hb⟩ := hc w'
  exact ⟨w'', x, hx, h.beside hb⟩

theorem SeesSame.setTask {s s' : Store} (h : SeesSame s s') (f : Task → Task) (hf : ∀ t, (f t).id = t.id) :
    SeesSame (s.setTask k f hf) (s'.setTask k f hf) := SeesSame.set h (by rw [h .task rfl])

theorem SeesSame.setPR {s s' : Store} (h : SeesSame s s') (i : Id) (f : PullRequest → PullRequest)
    (hf : ∀ p, (f p).id = p.id) : SeesSame (s.setPR i f hf) (s'.setPR i f hf) :=
  SeesSame.set h (by rw [h .pullRequest rfl])

theorem At.setTask (h : At w db sk w') (f : Task → Task) (hf : ∀ t, (f t).id = t.id) :
    At w (db.setTask k f hf) sk { w' with db := w'.db.setTask k f hf } :=
  ⟨h.db.setTask f hf, h.hub, h.pushed, h.testsSkipped⟩

theorem At.setPR (h : At w db sk w') (i : Id) (f : PullRequest → PullRequest) (hf : ∀ p, (f p).id = p.id) :
    At w (db.setPR i f hf) sk { w' with db := w'.db.setPR i f hf } :=
  ⟨h.db.setPR i f hf, h.hub, h.pushed, h.testsSkipped⟩

/-! ## Dispatches -/

/-- An executor of the org is connected, and its channel has room. -/
def Hub.accepts (h : Hub) (org : Id) : Bool :=
  match h.byOrg org with
  | some n => !(h.chan org n).closed && decide ((h.chan org n).buf.length < chanCap)
  | none => false

/-- A step of the task can be sent: its repository has a clone URL, and its org's channel accepts. -/
def CanSend (h : Hub) (db : Store) (k : Id) : Prop :=
  ∃ tr, DB.taskRepo db k = some tr ∧ tr.cloneURL ≠ "" ∧ h.accepts tr.orgID = true

/-- A step of the task, pushed when the pipeline's tables were those of `db`. -/
structure Dispatched (db : Store) (sk : List Id) (k : Id) (kind : StepKind) (p : Push) : Prop where
  env : ∃ i b, p.env = Server.stepEnvelope i k kind b
  tables : SeesSame db p.db
  testsSkipped : p.testsSkipped = sk
  org : p.org = ((DB.taskRepo db k).map (·.orgID)).getD ""

/-- What a handler makes of the pipeline: its tables, the log, and the step that follows. -/
structure Outcome where
  db : Store
  testsSkipped : List Id
  next : Option StepKind

/-- From `w` the handler ends in `w'` with the outcome `o`; the step that follows was sent if possible. -/
structure Becomes (w : World) (k : Id) (o : Outcome) (w' : World) : Prop where
  tables : SeesSame o.db w'.db
  testsSkipped : w'.testsSkipped = o.testsSkipped
  quiet : (o.next = none ∨ ¬ CanSend w.hub o.db k) → w'.pushed = w.pushed
  sends : ∀ kind, o.next = some kind → CanSend w.hub o.db k →
    ∃ p, w'.pushed = p :: w.pushed ∧ Dispatched o.db o.testsSkipped k kind p

theorem At.becomes (h : At w db sk w') : Becomes w k ⟨db, sk, none⟩ w' :=
  ⟨h.db, h.testsSkipped, fun _ => h.pushed, fun _ hk => by cases hk⟩

theorem run_hubSend_accepts {org : Id} (env : Envelope) (h : w.hub.accepts org = true) :
    ∃ hub, (hubSend org env).run w = ({ w with hub := hub }.record org env, some true) := by
  unfold Hub.accepts at h
  cases hn : w.hub.byOrg org with
  | none => rw [hn] at h; cases h
  | some n =>
      rw [hn] at h
      simp only [Bool.and_eq_true, Bool.not_eq_true', decide_eq_true_eq] at h
      refine ⟨w.hub.setChan org n { w.hub.chan org n with buf := (w.hub.chan org n).buf ++ [env] }, ?_⟩
      simp only [hubSend, Prog.run_act, hn, World.trySend, h.1, h.2, Bool.false_eq_true, if_false, if_true]
      rfl

theorem run_hubSend_refuses {org : Id} {env : Envelope} (h : w.hub.accepts org = false) :
    ((hubSend org env).run w).1 = w := by
  unfold Hub.accepts at h
  simp only [hubSend, Prog.run_act]
  cases hn : w.hub.byOrg org with
  | none => rfl
  | some n =>
      rw [hn] at h
      simp only [Prog.run_act, World.trySend]
      split_ifs with hc hl
      · rfl
      · simp [hc, hl] at h
      · rfl

/-- The end of both dispatches. -/
theorem At.sendStep (h : At w db sk w') {kind : StepKind} (blob : DB.TaskRepo → String) {tr : DB.TaskRepo}
    (htr : DB.taskRepo db k = some tr) (hurl : tr.cloneURL ≠ "") :
    Becomes w k ⟨db, sk, some kind⟩
      (((newID "stp").bind fun i =>
        (hubSend tr.orgID (Server.stepEnvelope i k kind (blob tr))).bind fun _ => .done ()).run w').1 := by
  have hfirst : ∀ {c : Cmd Bool} {v : World}, ((c.bind fun _ => (.done () : Cmd Unit)).run v).1 = (c.run v).1 := by
    intro c v
    rw [Prog.run_bind]
    split <;> rfl
  simp only [newID, Prog.run_bind, Prog.run_lift]
  rw [← Prog.run_bind, hfirst]
  cases hacc : w.hub.accepts tr.orgID with
  | true =>
      have hopen : { w' with drawn := w'.drawn + 1 }.hub.accepts tr.orgID = true := by rw [h.hub, hacc]
      obtain ⟨hub, hrun⟩ :=
        run_hubSend_accepts (Server.stepEnvelope ("stp" ++ "_" ++ w'.ulid w'.drawn) k kind (blob tr)) hopen
      rw [hrun]
      have hcan : CanSend w.hub db k := ⟨tr, htr, hurl, hacc⟩
      refine ⟨h.db, h.testsSkipped, fun hq => ?_, fun kind' hk _ => ?_⟩
      · rcases hq with hq | hq
        · cases hq
        · exact absurd hcan hq
      · cases hk
        exact ⟨_, congrArg (List.cons _) h.pushed, ⟨_, _, rfl⟩, h.db, h.testsSkipped, by rw [htr]; rfl⟩
  | false =>
      rw [run_hubSend_refuses (by rw [h.hub, hacc])]
      refine ⟨h.db, h.testsSkipped, fun _ => h.pushed, fun kind' _ hcan => ?_⟩
      obtain ⟨tr', htr', -, hacc'⟩ := hcan
      rw [htr, Option.some.injEq] at htr'
      rw [← htr', hacc] at hacc'
      cases hacc'

theorem At.cannotSend (h : At w db sk w') {next : Option StepKind} (hno : ¬ CanSend w.hub db k) :
    Becomes w k ⟨db, sk, next⟩ w' :=
  ⟨h.db, h.testsSkipped, fun _ => h.pushed, fun _ _ hcan => absurd hcan hno⟩

theorem At.dispatchStep (h : At w db sk w') (kind : StepKind) (model : String) :
    Becomes w k ⟨db, sk, some kind⟩ ((Server.dispatchStep k kind model).run w').1 := by
  simp only [Server.dispatchStep, Prog.bind_def, Prog.run_bind_of_eq (DB.run_getTaskRepo k)]
  rw [h.db.taskRepo]
  cases htr : DB.taskRepo db k with
  | none =>
      refine h.cannotSend ?_
      rintro ⟨tr, htr', -⟩
      rw [htr] at htr'
      cases htr'
  | some tr =>
      by_cases hurl : tr.cloneURL = ""
      · simp only [hurl, if_true]
        refine h.cannotSend ?_
        rintro ⟨tr', htr', hne, -⟩
        rw [htr, Option.some.injEq] at htr'
        exact hne (htr' ▸ hurl)
      · simp only [hurl, if_false]
        exact h.sendStep (fun tr => Server.ExecInstructions.blob
          { repoURL := tr.cloneURL, baseBranch := tr.defaultBranch, branch := "apifor/" ++ k,
            changeReq := tr.prompt, model := model }) htr hurl

theorem At.dispatchReview (h : At w db sk w') :
    Becomes w k ⟨db, sk, some .REVIEW⟩ ((Server.dispatchReview k).run w').1 := by
  obtain ⟨w'', m, hrun, hat⟩ := h.aside (.readOnly (DB.readOnly_getAgentModel "reviewer"))
  simp only [Server.dispatchReview, Prog.bind_def, Prog.run_bind_of_eq hrun]
  exact hat.dispatchStep .REVIEW m

theorem At.dispatchMerge (h : At w db sk w') :
    Becomes w k ⟨db, sk, some .MERGE⟩ ((API.dispatchMerge k).run w').1 := by
  simp only [API.dispatchMerge, Prog.bind_def, Prog.run_bind_of_eq (DB.run_getTaskRepo k)]
  rw [h.db.taskRepo]
  cases htr : DB.taskRepo db k with
  | none =>
      refine h.cannotSend ?_
      rintro ⟨tr, htr', -⟩
      rw [htr] at htr'
      cases htr'
  | some tr =>
      by_cases hurl : tr.cloneURL = ""
      · simp only [hurl, if_true]
        refine h.cannotSend ?_
        rintro ⟨tr', htr', hne, -⟩
        rw [htr, Option.some.injEq] at htr'
        exact hne (htr' ▸ hurl)
      · simp only [hurl, if_false]
        exact h.sendStep (fun tr => API.mergeBlob tr k) htr hurl

/-! ## The outcome of each result -/

/-- A change of tasks' statuses leaves where they belong. -/
theorem taskRepo_update {p : Task → Bool} {f : Task → Task} {hf : ∀ t, key .task (f t) = key .task t}
    (ho : ∀ t, (f t).orgId = t.orgId) (hr : ∀ t, (f t).repoId = t.repoId)
    (hd : ∀ t, (f t).description = t.description) (i : Id) :
    DB.taskRepo (db.set .task ((db .task).update p f hf)) i = DB.taskRepo db i := by
  have hrepo : (db.set .task ((db .task).update p f hf)).getRepo = db.getRepo := funext fun j => by
    rw [Store.getRepo, Store.set_of_ne _ _ (by decide), Store.getRepo]
  rw [DB.taskRepo, DB.taskRepo, hrepo, Store.getTask, Store.set_same, Table.get?_update, Store.getTask, Option.map_map]
  refine congrArg (Option.map · ((db .task).get? (i, 0))) (funext fun t => ?_)
  cases hp : p t <;> simp [hp, ho, hr, hd]

theorem taskRepo_setTask {f : Task → Task} {hf : ∀ t, (f t).id = t.id} (ho : ∀ t, (f t).orgId = t.orgId)
    (hr : ∀ t, (f t).repoId = t.repoId) (hd : ∀ t, (f t).description = t.description) (i : Id) :
    DB.taskRepo (db.setTask k f hf) i = DB.taskRepo db i := taskRepo_update ho hr hd i

/-- A change of the latest pull request of a task. -/
def Store.setLatest (s : Store) (k : Id) (f : PullRequest → PullRequest)
    (hf : ∀ p, (f p).id = p.id := by intro; rfl) : Store :=
  match s.latestPR k with
  | some p => s.setPR p.id f hf
  | none => s

theorem setLatest_other {f : PullRequest → PullRequest} {hf : ∀ p, (f p).id = p.id} {t : Tbl} (ht : t ≠ .pullRequest) :
    db.setLatest k f hf t = db t := by
  unfold Store.setLatest
  cases db.latestPR k with
  | some p => exact Store.setPR_other ht
  | none => rfl

namespace Server

/-- The pull request that a result of `EXEC` makes. -/
def newPR (w : World) (k : Id) (r : StepResult) (t : Task) : PullRequest where
  id := "pr" ++ "_" ++ w.ulid w.drawn
  orgId := t.orgId
  taskId := some k
  repoId := if t.repoId = some "" then none else t.repoId
  url := some r.url
  branch := some r.branch
  createdAt := w.now

/-- The store with the new pull request; a task that is unknown, or a row that is refused, changes nothing. -/
def execDb (w : World) (k : Id) (r : StepResult) : Store :=
  match w.db.getTask k with
  | none => w.db
  | some t =>
      match insert .all .pullRequest (newPR w k r t) w.db with
      | .ok db => db.setTask k (fun t => { t with status := .in_review }) Store.id_inReview
      | .error _ => w.db

/-- The worker pinned to the task's repository does not run tests. -/
def skipsTests (db : Store) (k : Id) : Bool :=
  ((DB.pinnedOf db (orgOf db k) (repoOf db k)).map fun cfg => !cfg.runTests).getD false

def afterExec (w : World) (k : Id) (r : StepResult) : Outcome :=
  let db := execDb w k r
  if skipsTests w.db k then ⟨db, ((db.latestPR k).map (·.id)).toList ++ w.testsSkipped, some .REVIEW⟩
  else ⟨db, w.testsSkipped, some .TEST⟩

def afterTest (w : World) (k : Id) (r : StepResult) : Outcome :=
  let db := w.db.setLatest k fun p => { p with ciStatus := if r.passed then .passed else .failed }
  if r.passed then ⟨db, w.testsSkipped, some .REVIEW⟩
  else
    ⟨db.setTask k fun t => { t with status := .failed, blockedReason := some "gate: testes falharam" },
      w.testsSkipped, none⟩

def humanOk (db : Store) (k : Id) : Bool :=
  ((db.latestPR k).map fun p => decide (p.humanReviewStatus = .approved)).getD false

variable (s : Server)

def afterReview (w : World) (k : Id) (r : StepResult) : Outcome :=
  let db := w.db.setLatest k fun p => { p with aiReviewStatus := if r.approved then .approved else .changes }
  if !r.approved then
    ⟨db.setTask k fun t => { t with status := .failed, blockedReason := some "gate: revisão IA pediu mudanças" },
      w.testsSkipped, none⟩
  else if s.gateOf w.db k && !humanOk w.db k then
    ⟨db.setTask k fun t => { t with status := .blocked, blockedReason := some "human_review" }, w.testsSkipped, none⟩
  else ⟨db, w.testsSkipped, some .MERGE⟩

theorem id_merged (t : Task) : ({ t with status := .merged } : Task).id = t.id := rfl

def afterMerge (w : World) (k : Id) (r : StepResult) : Outcome :=
  let db := w.db.setLatest k fun p => { p with status := .merged, mergedAt := some w.now, url := some r.url }
  ⟨db.setTask k (fun t => { t with status := .merged }) id_merged, w.testsSkipped, none⟩

/-- What `advancePipeline` makes of a result. -/
def afterResult (w : World) (k : Id) (r : StepResult) : Outcome :=
  if r.kind = "exec" then afterExec w k r
  else if r.kind = "test" then afterTest w k r
  else if r.kind = "review" then s.afterReview w k r
  else if r.kind = "merge" then afterMerge w k r
  else ⟨w.db, w.testsSkipped, none⟩

end Server

/-! ## The handlers have these outcomes -/

theorem At.updateTask (h : At w db sk w') (n : String) (f : Task → Task) (hf : ∀ t, (f t).id = t.id)
    (hr : ∀ t, refs .task (f t) = refs .task t) :
    ∃ w'' x, (DB.updateTask n k f hf).run w' = (w'', some x) ∧ At w (db.setTask k f hf) sk w'' :=
  ⟨_, _, DB.run_updateTask n k f hf hr, h.setTask f hf⟩

theorem At.updatePR (h : At w db sk w') (n : String) (i : Id) (f : PullRequest → PullRequest)
    (hf : ∀ p, (f p).id = p.id) (hr : ∀ p, refs .pullRequest (f p) = refs .pullRequest p) :
    ∃ w'' x, (DB.updatePR n i f hf).run w' = (w'', some x) ∧ At w (db.setPR i f hf) sk w'' :=
  ⟨_, _, DB.run_updatePR n i f hf hr, h.setPR i f hf⟩

theorem At.setCIResult (h : At w db sk w') (passed : Bool) (summary : String) :
    ∃ w'' x, (DB.setCIResult k passed summary).run w' = (w'', some x) ∧
      At w (db.setLatest k fun p => { p with ciStatus := if passed then .passed else .failed }) sk w'' := by
  simp only [DB.setCIResult, Prog.bind_def, Prog.run_bind_of_eq (DB.run_prIDByTask k), h.db.latestPR, Store.setLatest]
  cases db.latestPR k with
  | none => exact ⟨w', _, rfl, h⟩
  | some p =>
      obtain ⟨w1, x, hrun, h1⟩ := h.updatePR "SetCIResult" p.id
        (fun p => { p with ciStatus := if passed then .passed else .failed }) (fun _ => rfl) fun _ => rfl
      simp only [Option.map, row, Prog.run_bind_of_eq hrun]
      cases x with
      | error e => exact ⟨w1, _, rfl, h1⟩
      | ok _ => exact h1.aside (Aside.bind (Aside.newID "ci") fun _ => Aside.insertRow rfl)

theorem At.setAIReview (h : At w db sk w') (approved : Bool) :
    ∃ w'' x, (DB.setAIReview k approved).run w' = (w'', some x) ∧
      At w (db.setLatest k fun p => { p with aiReviewStatus := if approved then .approved else .changes }) sk w'' := by
  rw [DB.run_setAIReview, h.db.latestPR, Store.setLatest]
  cases db.latestPR k with
  | none => exact ⟨w', _, rfl, h⟩
  | some p =>
      exact ⟨_, _, rfl, h.setPR p.id
        (fun p => { p with aiReviewStatus := if approved then .approved else .changes }) fun _ => rfl⟩

theorem At.logTestsSkipped (h : At w db sk w') :
    ∃ w'', (Server.logTestsSkipped k).run w' = (w'', some ()) ∧
      At w db (((db.latestPR k).map (·.id)).toList ++ sk) w'' :=
  ⟨_, rfl, h.db, h.hub, h.pushed, by rw [← h.db.latestPR, ← h.testsSkipped]⟩

theorem At.markMerged (h : At w db sk w') (hnow : w'.now = w.now) (url : String) :
    ∃ w'' x, (DB.markMerged k url).run w' = (w'', some x) ∧
      At w ((db.setLatest k fun p => { p with status := .merged, mergedAt := some w.now, url := some url }).setTask k
        fun t => { t with status := .merged }) sk w'' := by
  simp only [DB.markMerged, Prog.bind_def, Prog.run_bind_of_eq (DB.run_prIDByTask k), h.db.latestPR, Store.setLatest]
  cases db.latestPR k with
  | none => exact h.updateTask "MarkMerged" (fun t => { t with status := .merged }) (fun _ => rfl) fun _ => rfl
  | some p =>
      obtain ⟨w1, x, hrun, h1⟩ := h.updatePR "MarkMerged (pull_request)" p.id
        (fun p => { p with status := .merged, mergedAt := some w'.now, url := some url }) (fun _ => rfl) fun _ => rfl
      simp only [Option.map, row, timeNow, Prog.run_bind, Prog.run_lift, hrun]
      rw [hnow] at h1
      exact h1.updateTask "MarkMerged" (fun t => { t with status := .merged }) (fun _ => rfl) fun _ => rfl

theorem At.saveExecResult (w : World) (k : Id) (r : Server.StepResult) :
    ∃ w'' x, (DB.saveExecResult k r.branch r.url).run w = (w'', some x) ∧
      At w (Server.execDb w k r) w.testsSkipped w'' := by
  simp only [DB.saveExecResult, Prog.bind_def, Prog.run_bind, run_query, Server.execDb]
  cases ht : w.db.getTask k with
  | none => exact ⟨w, _, rfl, At.start w⟩
  | some t =>
      simp only [Option.map, row, newID, Prog.run_bind, Prog.run_lift, DB.insertRow, run_exec]
      cases hi : insert .all .pullRequest (Server.newPR w k r t) w.db with
      | error e =>
          have hi' := hi
          simp only [Server.newPR] at hi'
          simp only [hi', Except.map]
          exact ⟨_, _, rfl, SeesSame.refl _, rfl, rfl, rfl⟩
      | ok db =>
          have hi' := hi
          simp only [Server.newPR] at hi'
          simp only [hi', Except.map]
          have hat : At w db w.testsSkipped { w with drawn := w.drawn + 1, db := db } := ⟨SeesSame.refl _, rfl, rfl, rfl⟩
          exact hat.updateTask "SaveExecResult" (fun t => { t with status := .in_review }) (fun _ => rfl) fun _ => rfl

/-- The exec result's store has the task where it was. -/
theorem taskRepo_execDb (w : World) (k : Id) (r : Server.StepResult) (i : Id) :
    DB.taskRepo (Server.execDb w k r) i = DB.taskRepo w.db i := by
  unfold Server.execDb
  cases w.db.getTask k with
  | none => rfl
  | some t =>
      dsimp only
      cases hi : insert .all .pullRequest (Server.newPR w k r t) w.db with
      | error e => rfl
      | ok db =>
          have hins : DB.taskRepo db i = DB.taskRepo w.db i :=
            taskRepo_congr (insert_other hi (by decide)) (insert_other hi (by decide)) i
          refine (taskRepo_setTask ?_ ?_ ?_ i).trans hins <;> exact fun _ => rfl

theorem execDb_other (w : World) (k : Id) (r : Server.StepResult) {t : Tbl} (ht : t ≠ .task) (hp : t ≠ .pullRequest) :
    Server.execDb w k r t = w.db t := by
  unfold Server.execDb
  cases w.db.getTask k with
  | none => rfl
  | some _ =>
      dsimp only
      cases hi : insert .all .pullRequest (Server.newPR w k r _) w.db with
      | error e => rfl
      | ok db =>
          dsimp only
          rw [Store.setTask_other ht, insert_other hi hp]

namespace Server

theorem advanceExec_becomes (w : World) (k : Id) (r : StepResult) :
    Becomes w k (afterExec w k r) ((advanceExec (orgOf w.db k) k r).run w).1 := by
  obtain ⟨w1, _, hrun1, h1⟩ := At.saveExecResult w k r
  obtain ⟨w2, _, hrun2, h2⟩ := h1.aside (Aside.recordStepOutput k "exec" "done" ("PR " ++ r.branch))
  obtain ⟨w3, _, hrun3, h3⟩ :=
    h2.aside (Aside.createNotification (orgOf w.db k) "pr" "PR aberto" ("branch " ++ r.branch) "/prs")
  have hrepo : repoOf w3.db k = repoOf w.db k := by rw [repoOf, repoOf, h3.db.taskRepo, taskRepo_execDb]
  have hcfg : DB.pinnedOf w3.db (orgOf w.db k) (repoOf w.db k) = DB.pinnedOf w.db (orgOf w.db k) (repoOf w.db k) :=
    pinnedOf_congr ((h3.db .pinnedWorker rfl).trans (execDb_other w k r (by decide) (by decide))) _ _
  simp only [advanceExec, afterExec, skipsTests, Prog.bind_def, Prog.run_bind_of_eq hrun1, Prog.run_bind_of_eq hrun2,
    Prog.run_bind_of_eq hrun3, Prog.run_bind_of_eq (run_taskRepoID k), hrepo,
    Prog.run_bind_of_eq (DB.run_pinnedWorkerForRepo _ _), hcfg]
  rcases Option.eq_none_or_eq_some (DB.pinnedOf w.db (orgOf w.db k) (repoOf w.db k)) with hpin | ⟨cfg, hpin⟩
  · simpa [hpin] using h3.dispatchStep .TEST ""
  · cases htests : cfg.runTests with
    | true => simpa [hpin, htests] using h3.dispatchStep .TEST ""
    | false =>
        obtain ⟨w4, _, hrun4, h4⟩ :=
          h3.aside (Aside.recordStepOutput k "test" "skipped" "testes desligados no worker")
        obtain ⟨w5, hrun5, h5⟩ := h4.logTestsSkipped (k := k)
        simpa [hpin, htests, Prog.run_bind_of_eq hrun4, Prog.run_bind_of_eq hrun5] using h5.dispatchReview

theorem advanceTest_becomes (org : Id) (w : World) (k : Id) (r : StepResult) :
    Becomes w k (afterTest w k r) ((advanceTest org k r).run w).1 := by
  obtain ⟨w1, _, hrun1, h1⟩ := (At.start w).setCIResult (k := k) r.passed r.summary
  obtain ⟨w2, _, hrun2, h2⟩ := h1.aside (Aside.createQAReport k r.passed r.summary)
  simp only [advanceTest, afterTest, Prog.bind_def, Prog.run_bind_of_eq hrun1, Prog.run_bind_of_eq hrun2]
  cases hp : r.passed with
  | true =>
      obtain ⟨w3, _, hrun3, h3⟩ := h2.aside (Aside.recordStepOutput k "test" "done" r.summary)
      rw [hp] at h3
      simpa [Prog.run_bind_of_eq hrun3] using h3.dispatchReview
  | false =>
      obtain ⟨w3, _, hrun3, h3⟩ := h2.aside (Aside.recordStepOutput k "test" "failed" r.summary)
      obtain ⟨w4, _, hrun4, h4⟩ := h3.updateTask "FailTask" (k := k)
        (fun t => { t with status := .failed, blockedReason := some "gate: testes falharam" }) (fun _ => rfl) fun _ => rfl
      obtain ⟨w5, _, hrun5, h5⟩ :=
        h4.aside (Aside.createNotification org "fail" "Tarefa falhou" "testes vermelhos" "/tasks")
      rw [hp] at h5
      simpa [Prog.run_bind_of_eq hrun3, DB.failTask, Prog.run_bind_of_eq hrun4, hrun5] using h5.becomes

theorem advanceMerge_becomes (org : Id) (w : World) (k : Id) (r : StepResult) :
    Becomes w k (afterMerge w k r) ((advanceMerge org k r).run w).1 := by
  obtain ⟨w1, _, hrun1, h1⟩ := (At.start w).markMerged (k := k) rfl r.url
  obtain ⟨w2, _, hrun2, h2⟩ := h1.aside (Aside.createNotification org "merge" "Tarefa concluída" "merge realizado" "/prs")
  simpa [advanceMerge, afterMerge, Prog.run_bind_of_eq hrun1, hrun2] using h2.becomes

/-- The gate after a change of pull requests is the one before. -/
theorem gateOf_setLatest (s : Server) {db : Store} {k : Id} {f : PullRequest → PullRequest}
    {hf : ∀ p, (f p).id = p.id} : s.gateOf (db.setLatest k f hf) k = s.gateOf db k :=
  gateOf_congr (taskRepo_congr (setLatest_other (by decide)) (setLatest_other (by decide)) k)
    (setLatest_other (by decide)) (setLatest_other (by decide)) (setLatest_other (by decide)) s

theorem latestPR_setLatest {db : Store} {k : Id} {f : PullRequest → PullRequest} {hf : ∀ p, (f p).id = p.id}
    (ht : ∀ p, (f p).taskId = p.taskId) : (db.setLatest k f hf).latestPR k = (db.latestPR k).map f := by
  unfold Store.setLatest
  cases hl : db.latestPR k with
  | none => exact hl
  | some p => exact latestPR_setPR_self ht hl

theorem humanOk_setLatest {db : Store} {k : Id} {f : PullRequest → PullRequest} {hf : ∀ p, (f p).id = p.id}
    (ht : ∀ p, (f p).taskId = p.taskId) (hh : ∀ p, (f p).humanReviewStatus = p.humanReviewStatus) :
    humanOk (db.setLatest k f hf) k = humanOk db k := by
  rw [humanOk, humanOk, latestPR_setLatest ht, Option.map_map]
  refine congrArg (Option.getD · false) (congrArg (Option.map · (db.latestPR k)) (funext fun p => ?_))
  simp [hh]

theorem advanceReview_becomes (s : Server) (org : Id) (w : World) (k : Id) (r : StepResult) :
    Becomes w k (s.afterReview w k r) ((s.advanceReview org k r).run w).1 := by
  obtain ⟨w1, _, hrun1, h1⟩ := (At.start w).setAIReview (k := k) r.approved
  obtain ⟨w2, _, hrun2, h2⟩ := h1.aside (Aside.recordStepOutput k "review" (boolStatus r.approved) r.comments)
  have hgate : s.gateOf w2.db k = s.gateOf w.db k := (h2.db.gateOf s k).trans (gateOf_setLatest s)
  have hhuman : humanOk w2.db k = humanOk w.db k := by
    rw [humanOk, h2.db.latestPR, ← humanOk]
    exact humanOk_setLatest (fun _ => rfl) fun _ => rfl
  simp only [advanceReview, afterReview, Prog.bind_def, Prog.run_bind_of_eq hrun1, Prog.run_bind_of_eq hrun2]
  cases ha : r.approved with
  | false =>
      rw [ha] at h2
      obtain ⟨w3, _, hrun3, h3⟩ := h2.updateTask "FailTask" (k := k)
        (fun t => { t with status := .failed, blockedReason := some "gate: revisão IA pediu mudanças" }) (fun _ => rfl)
        fun _ => rfl
      obtain ⟨w4, _, hrun4, h4⟩ :=
        h3.aside (Aside.createNotification org "fail" "Tarefa falhou" "revisão IA pediu mudanças" "/tasks")
      simpa [DB.failTask, Prog.run_bind_of_eq hrun3, hrun4] using h4.becomes
  | true =>
      rw [ha] at h2
      obtain ⟨w3, _, hrun3, h3⟩ := h2.updateTask "SetTaskBlocked" (k := k)
        (fun t => { t with status := .blocked, blockedReason := some "human_review" }) (fun _ => rfl) fun _ => rfl
      obtain ⟨w4, _, hrun4, h4⟩ := h3.aside (Aside.createNotification org "intervention" "Revisão humana pendente"
        "uma tarefa aguarda aprovação" "/interventions")
      have hask : (DB.humanApproved k).run w2 = (w2, some (humanOk w.db k)) := by
        rw [DB.run_humanApproved, ← hhuman]
        rfl
      simp only [Bool.not_true, Bool.false_eq_true, if_false, Prog.run_bind_of_eq (run_mergeGate s k), hgate]
      cases hg : s.gateOf w.db k with
      | false => simpa [Prog.bind] using h2.dispatchStep .MERGE ""
      | true =>
          simp only [if_true, Prog.run_bind_of_eq hask]
          cases hh : humanOk w.db k with
          | true => simpa using h2.dispatchStep .MERGE ""
          | false => simpa [DB.setTaskBlocked, Prog.run_bind_of_eq hrun3, hrun4] using h4.becomes

/-- `advancePipeline` makes of a result what the account says. -/
theorem advancePipeline_becomes (s : Server) (w : World) (k : Id) (r : StepResult) :
    Becomes w k (s.afterResult w k r) ((s.advancePipeline k r).run w).1 := by
  simp only [advancePipeline, afterResult, Prog.bind_def, Prog.run_bind_of_eq (run_taskOrg k)]
  split_ifs
  · exact advanceExec_becomes w k r
  · exact advanceTest_becomes _ w k r
  · exact advanceReview_becomes s _ w k r
  · exact advanceMerge_becomes _ w k r
  · exact (At.start w).becomes

/-! ## Snapshots, plans and answers -/

/-- The step that the reconciliation dispatches, by the pull request's statuses and the gate. -/
def kindFor (gate : Bool) (ci : CIStatus) (ai hu : ReviewStatus) : Option StepKind :=
  if ci = .none then some .TEST
  else if ci = .passed ∧ ai = .none then some .REVIEW
  else if ai = .approved ∧ (gate = false ∨ hu = .approved) then some .MERGE
  else none

/-- It leaves the task to a human instead. -/
def blocksFor (gate : Bool) (ci : CIStatus) (ai hu : ReviewStatus) : Bool :=
  gate && decide (ci ≠ .none ∧ ai = .approved ∧ hu ≠ .approved)

/-- The pull request's statuses, for a task that is not over. -/
def openPR (db : Store) (k : Id) : Option (CIStatus × ReviewStatus × ReviewStatus) :=
  (DB.pipelineState db k).bind fun ps => if isTerminal ps.status then none else ps.pr

def reconcileKind (s : Server) (db : Store) (k : Id) : Option StepKind :=
  (openPR db k).bind fun v => kindFor (s.gateOf db k) v.1 v.2.1 v.2.2

def reconcileBlocks (s : Server) (db : Store) (k : Id) : Bool :=
  ((openPR db k).map fun v => blocksFor (s.gateOf db k) v.1 v.2.1 v.2.2).getD false

def afterSnapshot (s : Server) (w : World) (k : Id) : Outcome :=
  if s.reconcileBlocks w.db k then
    ⟨w.db.setTask k fun t => { t with status := .blocked, blockedReason := some "human_review" }, w.testsSkipped, none⟩
  else ⟨w.db, w.testsSkipped, s.reconcileKind w.db k⟩

theorem reconcileTask_becomes (s : Server) (w : World) (k : Id) :
    Becomes w k (s.afterSnapshot w k) ((s.reconcileTask k).run w).1 := by
  have h := At.start w
  simp only [reconcileTask, afterSnapshot, reconcileBlocks, reconcileKind, openPR, Prog.bind_def,
    Prog.run_bind_of_eq (DB.run_getTaskPipelineState k)]
  rcases Option.eq_none_or_eq_some (DB.pipelineState w.db k) with hps | ⟨⟨st, pr⟩, hps⟩
  · simpa [hps] using h.becomes
  · cases hst : isTerminal st with
    | true => simpa [hps, hst] using h.becomes
    | false =>
        cases pr with
        | none => simpa [hps, hst] using h.becomes
        | some v =>
            obtain ⟨ci, ai, hu⟩ := v
            by_cases hci : ci = .none
            · simpa [hps, hst, hci, kindFor, blocksFor] using h.dispatchStep .TEST ""
            · by_cases hrev : ci = .passed ∧ ai = .none
              · simpa [hps, hst, hrev, kindFor, blocksFor] using h.dispatchReview
              · by_cases hai : ai = .approved
                · obtain ⟨w1, _, hrun1, h1⟩ := h.updateTask "SetTaskBlocked" (k := k)
                    (fun t => { t with status := .blocked, blockedReason := some "human_review" }) (fun _ => rfl)
                    fun _ => rfl
                  have hmerge := h.dispatchStep (k := k) .MERGE ""
                  by_cases hg : s.gateOf w.db k = true
                  · by_cases hhu : hu = .approved
                    · simpa [hps, hst, hci, hai, hg, hhu, kindFor, blocksFor, Prog.run_bind_of_eq (run_mergeGate s k)]
                        using hmerge
                    · simpa [hps, hst, hci, hai, hg, hhu, kindFor, blocksFor, Prog.run_bind_of_eq (run_mergeGate s k),
                        DB.setTaskBlocked, Prog.run_bind_of_eq hrun1] using h1.becomes
                  · simpa [hps, hst, hci, hai, hg, kindFor, blocksFor, Prog.run_bind_of_eq (run_mergeGate s k)]
                      using hmerge
                · simpa [hps, hst, hci, hrev, hai, kindFor, blocksFor] using h.becomes

end Server

end Apifor
