import Apifor.Theorems.Manual

/-!
# The worker of a repository

The rules of a plan and the three capabilities come from the row that one query takes, and the coder's model
in mode `pinned` from a row that another one takes: when both take the row of one enabled worker. Said of the
pipeline itself: of the prompts of plans, of `EXEC` steps, of the step after them, and of the gate.
-/

namespace Apifor

namespace DB

variable {w : World} {s : Store} {org repo : Id} {p q : PinnedWorker}

/-! ## The two queries -/

def isEnabled (p : PinnedWorker) : Bool := p.settings.enabled.getD true

/-- An enabled worker of the repository. -/
def Enabled (s : Store) (org repo : Id) (p : PinnedWorker) : Prop :=
  p ∈ (s .pinnedWorker).rows ∧ p.orgId = org ∧ p.repoId = some repo ∧ isEnabled p = true

/-- The rows of which `PinnedModelForRepo` takes any one. -/
def modelRows (s : Store) (org repo : Id) : List PinnedWorker :=
  (s .pinnedWorker).rows.filter fun p => decide (p.workspaceId = s.firstWorkspace org ∧ p.repoId = some repo)

/-- The model of the row that is taken, if it has one. -/
def modelOf (p : PinnedWorker) : String := p.settings.model.getD ""

theorem run_pinnedModelForRepo (hr : repo ≠ "") :
    (pinnedModelForRepo org repo).run w = (w, some (((modelRows w.db org repo).head?.map modelOf).getD "")) := by
  simp only [pinnedModelForRepo, if_neg hr, Prog.bind_def, Prog.run_bind, run_firstWorkspace, run_query]
  rw [modelRows, List.head?_filter]
  cases (w.db .pinnedWorker).rows.find? fun p =>
    decide (p.workspaceId = w.db.firstWorkspace org ∧ p.repoId = some repo) <;> rfl

/-- Where every row that may be taken has the same model, that is the coder's in mode `pinned`. -/
theorem run_pinnedModelForRepo_of {m : String} (hr : repo ≠ "") (hne : m ≠ "" → modelRows w.db org repo ≠ [])
    (hm : ∀ q ∈ modelRows w.db org repo, modelOf q = m) :
    (pinnedModelForRepo org repo).run w = (w, some m) := by
  rw [run_pinnedModelForRepo hr]
  cases hrows : modelRows w.db org repo with
  | nil =>
      rw [hrows] at hne
      obtain rfl : m = "" := by
        by_contra h
        exact hne h rfl
      rfl
  | cons q qs =>
      have hq := hm q (hrows ▸ List.mem_cons_self)
      rw [List.head?_cons, Option.map_some, Option.getD_some, hq]

/-! ## What the pipeline does by a configuration -/

/-- What the pipeline does without a worker: no rules, and every capability. -/
def Neutral (cfg : PinnedRepoCfg) : Prop :=
  cfg.rules = "" ∧ cfg.openPR = true ∧ cfg.runTests = true ∧ cfg.autoMerge = true

/-- A task's repository, as the pipeline looks it up. -/
structure RepoOf (org repo : Id) (tr : TaskRepo) : Prop where
  org : tr.orgID = org
  repo : tr.repoID = repo

/-- A task of the repository. -/
def TaskOf (s : Store) (org repo k : Id) : Prop := Server.orgOf s k = org ∧ Server.repoOf s k = repo

/-- The `EXEC` step of a planned task. -/
def execEnvelope (stepID : Id) (pr : PlanResult) (tr : TaskRepo) (model : String) (openPR : Bool) : Envelope :=
  Server.stepEnvelope stepID pr.taskId .EXEC
    (Server.ExecInstructions.blob
      { repoURL := tr.cloneURL, baseBranch := tr.defaultBranch, branch := "apifor/" ++ pr.taskId, changeReq := tr.prompt,
        targetFiles := pr.targetFiles, model := model, openPR := openPR })

/-- The pipeline handles the repository's tasks by the configuration: plans are asked for with its rules, `EXEC`
steps sent with its `open_pr`, followed by tests if it runs them, and merges wait for a human as it says. -/
structure Applies (w : World) (org repo : Id) (cfg : PinnedRepoCfg) : Prop where
  rules : ∀ (a : API) (act : RoutineAction), act.repoId = repo →
    Manual.seen ((a.createAndPlan org act.title act.prompt act.refs act.repoId).run w).1 =
      Manual.leaves a.server.rls w org (w.db.firstWorkspace org) act fun s =>
        API.withRules (Manual.planPrompt s org act) (some cfg)
  openPR : ∀ (st : Stream) (pr : PlanResult) (tr : TaskRepo) (m : String), TaskOf w.db org repo pr.taskId →
    RepoOf org repo tr → (Server.coderModel tr).run w = (w, some m) →
    ((Server.dispatchExec st pr tr).run w).1.pushed =
      ((streamSend st (execEnvelope ("stp" ++ "_" ++ w.ulid w.drawn) pr tr m cfg.openPR)).run w).1.pushed
  runTests : ∀ (k : Id) (r : Server.StepResult), TaskOf w.db org repo k →
    ∃ o, Becomes w k o ((Server.advanceExec org k r).run w).1 ∧ o.next = some (if cfg.runTests then .TEST else .REVIEW)
  autoMerge : ∀ (s : Server) (k : Id), TaskOf w.db org repo k →
    (s.mergeGate k).run w = (w, some (!cfg.autoMerge || (s.mergeRequireHuman && !flagOf w.db org (·.autoMerge))))

/-- In mode `pinned` the coder of the repository has the model `m`, if that is one. -/
def Codes (w : World) (org repo : Id) (m : String) : Prop :=
  ∀ tr : TaskRepo, RepoOf org repo tr → modeOf w.db org = "pinned" →
    (Server.coderModel tr).run w = (if m = "" then getAgentModel "coder" else pure m : Cmd String).run w

/-- What is read where the configuration is looked up, with the defaults of each place. -/
structure ReadAs (o : Option PinnedRepoCfg) (cfg : PinnedRepoCfg) : Prop where
  rules : ∀ prompt, API.withRules prompt o = API.withRules prompt (some cfg)
  openPR : (o.map (·.openPR)).getD true = cfg.openPR
  runTests : (o.map fun c => !c.runTests).getD false = !cfg.runTests
  autoMerge : (o.map fun c => !c.autoMerge).getD false = !cfg.autoMerge

theorem readAs_some (cfg : PinnedRepoCfg) : ReadAs (some cfg) cfg := ⟨fun _ => rfl, rfl, rfl, rfl⟩

theorem readAs_neutral {o : Option PinnedRepoCfg} {cfg : PinnedRepoCfg} (hcfg : Neutral cfg)
    (h : ∀ c, o = some c → Neutral c) : ReadAs o cfg := by
  obtain ⟨hrules, hopen, htests, hauto⟩ := hcfg
  cases o with
  | none =>
      exact ⟨fun _ => by rw [API.withRules, API.withRules, if_pos hrules], hopen.symm, by simp [htests], by simp [hauto]⟩
  | some c =>
      obtain ⟨hrules', hopen', htests', hauto'⟩ := h c rfl
      exact ⟨fun _ => by rw [API.withRules, API.withRules, if_pos hrules, if_pos hrules'], by simp [hopen, hopen'],
        by simp [htests, htests'], by simp [hauto, hauto']⟩

theorem pushed_setTaskStatus (k status : String) : ((setTaskStatus k status).run w).1.pushed = w.pushed := by
  have hin : Within (fun t => t == .task) (fun _ _ => False) (setTaskStatus k status) := setTaskStatus_within rfl
  obtain ⟨l, hl, hno⟩ := (hin.run w).foot.pushed
  cases l with
  | nil => exact hl
  | cons p l => exact absurd (hno p List.mem_cons_self).1 id

theorem pushed_bind {α β : Type} {c : Cmd α} {g : α → Cmd β} (hg : ∀ x v, ((g x).run v).1.pushed = v.pushed) :
    ((c.bind g).run w).1.pushed = (c.run w).1.pushed := by
  rw [Prog.run_bind]
  split
  · exact hg _ _
  · rfl

/-- What is sent on a stream does not depend on the ids that were drawn. -/
theorem pushed_streamSend_drawn {st : Stream} {env : Envelope} {n : Nat} :
    ((streamSend st env).run { w with drawn := n }).1.pushed = ((streamSend st env).run w).1.pushed := by
  simp only [streamSend, Prog.run_act, World.send]
  split_ifs <;> rfl

/-- The planned task's step is all that is sent. -/
theorem pushed_dispatchExec {st : Stream} {pr : PlanResult} {tr : TaskRepo} {m : String} {cfg : PinnedRepoCfg}
    (hm : (Server.coderModel tr).run w = (w, some m))
    (hcfg : ReadAs (pinnedOf w.db (Server.orgOf w.db pr.taskId) tr.repoID) cfg) :
    ((Server.dispatchExec st pr tr).run w).1.pushed =
      ((streamSend st (execEnvelope ("stp" ++ "_" ++ w.ulid w.drawn) pr tr m cfg.openPR)).run w).1.pushed := by
  have hid : (newID "stp").run w = ({ w with drawn := w.drawn + 1 }, some ("stp" ++ "_" ++ w.ulid w.drawn)) := rfl
  simp only [Server.dispatchExec, Prog.bind_def, Prog.run_bind_of_eq (Server.run_taskOrg _),
    Prog.run_bind_of_eq (run_pinnedWorkerForRepo _ _), Prog.run_bind_of_eq hm, hcfg.openPR, Prog.run_bind_of_eq hid]
  refine (pushed_bind fun _ v => ?_).trans pushed_streamSend_drawn
  exact (pushed_bind fun _ _ => rfl).trans (pushed_setTaskStatus _ _)

theorem applies_of_readAs {cfg : PinnedRepoCfg} (h : ReadAs (pinnedOf w.db org repo) cfg) : Applies w org repo cfg where
  rules := fun a act hact => by
    rw [Manual.seen_createAndPlan, hact]
    simp only [h.rules]
  openPR := fun st pr tr m hk htr hm => pushed_dispatchExec hm (by rw [hk.1, htr.repo]; exact h)
  runTests := fun k r hk => by
    refine ⟨_, hk.1 ▸ Server.advanceExec_becomes w k r, ?_⟩
    have hskips : Server.skipsTests w.db k = !cfg.runTests := by rw [Server.skipsTests, hk.1, hk.2, h.runTests]
    rw [Server.afterExec, hskips]
    cases cfg.runTests <;> rfl
  autoMerge := fun s k hk => by rw [Server.run_mergeGate, Server.gateOf, hk.1, hk.2, h.autoMerge]

theorem codes_of {m : String} (hm : modeOf w.db org = "pinned" → (pinnedModelForRepo org repo).run w = (w, some m)) :
    Codes w org repo m := fun tr htr hmode => by
  obtain ⟨rfl, rfl⟩ := htr
  rw [Server.coderModel, Prog.bind_def, Prog.run_bind_of_eq (run_poolMode _), if_pos hmode, Prog.bind_def,
    Prog.run_bind_of_eq (hm hmode)]

/-! ## One row -/

/-- One enabled worker of the repository gives the rules, the capabilities and, in mode `pinned`, the model,
whichever row is taken. -/
structure Governs (w : World) (org repo : Id) (p : PinnedWorker) : Prop where
  enabled : Enabled w.db org repo p
  row : w.db.pinnedFor org repo = some p
  caps : (pinnedWorkerForRepo org repo).run w = (w, some (some (pinnedCfg p.settings)))
  modelRow : modeOf w.db org = "pinned" → modelRows w.db org repo ≠ [] ∧ ∀ q ∈ modelRows w.db org repo, q = p
  model : modeOf w.db org = "pinned" → (pinnedModelForRepo org repo).run w = (w, some (modelOf p))
  pipeline : Applies w org repo (pinnedCfg p.settings)
  coder : Codes w org repo (modelOf p)

/-- The repository's rows, if there are any, change nothing: the pipeline does what it does without a worker. -/
structure Ungoverned (w : World) (org repo : Id) : Prop where
  caps : ∃ cfg, (pinnedWorkerForRepo org repo).run w = (w, some cfg) ∧ ∀ c, cfg = some c → Neutral c
  modelRow : modeOf w.db org = "pinned" → ∀ q ∈ modelRows w.db org repo, modelOf q = ""
  model : modeOf w.db org = "pinned" → (pinnedModelForRepo org repo).run w = (w, some "")
  pipeline : ∀ cfg, Neutral cfg → Applies w org repo cfg
  coder : Codes w org repo ""

/-- One enabled worker governs the repository, or none does. -/
def Governed (w : World) (org repo : Id) : Prop :=
  ((∃ p, Enabled w.db org repo p) → ∃ p, Governs w org repo p) ∧
    ((¬ ∃ p, Enabled w.db org repo p) → Ungoverned w org repo)

/-! ## When both queries take it -/

/-- The newest worker of the repository is enabled and, in mode `pinned`, is its only one in the org's first
workspace. -/
def NewestAlone (s : Store) (org repo : Id) : Prop :=
  ∃ p, s.pinnedFor org repo = some p ∧ isEnabled p = true ∧ (modeOf s org = "pinned" → modelRows s org repo = [p])

/-- The newest worker, if there is one, and the models have nothing to say. -/
def Silent (s : Store) (org repo : Id) : Prop :=
  (∀ p, s.pinnedFor org repo = some p → Neutral (pinnedCfg p.settings)) ∧
    (modeOf s org = "pinned" → ∀ q ∈ modelRows s org repo, modelOf q = "")

theorem mem_of_pinnedFor (h : s.pinnedFor org repo = some p) :
    p ∈ (s .pinnedWorker).rows ∧ p.orgId = org ∧ p.repoId = some repo :=
  ⟨List.mem_of_find?_eq_some h, by simpa using List.find?_some h⟩

theorem run_caps (hr : repo ≠ "") :
    (pinnedWorkerForRepo org repo).run w = (w, some ((w.db.pinnedFor org repo).map fun p => pinnedCfg p.settings)) := by
  rw [run_pinnedWorkerForRepo, pinnedOf, if_neg hr]

theorem eq_singleton_of_nodup {α : Type} {l : List α} {a : α} (hn : l.Nodup) (hne : l ≠ []) (h : ∀ b ∈ l, b = a) :
    l = [a] := by
  cases l with
  | nil => exact absurd rfl hne
  | cons b l =>
      obtain rfl := h b List.mem_cons_self
      cases l with
      | nil => rfl
      | cons c l =>
          obtain rfl := h c (List.mem_cons_of_mem _ List.mem_cons_self)
          exact absurd List.mem_cons_self (List.nodup_cons.1 hn).1

/-- The pipeline is governed by one enabled worker exactly if the newest worker is enabled and is alone where
the model is looked up, or, without an enabled worker, if no row says anything. -/
theorem governed_iff (w : World) (org repo : Id) (hr : repo ≠ "") :
    Governed w org repo ↔
      ((∃ p, Enabled w.db org repo p) → NewestAlone w.db org repo) ∧
        ((¬ ∃ p, Enabled w.db org repo p) → Silent w.db org repo) := by
  refine and_congr (imp_congr_right fun _ => ⟨?_, ?_⟩) (imp_congr_right fun _ => ⟨?_, ?_⟩)
  · rintro ⟨p, hp⟩
    refine ⟨p, hp.row, hp.enabled.2.2.2, fun hmode => ?_⟩
    obtain ⟨hne, hall⟩ := hp.modelRow hmode
    exact eq_singleton_of_nodup ((List.Nodup.of_map _ (w.db .pinnedWorker).pk).filter _) hne hall
  · rintro ⟨p, hrow, henabled, hmodel⟩
    obtain ⟨hmem, horg, hrepo⟩ := mem_of_pinnedFor hrow
    have hruns : modeOf w.db org = "pinned" → (pinnedModelForRepo org repo).run w = (w, some (modelOf p)) := fun hmode =>
      run_pinnedModelForRepo_of hr (by simp [hmodel hmode]) (by simp [hmodel hmode])
    exact ⟨p, {
      enabled := ⟨hmem, horg, hrepo, henabled⟩
      row := hrow
      caps := by rw [run_caps hr, hrow, Option.map_some]
      modelRow := fun hmode => by simp [hmodel hmode]
      model := hruns
      pipeline := applies_of_readAs (by rw [pinnedOf, if_neg hr, hrow]; exact readAs_some _)
      coder := codes_of hruns }⟩
  · rintro ⟨⟨cfg, hcfg, hneutral⟩, hmodelRow, -, -, -⟩
    refine ⟨fun p hp => hneutral _ ?_, hmodelRow⟩
    rw [run_caps hr, hp, Option.map_some] at hcfg
    exact (Option.some.inj (Prod.mk.inj hcfg).2).symm
  · rintro ⟨hcaps, hmodel⟩
    have hneutral : ∀ c, (w.db.pinnedFor org repo).map (fun p => pinnedCfg p.settings) = some c → Neutral c := fun c hc => by
      obtain ⟨p, hp, rfl⟩ := Option.map_eq_some_iff.1 hc
      exact hcaps p hp
    have hruns : modeOf w.db org = "pinned" → (pinnedModelForRepo org repo).run w = (w, some "") := fun hmode =>
      run_pinnedModelForRepo_of hr (fun h => absurd rfl h) (hmodel hmode)
    exact {
      caps := ⟨_, run_caps hr, hneutral⟩
      modelRow := hmodel
      model := hruns
      pipeline := fun cfg hcfg => applies_of_readAs (by rw [pinnedOf, if_neg hr]; exact readAs_neutral hcfg hneutral)
      coder := codes_of hruns }

/-! ## Two workers of one repository -/

end DB

namespace Sample

def workerOf (id : Id) (enabled : Bool) (rules : String) : PinnedWorker :=
  { id := id, orgId := "org_a", workspaceId := "wsp_a", repoId := some "repo_a", focus := none,
    settings := { enabled := some enabled, rules := some rules } }

/-- An enabled worker, and a newer one that is switched off. -/
def switched : World :=
  { db := Store.ofRows (plans ++ rows ++
      [⟨.pinnedWorker, workerOf "pwk_1" true "siga o guia"⟩, ⟨.pinnedWorker, workerOf "pwk_2" false "ignore tudo"⟩]) }

end Sample

namespace DB

theorem governed_iff_sample :
    Governed Sample.world "org_a" "repo_a" ↔
      ((∃ p, Enabled Sample.world.db "org_a" "repo_a" p) → NewestAlone Sample.world.db "org_a" "repo_a") ∧
        ((¬ ∃ p, Enabled Sample.world.db "org_a" "repo_a" p) → Silent Sample.world.db "org_a" "repo_a") :=
  governed_iff Sample.world "org_a" "repo_a" (by decide)

/-- The rules are those of the worker that is switched off. -/
theorem governed_switched : ¬ ∀ (w : World) (org repo : Id), repo ≠ "" → Governed w org repo := by
  intro h
  have hrows : (Sample.switched.db .pinnedWorker).rows =
      [Sample.workerOf "pwk_2" false "ignore tudo", Sample.workerOf "pwk_1" true "siga o guia"] := by decide +kernel
  obtain ⟨p, hp⟩ := (h Sample.switched "org_a" "repo_a" (by decide)).1
    ⟨Sample.workerOf "pwk_1" true "siga o guia", by rw [hrows]; simp, rfl, rfl, rfl⟩
  have hrow := hp.row
  rw [Store.pinnedFor, hrows, List.find?_cons_of_pos (by decide)] at hrow
  have henabled := hp.enabled.2.2.2
  rw [← Option.some.inj hrow] at henabled
  exact absurd henabled (by decide)

end DB
end Apifor
