import Apifor.Lemmas.Refused
import Apifor.Theorems.Denials
import Apifor.Theorems.Gates

/-!
# Gates that were not recorded

`advancePipeline` drops the errors of the statements that record the results of the tests and of the
review, and the gate's queries give defaults when they fail. The next step is sent all the same.
-/

namespace Apifor

variable {S : Server} {F : String → Nat → Option DbErr} {w w' : World} {k : Id} {r : Server.StepResult}

/-- The world after the result of a step, when `F` refuses statements. -/
def advanced (S : Server) (F : String → Nat → Option DbErr) (w : World) (k : Id) (r : Server.StepResult) : World :=
  (((S.advancePipeline k r).refusing F unsent).run w).1

/-- From `w` to `w'` a step of the task was sent. -/
def Sends (w w' : World) (kind : StepKind) (k : Id) (p : Push) : Prop :=
  ∃ new, w'.pushed = new ++ w.pushed ∧ p ∈ new ∧ p.env.dispatches kind k

def TestRecorded (s : Store) (k : Id) : Prop := ∃ p, s.latestPR k = some p ∧ p.ciStatus = .passed

def ApprovalRecorded (s : Store) (k : Id) : Prop := ∃ p, s.latestPR k = some p ∧ p.aiReviewStatus = .approved

/-- The answer of `mergeGate`, which `advancePipeline` asks after it has looked the task up once. -/
def gateAnswer (S : Server) (F : String → Nat → Option DbErr) (w : World) (k : Id) : Option Bool :=
  (((S.mergeGate k).refusing F (Prog.sentOnce unsent "GetTaskRepo")).run w).2

/-- A review follows only a recorded test result; a merge only a recorded approval, and a gate that was read
as it is. -/
structure Recorded (S : Server) (F : String → Nat → Option DbErr) (w : World) (k : Id) (r : Server.StepResult) :
    Prop where
  review : ∀ p, Sends w (advanced S F w k r) .REVIEW k p → TestRecorded p.db k
  merge : ∀ p, Sends w (advanced S F w k r) .MERGE k p → ApprovalRecorded p.db k ∧
    gateAnswer S F { w with db := p.db } k = gateAnswer S sound { w with db := p.db } k

/-! ## When a gate is not recorded -/

/-- The `i`-th lookup of the task is not refused, and a step of it can be sent. -/
def Reaches (F : String → Nat → Option DbErr) (i : Nat) (w : World) (k : Id) : Prop :=
  refused F "GetTaskRepo" i = false ∧ CanSend w.hub w.db k

/-- The result of the tests is on record, or goes there. -/
def KeepsTest (F : String → Nat → Option DbErr) (s : Store) (k : Id) : Prop :=
  ∃ p, s.latestPR k = some p ∧
    (p.ciStatus = .passed ∨ refused F "prIDByTask" 0 = false ∧ refused F "SetCIResult" 0 = false)

/-- The approval is on record, or goes there. -/
def KeepsApproval (F : String → Nat → Option DbErr) (s : Store) (k : Id) : Prop :=
  ∃ p, s.latestPR k = some p ∧
    (p.aiReviewStatus = .approved ∨ refused F "prIDByTask" 0 = false ∧ refused F "SetAIReview" 0 = false)

/-- The gates let the merge pass, as the queries show them. -/
def ClearsGate (S : Server) (F : String → Nat → Option DbErr) (w : World) (k : Id) : Prop :=
  S.gateSeen F 1 w.db k = true → humanSeen F w.db k = true

inductive Unrecorded (S : Server) (F : String → Nat → Option DbErr) (w : World) (k : Id) (r : Server.StepResult) : Prop
  | skipped (hk : r.kind = "exec") (hs : Reaches F 2 w k) (hskip : skipsTestsSeen F w.db k = true)
      (h : OpensPR F w k r ∨ ¬ TestRecorded w.db k)
  | test (hk : r.kind = "test") (hs : Reaches F 1 w k) (hp : r.passed = true) (h : ¬ KeepsTest F w.db k)
  | approval (hk : r.kind = "review") (hs : Reaches F 3 w k) (ha : r.approved = true) (hg : ClearsGate S F w k)
      (h : ¬ KeepsApproval F w.db k ∨ S.gateSeen F 1 w.db k ≠ S.gateOf w.db k)

/-! ## What is sent -/

theorem Becomes.sends_iff {db : Store} {sk : List Id} {next : Option StepKind}
    (h : Becomes w k ⟨db, sk, next⟩ w') (kind : StepKind) (P : Store → Prop) (hP : ∀ s, SeesSame db s → (P s ↔ P db)) :
    (∀ p, Sends w w' kind k p → P p.db) ↔ (next = some kind → CanSend w.hub db k → P db) := by
  constructor
  · rintro hall rfl hcan
    obtain ⟨p, hp, ⟨i, b, henv⟩, htables, -, -⟩ := h.sends kind rfl hcan
    refine (hP _ htables).1 (hall p ⟨[p], hp, List.mem_singleton_self p, ?_⟩)
    rw [henv]
    exact ⟨rfl, _, rfl, rfl, rfl⟩
  · rintro hdb p ⟨new, hnew, hmem, htype, q, hq, hkind, -⟩
    by_cases hquiet : next = none ∨ ¬ CanSend w.hub db k
    · have hnone : new = [] := by
        have := (h.quiet hquiet).symm.trans hnew
        simpa using this
      rw [hnone] at hmem
      cases hmem
    · simp only [not_or, not_not] at hquiet
      obtain ⟨kind', rfl⟩ := Option.ne_none_iff_exists'.1 hquiet.1
      obtain ⟨p', hp', ⟨i, b, henv⟩, htables, -, -⟩ := h.sends kind' rfl hquiet.2
      have hone : new = [p'] := List.append_cancel_right (hnew.symm.trans hp')
      rw [hone, List.mem_singleton] at hmem
      subst hmem
      rw [henv] at hq
      cases hq
      exact (hP _ htables).2 (hdb (congrArg some hkind) hquiet.2)

theorem silent_run {p : Cmd Unit} (hp : Within Server.pipelineTables (fun _ _ => False) p) (c : String → Nat) :
    ((p.refusing F c).run w).1.pushed = w.pushed := by
  obtain ⟨l, hl, hK⟩ := (hp.run_refusing Pace.refl (fun _ _ _ => Pace.trans) F c w).foot.pushed
  cases l with
  | nil => exact hl
  | cons p l => exact absurd (hK p List.mem_cons_self).1 id

/-! ## The results one by one -/

/-- `advancePipeline` looks up the task's org first. -/
theorem run_advanced (S : Server) (F : String → Nat → Option DbErr) (w : World) (k : Id) (r : Server.StepResult) :
    advanced S F w k r = (((if r.kind = "exec" then Server.advanceExec (orgSeen F 0 w.db k) k r
      else if r.kind = "test" then Server.advanceTest (orgSeen F 0 w.db k) k r
      else if r.kind = "review" then S.advanceReview (orgSeen F 0 w.db k) k r
      else if r.kind = "merge" then Server.advanceMerge (orgSeen F 0 w.db k) k r
      else pure ()).refusing F (Prog.sentOnce unsent "GetTaskRepo")).run w).1 := by
  obtain ⟨w, org, c, ⟨rfl, rfl, rfl⟩, hrun⟩ := comes_taskOrg (F := F) (c := unsent) (w := w) (k := k)
  exact congrArg Prod.fst (hrun _)

theorem advanced_passed (hk : r.kind = "test") (hp : r.passed = true) :
    Becomes w k ⟨setLatestSeen F "SetCIResult" w.db k fun p => { p with ciStatus := .passed },
      w.testsSkipped, if refused F "GetTaskRepo" 1 then none else some .REVIEW⟩ (advanced S F w k r) := by
  obtain ⟨w1, _, c1, ⟨h1, hc1⟩, hrun1⟩ := (At.start w).comes_setCIResult (F := F) (k := k)
    (c := Prog.sentOnce unsent "GetTaskRepo") rfl rfl true r.summary
  obtain ⟨w2, _, c2, ⟨h2, hc2⟩, hrun2⟩ := h1.minor (F := F) (c := c1) (minor_createQAReport k true r.summary)
  obtain ⟨w3, _, c3, ⟨h3, hc3⟩, hrun3⟩ := h2.minor (F := F) (c := c2) (minor_recordStepOutput k "test" "done" r.summary)
  obtain ⟨w4, m, c4, ⟨h4, hc4⟩, hrun4⟩ := h3.minor (F := F) (c := c3) (minor_getAgentModel "reviewer")
  have hlooked : c4 "GetTaskRepo" = 1 := by
    rw [hc4 _ (by decide), hc3 _ (by decide), hc2 _ (by decide), hc1 _ (by decide)]
    rfl
  have hstep := h4.dispatchStep_seen (F := F) (c := c4) (k := k) .REVIEW m
  rw [hlooked] at hstep
  simp only [run_advanced, hk, String.reduceEq, if_false, if_true, Server.advanceTest, hp, Prog.bind_def]
  rw [hrun1, hrun2, hrun3]
  simp only [Server.dispatchReview, Prog.bind_def]
  rw [hrun4]
  exact hstep

/-- Red tests send nothing. -/
theorem advanced_failed (hk : r.kind = "test") (hp : r.passed = false) : (advanced S F w k r).pushed = w.pushed := by
  have hsilent : Within Server.pipelineTables (fun _ _ => False) (Server.advanceTest (orgSeen F 0 w.db k) k r) := by
    refine Within.bind (DB.setCIResult_within rfl rfl) fun _ => Within.bind (DB.createQAReport_within rfl) fun _ => ?_
    rw [hp]
    exact Within.bind (DB.recordStepOutput_within rfl) fun _ =>
      Within.bind (DB.failTask_within rfl) fun _ => DB.createNotification_within rfl
  simp only [run_advanced, hk, String.reduceEq, if_false, if_true]
  exact silent_run hsilent _

/-- The worlds in which `mergeGate` and the human's review are asked see what the result's own world shows. -/
theorem comes_reviewGates {f : PullRequest → PullRequest} {hf : ∀ p, (f p).id = p.id}
    (h : At w (setLatestSeen F "SetAIReview" w.db k f hf) w.testsSkipped w') (ht : ∀ p, (f p).taskId = p.taskId)
    (hh : ∀ p, (f p).humanReviewStatus = p.humanReviewStatus) {c : String → Nat} (hlooked : c "GetTaskRepo" = 1)
    (hc : ∀ n ∈ "HumanApproved" :: gateQueries, c n = 0) :
    Prog.Comes F c ((S.mergeGate k).bind fun gate => if gate then DB.humanApproved k else .done true) w'
      fun w'' a c' => w'' = w' ∧ (a = true ↔ ClearsGate S F w k) ∧ c' "GetTaskRepo" = 3 := by
  refine .bind (comes_mergeGate S fun n hn => hc n (List.mem_cons_of_mem _ hn)) ?_
  rintro w' gate c' ⟨rfl, hgate, htask, hother⟩
  have hsees : S.gateSeen F (c "GetTaskRepo") w'.db k = S.gateSeen F 1 w.db k := by
    rw [hlooked, h.db.gateSeen, gateSeen_setLatestSeen]
  rw [hsees] at hgate
  rw [hlooked] at htask
  cases gate with
  | false => exact .done ⟨rfl, by simp [ClearsGate, ← hgate], htask⟩
  | true =>
      have hunsent : c' "HumanApproved" = 0 := by
        rw [hother _ (by decide)]
        exact hc _ List.mem_cons_self
      refine (comes_humanApproved hunsent).mono ?_
      rintro w' a c'' ⟨rfl, ha, rfl⟩
      rw [h.db.humanSeen, humanSeen_setLatestSeen ht hh] at ha
      refine ⟨rfl, ?_, ?_⟩
      · rw [ha, ClearsGate, ← hgate]
        simp
      · rw [Prog.sentOnce_of_ne (by decide), htask]

/-- An approved review is recorded as far as possible, and the merge follows when the gates let it pass. -/
theorem advanced_approved (hk : r.kind = "review") (ha : r.approved = true) :
    (ClearsGate S F w k → Becomes w k
        ⟨setLatestSeen F "SetAIReview" w.db k fun p => { p with aiReviewStatus := .approved },
          w.testsSkipped, if refused F "GetTaskRepo" 3 then none else some .MERGE⟩ (advanced S F w k r)) ∧
      (¬ ClearsGate S F w k → (advanced S F w k r).pushed = w.pushed) := by
  obtain ⟨w1, _, c1, ⟨h1, hc1⟩, hrun1⟩ := (At.start w).comes_setAIReview (F := F) (k := k)
    (c := Prog.sentOnce unsent "GetTaskRepo") rfl rfl true
  obtain ⟨w2, _, c2, ⟨h2, hc2⟩, hrun2⟩ := h1.minor (F := F) (c := c1)
    (minor_recordStepOutput k "review" (Server.boolStatus true) r.comments)
  have hsent : ∀ n, n ∉ ["prIDByTask", "SetAIReview", "RecordStepOutput"] →
      c2 n = Prog.sentOnce unsent "GetTaskRepo" n := fun n hn => by
    rw [hc2 n fun h => hn (by rw [List.mem_singleton.1 h]; decide),
      hc1 n fun h => hn (List.mem_append_left ["RecordStepOutput"] h)]
  obtain ⟨w3, ok, c3, ⟨rfl, hok, hlooked⟩, hrun3⟩ := comes_reviewGates (S := S) h2 (fun _ => rfl) (fun _ => rfl)
    (hsent _ (by decide)) (by
      intro n hn
      simp only [gateQueries, List.mem_cons, List.not_mem_nil, or_false] at hn
      rcases hn with rfl | rfl | rfl | rfl <;> rw [hsent _ (by decide)] <;> rfl)
  simp only [run_advanced, hk, String.reduceEq, if_false, if_true, Server.advanceReview, ha, Prog.bind_def,
    Prog.pure_def]
  rw [hrun1, hrun2]
  simp only [Bool.not_true, Bool.false_eq_true, if_false]
  rw [← Prog.bind_assoc, hrun3]
  constructor
  · intro hg
    rw [hok.2 hg, if_pos rfl]
    have hstep := h2.dispatchStep_seen (F := F) (c := c3) (k := k) .MERGE ""
    rw [hlooked] at hstep
    exact hstep
  · intro hg
    rw [if_neg fun h => hg (hok.1 h), silent_run ?_, h2.pushed]
    exact Within.bind (DB.setTaskBlocked_within rfl) fun _ => DB.createNotification_within rfl

/-- A review that asks for changes sends nothing. -/
theorem advanced_changes (hk : r.kind = "review") (ha : r.approved = false) :
    (advanced S F w k r).pushed = w.pushed := by
  have hsilent : Within Server.pipelineTables (fun _ _ => False) (S.advanceReview (orgSeen F 0 w.db k) k r) := by
    refine Within.bind (DB.setAIReview_within rfl) fun _ => Within.bind (DB.recordStepOutput_within rfl) fun _ => ?_
    rw [ha]
    exact Within.bind (DB.failTask_within rfl) fun _ => DB.createNotification_within rfl
  simp only [run_advanced, hk, String.reduceEq, if_false, if_true]
  exact silent_run hsilent _

/-- The result of `EXEC` is followed by the tests, or by the review when the worker skips them. -/
theorem advanced_exec (hk : r.kind = "exec") :
    ∃ sk, Becomes w k ⟨execDbSeen F w k r, sk, if refused F "GetTaskRepo" 2 then none
      else some (if skipsTestsSeen F w.db k then .REVIEW else .TEST)⟩ (advanced S F w k r) := by
  obtain ⟨w1, _, c1, ⟨h1, hc1⟩, hrun1⟩ := comes_saveExecResult (F := F) (w := w) (k := k)
    (c := Prog.sentOnce unsent "GetTaskRepo") r fun n hn => by
      simp only [execWrites, List.mem_cons, List.not_mem_nil, or_false] at hn
      rcases hn with rfl | rfl | rfl <;> rfl
  obtain ⟨w2, _, c2, ⟨h2, hc2⟩, hrun2⟩ := h1.minor (F := F) (c := c1)
    (minor_recordStepOutput k "exec" "done" ("PR " ++ r.branch))
  obtain ⟨w3, _, c3, ⟨h3, hc3⟩, hrun3⟩ := h2.minor (F := F) (c := c2)
    (minor_createNotification (orgSeen F 0 w.db k) "pr" "PR aberto" ("branch " ++ r.branch) "/prs")
  have hsent : ∀ n, n ∉ execWrites ++ ["RecordStepOutput", "org owner", "CreateNotification"] →
      c3 n = Prog.sentOnce unsent "GetTaskRepo" n := fun n hn => by
    simp only [List.mem_append, not_or] at hn
    rw [hc3 n fun h => hn.2 (List.mem_cons_of_mem _ h), hc2 n fun h => hn.2 (by rw [List.mem_singleton.1 h]; decide),
      hc1 n hn.1]
  obtain ⟨w4, repo, c4, ⟨rfl, hrepo, rfl⟩, hrun4⟩ := comes_taskRepoID (F := F) (c := c3) (w := w3) (k := k)
  obtain ⟨w5, cfg, c5, ⟨rfl, hcfg, hc5⟩, hrun5⟩ := comes_pinnedWorkerForRepo (F := F) (orgSeen F 0 w.db k) repo
    (w := w4) (c := Prog.sentOnce c3 "GetTaskRepo") (by
      rw [Prog.sentOnce_of_ne (by decide), hsent _ (by decide)]
      rfl)
  have hlooked : c5 "GetTaskRepo" = 2 := by
    rw [hc5 _ (by decide), Prog.sentOnce_same, hsent _ (by decide)]
    rfl
  have hseen : cfg = pinnedSeen F w.db (orgSeen F 0 w.db k) (repoSeen F 1 w.db k) := by
    have hpinned : w5.db .pinnedWorker = w.db .pinnedWorker :=
      (h3.db _ rfl).trans (execDbSeen_other (by decide) (by decide))
    have htr : DB.taskRepo w5.db k = DB.taskRepo w.db k := (h3.db.taskRepo k).trans taskRepo_execDbSeen
    rw [hcfg, hrepo, hsent _ (by decide), pinnedSeen, pinnedSeen, pinnedOf_congr hpinned, repoSeen, repoSeen,
      Server.repoOf, Server.repoOf, htr]
    rfl
  have hskips : skipsTestsSeen F w.db k = (cfg.map fun cfg => !cfg.runTests).getD false := by rw [hseen, skipsTestsSeen]
  simp only [run_advanced, hk, if_true, Server.advanceExec, Prog.bind_def]
  rw [hrun1, hrun2, hrun3, hrun4, hrun5, hskips]
  have htest := h3.dispatchStep_seen (F := F) (c := c5) (k := k) .TEST ""
  rw [hlooked] at htest
  cases cfg with
  | none => exact ⟨_, htest⟩
  | some cfg =>
      cases hrun : cfg.runTests with
      | true =>
          simp only [hrun, if_true, Option.map_some, Option.getD_some, Bool.not_true, Bool.false_eq_true, if_false]
          exact ⟨_, htest⟩
      | false =>
          obtain ⟨w6, _, c6, ⟨h6, hc6⟩, hrun6⟩ := h3.minor (F := F) (c := c5)
            (minor_recordStepOutput k "test" "skipped" "testes desligados no worker")
          obtain ⟨w7, _, c7, ⟨h7, rfl⟩, hrun7⟩ : Prog.Comes F c6 (Server.logTestsSkipped k) w6 fun w7 _ c7 =>
              At w (execDbSeen F w k r) ((((execDbSeen F w k r).latestPR k).map (·.id)).toList ++ w.testsSkipped) w7 ∧
                c7 = c6 :=
            .lift ⟨⟨h6.db, h6.hub, h6.pushed, by rw [← h6.db.latestPR, ← h6.testsSkipped]⟩, rfl⟩
          obtain ⟨w8, m, c8, ⟨h8, hc8⟩, hrun8⟩ := h7.minor (F := F) (c := c7) (minor_getAgentModel "reviewer")
          have hreview := h8.dispatchStep_seen (F := F) (c := c8) (k := k) .REVIEW m
          rw [hc8 _ (by decide), hc6 _ (by decide), hlooked] at hreview
          simp only [hrun, Bool.false_eq_true, if_false, Option.map_some, Option.getD_some, Bool.not_false, if_true]
          rw [hrun6, hrun7]
          simp only [Server.dispatchReview, Prog.bind_def]
          rw [hrun8]
          exact ⟨_, hreview⟩

/-- Only the results of the first three steps send a step. -/
theorem advanced_other (he : r.kind ≠ "exec") (ht : r.kind ≠ "test") (hr : r.kind ≠ "review") :
    (advanced S F w k r).pushed = w.pushed := by
  simp only [run_advanced, he, ht, hr, if_false]
  split
  · exact silent_run (Server.advanceMerge_within _ _) _
  · rfl

/-! ## What the results leave on record -/

theorem sends_silent {kind : StepKind} {p : Push} (h : w'.pushed = w.pushed) : ¬ Sends w w' kind k p := by
  rintro ⟨new, hnew, hmem, -⟩
  have hnone : new = [] := by simpa [h] using hnew
  rw [hnone] at hmem
  cases hmem

theorem canSend_congr {h : Hub} {db db' : Store} (ht : DB.taskRepo db' k = DB.taskRepo db k) :
    CanSend h db' k ↔ CanSend h db k := by rw [CanSend, CanSend, ht]

theorem SeesSame.testRecorded {s s' : Store} (h : SeesSame s s') : TestRecorded s' k ↔ TestRecorded s k := by
  rw [TestRecorded, TestRecorded, h.latestPR]

theorem gateAnswer_eq (v : World) : gateAnswer S F v k = some (S.gateSeen F 1 v.db k) := by
  obtain ⟨v, a, c', ⟨rfl, rfl, -⟩, hrun⟩ :=
    (comes_mergeGate (F := F) (w := v) (k := k) (c := Prog.sentOnce unsent "GetTaskRepo") S fun n hn => by
      simp only [gateQueries, List.mem_cons, List.not_mem_nil, or_false] at hn
      rcases hn with rfl | rfl | rfl <;> rfl).run
  rw [gateAnswer, hrun]
  rfl

theorem gateAnswer_sound (v : World) : gateAnswer S sound v k = some (S.gateOf v.db k) := by
  exact (gateAnswer_eq v).trans (congrArg some (gateSeen_none S 1))

/-- What a merge needs on record. -/
def MergeRecorded (S : Server) (F : String → Nat → Option DbErr) (w : World) (k : Id) (s : Store) : Prop :=
  ApprovalRecorded s k ∧ gateAnswer S F { w with db := s } k = gateAnswer S sound { w with db := s } k

theorem mergeRecorded_iff (s : Store) :
    MergeRecorded S F w k s ↔ ApprovalRecorded s k ∧ S.gateSeen F 1 s k = S.gateOf s k := by
  rw [MergeRecorded, gateAnswer_eq, gateAnswer_sound, Option.some.injEq]

theorem SeesSame.mergeRecorded {s s' : Store} (h : SeesSame s s') :
    MergeRecorded S F w k s' ↔ MergeRecorded S F w k s := by
  rw [mergeRecorded_iff, mergeRecorded_iff, ApprovalRecorded, ApprovalRecorded, h.latestPR, h.gateSeen, h.gateOf]

theorem testRecorded_exec :
    TestRecorded (execDbSeen F w k r) k ↔ ¬ OpensPR F w k r ∧ TestRecorded w.db k := by
  by_cases ho : OpensPR F w k r
  · obtain ⟨t, hl⟩ := latestPR_execDbSeen ho
    refine ⟨fun ⟨p, hp, hci⟩ => ?_, fun h => absurd ho h.1⟩
    rw [hl, Option.some.injEq] at hp
    rw [← hp] at hci
    cases hci
  · rw [execDbSeen_stays ho]
    exact ⟨fun h => ⟨ho, h⟩, fun h => h.2⟩

theorem testRecorded_passed :
    TestRecorded (setLatestSeen F "SetCIResult" w.db k fun p => { p with ciStatus := .passed }) k ↔
      KeepsTest F w.db k := by
  rw [TestRecorded, latestPR_setLatestSeen (by intro _; rfl), KeepsTest]
  cases w.db.latestPR k with
  | none => simp
  | some p => cases refused F "prIDByTask" 0 <;> cases refused F "SetCIResult" 0 <;> simp

theorem approvalRecorded_approved :
    ApprovalRecorded (setLatestSeen F "SetAIReview" w.db k fun p => { p with aiReviewStatus := .approved }) k ↔
      KeepsApproval F w.db k := by
  rw [ApprovalRecorded, latestPR_setLatestSeen (by intro _; rfl), KeepsApproval]
  cases w.db.latestPR k with
  | none => simp
  | some p => cases refused F "prIDByTask" 0 <;> cases refused F "SetAIReview" 0 <;> simp

/-! ## Recorded, or in one of the cases -/

theorem recorded_of_sends (hr : ∀ p, ¬ Sends w (advanced S F w k r) .REVIEW k p)
    (hm : ∀ p, ¬ Sends w (advanced S F w k r) .MERGE k p) : Recorded S F w k r :=
  ⟨fun p hp => absurd hp (hr p), fun p hp => absurd hp (hm p)⟩

theorem Becomes.not_sends {db : Store} {sk : List Id} {next : Option StepKind} {kind : StepKind}
    (h : Becomes w k ⟨db, sk, next⟩ w') (hk : next ≠ some kind) (p : Push) : ¬ Sends w w' kind k p := fun hp =>
  ((h.sends_iff kind (fun _ => False) fun _ _ => Iff.rfl).2 fun he => absurd he hk) p hp

theorem Becomes.review_iff {db : Store} {sk : List Id} {next : Option StepKind} (h : Becomes w k ⟨db, sk, next⟩ w') :
    (∀ p, Sends w w' .REVIEW k p → TestRecorded p.db k) ↔
      (next = some .REVIEW → CanSend w.hub db k → TestRecorded db k) :=
  h.sends_iff .REVIEW (TestRecorded · k) fun _ hs => hs.testRecorded

theorem recorded_exec (hk : r.kind = "exec") : Recorded S F w k r ↔
    ¬ (Reaches F 2 w k ∧ skipsTestsSeen F w.db k = true ∧ (OpensPR F w k r ∨ ¬ TestRecorded w.db k)) := by
  obtain ⟨sk, hb⟩ := advanced_exec (S := S) (F := F) (w := w) (k := k) hk
  have hcan := canSend_congr (h := w.hub) (taskRepo_execDbSeen (F := F) (w := w) (k := k) (r := r))
  have hreview := hb.review_iff
  rw [hcan, testRecorded_exec] at hreview
  have hmerge : ∀ p, ¬ Sends w (advanced S F w k r) .MERGE k p := hb.not_sends (by split_ifs <;> simp)
  have hiff : Recorded S F w k r ↔ ∀ p, Sends w (advanced S F w k r) .REVIEW k p → TestRecorded p.db k :=
    ⟨fun h => h.review, fun h => ⟨h, fun p hp => absurd hp (hmerge p)⟩⟩
  rw [hiff, hreview, Reaches]
  cases refused F "GetTaskRepo" 2 <;> cases skipsTestsSeen F w.db k <;> simp

theorem recorded_test (hk : r.kind = "test") : Recorded S F w k r ↔
    ¬ (Reaches F 1 w k ∧ r.passed = true ∧ ¬ KeepsTest F w.db k) := by
  cases hp : r.passed with
  | false =>
      have hsilent := advanced_failed (S := S) (F := F) (w := w) (k := k) hk hp
      exact iff_of_true (recorded_of_sends (fun _ => sends_silent hsilent) fun _ => sends_silent hsilent) (by simp)
  | true =>
      have hb := advanced_passed (S := S) (F := F) (w := w) (k := k) hk hp
      have hreview := hb.review_iff
      rw [canSend_congr taskRepo_setLatestSeen, testRecorded_passed] at hreview
      have hmerge : ∀ p, ¬ Sends w (advanced S F w k r) .MERGE k p := hb.not_sends (by split_ifs <;> simp)
      have hiff : Recorded S F w k r ↔ ∀ p, Sends w (advanced S F w k r) .REVIEW k p → TestRecorded p.db k :=
        ⟨fun h => h.review, fun h => ⟨h, fun p hp => absurd hp (hmerge p)⟩⟩
      rw [hiff, hreview, Reaches]
      cases refused F "GetTaskRepo" 1 <;> simp

theorem recorded_review (hk : r.kind = "review") : Recorded S F w k r ↔
    ¬ (Reaches F 3 w k ∧ r.approved = true ∧ ClearsGate S F w k ∧
      (¬ KeepsApproval F w.db k ∨ S.gateSeen F 1 w.db k ≠ S.gateOf w.db k)) := by
  cases ha : r.approved with
  | false =>
      have hsilent := advanced_changes (S := S) (F := F) (w := w) (k := k) hk ha
      exact iff_of_true (recorded_of_sends (fun _ => sends_silent hsilent) fun _ => sends_silent hsilent) (by simp)
  | true =>
      obtain ⟨hclears, hblocks⟩ := advanced_approved (S := S) (F := F) (w := w) (k := k) hk ha
      by_cases hg : ClearsGate S F w k
      · have hb := hclears hg
        have hmerge := hb.sends_iff .MERGE (MergeRecorded S F w k) fun _ hs => hs.mergeRecorded
        rw [canSend_congr taskRepo_setLatestSeen, mergeRecorded_iff, approvalRecorded_approved, gateSeen_setLatestSeen,
          gateOf_setLatestSeen] at hmerge
        have hreview : ∀ p, ¬ Sends w (advanced S F w k r) .REVIEW k p := hb.not_sends (by split_ifs <;> simp)
        have hiff : Recorded S F w k r ↔
            ∀ p, Sends w (advanced S F w k r) .MERGE k p → MergeRecorded S F w k p.db :=
          ⟨fun h => h.merge, fun h => ⟨fun p hp => absurd hp (hreview p), h⟩⟩
        rw [hiff, hmerge, Reaches]
        cases refused F "GetTaskRepo" 3 <;> simp [hg]
      · exact iff_of_true (recorded_of_sends (fun _ => sends_silent (hblocks hg)) fun _ => sends_silent (hblocks hg))
          fun h => hg h.2.2.1

/-- What `advancePipeline` sends rests on what is recorded, whatever the database refuses, except in the cases
of `Unrecorded`. -/
theorem recorded_iff (S : Server) (F : String → Nat → Option DbErr) (w : World) (k : Id) (r : Server.StepResult) :
    Recorded S F w k r ↔ ¬ Unrecorded S F w k r := by
  by_cases he : r.kind = "exec"
  · refine (recorded_exec he).trans (not_congr ⟨fun ⟨hs, hskip, h⟩ => .skipped he hs hskip h, fun h => ?_⟩)
    cases h with
    | skipped _ hs hskip h => exact ⟨hs, hskip, h⟩
    | test hk => exact absurd (he.symm.trans hk) (by decide)
    | approval hk => exact absurd (he.symm.trans hk) (by decide)
  by_cases ht : r.kind = "test"
  · refine (recorded_test ht).trans (not_congr ⟨fun ⟨hs, hp, h⟩ => .test ht hs hp h, fun h => ?_⟩)
    cases h with
    | skipped hk => exact absurd hk he
    | test _ hs hp h => exact ⟨hs, hp, h⟩
    | approval hk => exact absurd (ht.symm.trans hk) (by decide)
  by_cases hr : r.kind = "review"
  · refine (recorded_review hr).trans (not_congr ⟨fun ⟨hs, ha, hg, h⟩ => .approval hr hs ha hg h, fun h => ?_⟩)
    cases h with
    | skipped hk => exact absurd hk he
    | test hk => exact absurd hk ht
    | approval _ hs ha hg h => exact ⟨hs, ha, hg, h⟩
  · have hsilent := advanced_other (S := S) (F := F) (w := w) (k := k) he ht hr
    refine iff_of_true (recorded_of_sends (fun _ => sends_silent hsilent) fun _ => sends_silent hsilent) fun h => ?_
    cases h with
    | skipped hk => exact he hk
    | test hk => exact ht hk
    | approval hk => exact hr hk

/-! ## A test result that was refused -/

namespace Sample

/-- A routine's task, planned and pushed to a branch. -/
def branched : World := Runs.exec (step lenient) world [.connect "s1", .sched, planned, completed execOutput]

def greenTests : Server.StepResult := { kind := "test", passed := true, summary := "ok" }

end Sample

/-- The update of the test result fails, and the review is dispatched. -/
theorem unrecorded_tests :
    ¬ Recorded {} (Sample.broken "SetCIResult") Sample.branched "tsk_0" Sample.greenTests := by
  have hsend : ((DB.taskRepo Sample.branched.db "tsk_0").any fun tr =>
      decide (tr.cloneURL ≠ "") && Sample.branched.hub.accepts tr.orgID) = true := by decide +kernel
  have huntested : (Sample.branched.db.latestPR "tsk_0").all (fun p => decide (p.ciStatus ≠ .passed)) = true := by
    decide +kernel
  refine fun h => (recorded_test rfl).1 h ⟨⟨by decide, ?_⟩, rfl, ?_⟩
  · rw [Option.any_eq_true] at hsend
    obtain ⟨tr, htr, hcan⟩ := hsend
    simp only [Bool.and_eq_true, decide_eq_true_eq] at hcan
    exact ⟨tr, htr, hcan⟩
  · rintro ⟨p, hp, hci | ⟨-, hr⟩⟩
    · rw [hp] at huntested
      exact of_decide_eq_true huntested hci
    · exact absurd hr (by decide)

end Apifor
