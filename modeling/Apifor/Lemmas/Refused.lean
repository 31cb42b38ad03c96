import Apifor.Lemmas.Stages
import Apifor.Lib.Faults

/-!
# The pipeline with refused statements

What the stages read and write when `F n i` refuses the `i`-th sending of the statement `n`: a refused
query gives its caller's default, a refused write changes nothing.
-/

namespace Apifor

variable {F : String → Nat → Option DbErr} {c : String → Nat} {w w' : World} {db : Store} {sk : List Id} {k : Id}
  {α β : Type}

/-- The `i`-th sending of `n` is refused. -/
def refused (F : String → Nat → Option DbErr) (n : String) (i : Nat) : Bool := (F n i).isSome

/-! ## What the gates see -/

def orgSeen (F : String → Nat → Option DbErr) (i : Nat) (db : Store) (k : Id) : Id :=
  if refused F "GetTaskRepo" i then demoOrgID else Server.orgOf db k

def repoSeen (F : String → Nat → Option DbErr) (i : Nat) (db : Store) (k : Id) : Id :=
  if refused F "GetTaskRepo" i then "" else Server.repoOf db k

def pinnedSeen (F : String → Nat → Option DbErr) (db : Store) (org repo : Id) : Option DB.PinnedRepoCfg :=
  if refused F "PinnedWorkerForRepo" 0 then none else DB.pinnedOf db org repo

def autoMergeSeen (F : String → Nat → Option DbErr) (db : Store) (org : Id) : Bool :=
  let wsp := if refused F "FirstWorkspace" 0 then demoWspID else db.firstWorkspace org
  !refused F "poolFlag" 0 && ((DB.poolRow db wsp).map fun c => c.behavior.autoMerge.getD false).getD false

/-- What `mergeGate` answers when it has the task looked up for the `i`-th time. -/
def Server.gateSeen (s : Server) (F : String → Nat → Option DbErr) (i : Nat) (db : Store) (k : Id) : Bool :=
  ((pinnedSeen F db (orgSeen F i db k) (repoSeen F (i + 1) db k)).map fun cfg => !cfg.autoMerge).getD false ||
    (s.mergeRequireHuman && !autoMergeSeen F db (orgSeen F i db k))

/-- The query of the human's review. -/
def humanSeen (F : String → Nat → Option DbErr) (db : Store) (k : Id) : Bool :=
  !refused F "HumanApproved" 0 && Server.humanOk db k

def skipsTestsSeen (F : String → Nat → Option DbErr) (db : Store) (k : Id) : Bool :=
  ((pinnedSeen F db (orgSeen F 0 db k) (repoSeen F 1 db k)).map fun cfg => !cfg.runTests).getD false

theorem refused_eq_false {n : String} {i : Nat} : refused F n i = false ↔ F n i = none := by
  simp [refused]

theorem refused_of {n : String} {i : Nat} {e : DbErr} (h : F n i = some e) : refused F n i = true := by
  simp [refused, h]

section Seen

variable {s s' : Store}

/-- What the gates see depends on where the task belongs, and on the configuration. -/
theorem gateSeen_congr (ht : DB.taskRepo s' k = DB.taskRepo s k) (hp : s' .pinnedWorker = s .pinnedWorker)
    (hc : s' .poolConfig = s .poolConfig) (hw : s' .workspace = s .workspace) (sv : Server) (i : Nat) :
    sv.gateSeen F i s' k = sv.gateSeen F i s k := by
  have horg : Server.orgOf s' k = Server.orgOf s k := by simp only [Server.orgOf, ht]
  have hrepo : Server.repoOf s' k = Server.repoOf s k := by simp only [Server.repoOf, ht]
  have hrow : ∀ wsp, DB.poolRow s' wsp = DB.poolRow s wsp := fun wsp => by simp only [DB.poolRow, hc]
  have hwsp : ∀ org, s'.firstWorkspace org = s.firstWorkspace org := fun org => by simp only [Store.firstWorkspace, hw]
  simp only [Server.gateSeen, orgSeen, repoSeen, pinnedSeen, autoMergeSeen, horg, hrepo, pinnedOf_congr hp, hrow, hwsp]

theorem SeesSame.gateSeen (h : SeesSame s s') (sv : Server) (i : Nat) : sv.gateSeen F i s' k = sv.gateSeen F i s k :=
  gateSeen_congr (h.taskRepo k) (h _ rfl) (h _ rfl) (h _ rfl) sv i

theorem SeesSame.humanSeen (h : SeesSame s s') : humanSeen F s' k = humanSeen F s k := by
  simp only [Apifor.humanSeen, Server.humanOk, h.latestPR]

/-- Without refusals the gate is seen as it is. -/
theorem gateSeen_none (sv : Server) (i : Nat) : sv.gateSeen (fun _ _ => none) i s k = sv.gateOf s k := by
  simp only [Server.gateSeen, Server.gateOf, orgSeen, repoSeen, pinnedSeen, autoMergeSeen, refused, Option.isSome_none,
    Bool.false_eq_true, if_false, Bool.not_false, Bool.true_and, DB.flagOf, Store.poolConfig, DB.poolRow]

end Seen

/-! ## Reading -/

/-- A query leaves the world as it is; `x` is what it gives unless it is refused. -/
theorem comes_query {n : String} {f : Time → Store → Except DbErr α} :
    Prog.Comes F c (query n f) w fun w' a c' =>
      w' = w ∧ (a = f w.now w.db ∧ refused F n (c n) = false ∨ (∃ e, a = .error e) ∧ refused F n (c n) = true) ∧
        c' = Prog.sentOnce c n := by
  refine .attempt (fun e he => ⟨rfl, .inr ⟨⟨e, rfl⟩, refused_of he⟩, rfl⟩) fun hs => ?_
  have hsettle : Prog.settle (fun w : World => (f w.now w.db).map fun a => (w, a)) w = (w, f w.now w.db) := by
    unfold Prog.settle
    cases hf : f w.now w.db <;> simp [hf, Except.map]
  rw [hsettle]
  exact ⟨rfl, .inl ⟨rfl, refused_eq_false.2 hs⟩, rfl⟩

theorem comes_getTaskRepo : Prog.Comes F c (DB.getTaskRepo k) w fun w' a c' =>
    w' = w ∧ (a = .ok (DB.taskRepo w.db k) ∧ refused F "GetTaskRepo" (c "GetTaskRepo") = false ∨
      (∃ e, a = .error e) ∧ refused F "GetTaskRepo" (c "GetTaskRepo") = true) ∧ c' = Prog.sentOnce c "GetTaskRepo" :=
  comes_query (n := "GetTaskRepo") (f := fun _ s => .ok (DB.taskRepo s k))

theorem comes_taskOrg : Prog.Comes F c (Server.taskOrg k) w fun w' a c' =>
    w' = w ∧ a = orgSeen F (c "GetTaskRepo") w.db k ∧ c' = Prog.sentOnce c "GetTaskRepo" := by
  refine .bind comes_getTaskRepo ?_
  rintro w a _ ⟨rfl, ⟨rfl, hF⟩ | ⟨⟨e, rfl⟩, hF⟩, rfl⟩
  · have horg : orgSeen F (c "GetTaskRepo") w.db k = Server.orgOf w.db k := by simp [orgSeen, hF]
    rw [horg, Server.orgOf]
    cases DB.taskRepo w.db k <;> exact .done ⟨rfl, rfl, rfl⟩
  · exact .done ⟨rfl, by simp [orgSeen, hF], rfl⟩

theorem comes_taskRepoID : Prog.Comes F c (Server.taskRepoID k) w fun w' a c' =>
    w' = w ∧ a = repoSeen F (c "GetTaskRepo") w.db k ∧ c' = Prog.sentOnce c "GetTaskRepo" := by
  refine .bind comes_getTaskRepo ?_
  rintro w a _ ⟨rfl, ⟨rfl, hF⟩ | ⟨⟨e, rfl⟩, hF⟩, rfl⟩
  · have hrepo : repoSeen F (c "GetTaskRepo") w.db k = Server.repoOf w.db k := by simp [repoSeen, hF]
    rw [hrepo, Server.repoOf]
    cases DB.taskRepo w.db k <;> exact .done ⟨rfl, rfl, rfl⟩
  · exact .done ⟨rfl, by simp [repoSeen, hF], rfl⟩

theorem comes_pinnedWorkerForRepo (org repo : Id) (hc : c "PinnedWorkerForRepo" = 0) :
    Prog.Comes F c (DB.pinnedWorkerForRepo org repo) w fun w' a c' =>
      w' = w ∧ a = pinnedSeen F w.db org repo ∧ ∀ n, n ∉ ["PinnedWorkerForRepo"] → c' n = c n := by
  unfold DB.pinnedWorkerForRepo
  by_cases hrepo : repo = ""
  · rw [if_pos hrepo]
    exact .done ⟨rfl, by simp [pinnedSeen, DB.pinnedOf, hrepo], fun _ _ => rfl⟩
  · rw [if_neg hrepo]
    refine .bind comes_query ?_
    rintro w a _ ⟨rfl, ⟨rfl, hF⟩ | ⟨⟨e, rfl⟩, hF⟩, rfl⟩ <;> rw [hc] at hF
    · have hseen : pinnedSeen F w.db org repo = (w.db.pinnedFor org repo).map fun p => DB.pinnedCfg p.settings := by
        simp [pinnedSeen, hF, DB.pinnedOf, hrepo]
      rw [hseen]
      cases w.db.pinnedFor org repo <;>
        exact .done ⟨rfl, rfl, fun n hn => Prog.sentOnce_of_ne fun he => hn (by simp [he])⟩
    · exact .done ⟨rfl, by simp [pinnedSeen, hF], fun n hn => Prog.sentOnce_of_ne fun he => hn (by simp [he])⟩

theorem comes_firstWorkspace {org : Id} (hc : c "FirstWorkspace" = 0) :
    Prog.Comes F c (DB.firstWorkspace org) w fun w' a c' =>
      w' = w ∧ a = (if refused F "FirstWorkspace" 0 then demoWspID else w.db.firstWorkspace org) ∧
        c' = Prog.sentOnce c "FirstWorkspace" := by
  refine .bind comes_query ?_
  rintro w a _ ⟨rfl, ⟨rfl, hF⟩ | ⟨⟨e, rfl⟩, hF⟩, rfl⟩ <;> rw [hc] at hF
  · simp only [hF, Bool.false_eq_true, if_false, Store.firstWorkspace]
    cases (oldest (fun x => decide (x.orgId = org)) (w.db .workspace).rows).map (·.id) <;> exact .done ⟨rfl, rfl, rfl⟩
  · exact .done ⟨rfl, by simp [hF], rfl⟩

theorem comes_poolAutoMerge {org : Id} (hc : c "FirstWorkspace" = 0) (hc' : c "poolFlag" = 0) :
    Prog.Comes F c (DB.poolAutoMerge org) w fun w' a c' =>
      w' = w ∧ a = autoMergeSeen F w.db org ∧ ∀ n, n ∉ ["FirstWorkspace", "poolFlag"] → c' n = c n := by
  refine .bind (comes_firstWorkspace hc) ?_
  rintro w wsp _ ⟨rfl, hwsp, rfl⟩
  have hsent : ∀ n, n ∉ ["FirstWorkspace", "poolFlag"] →
      Prog.sentOnce (Prog.sentOnce c "FirstWorkspace") "poolFlag" n = c n := fun n hn => by
    rw [Prog.sentOnce_of_ne fun he => hn (by simp [he]), Prog.sentOnce_of_ne fun he => hn (by simp [he])]
  refine .bind comes_query ?_
  rintro w a _ ⟨rfl, ⟨rfl, hF⟩ | ⟨⟨e, rfl⟩, hF⟩, rfl⟩ <;> rw [Prog.sentOnce_of_ne (by decide), hc'] at hF
  · have hseen : autoMergeSeen F w.db org =
        ((DB.poolRow w.db wsp).map fun c => c.behavior.autoMerge.getD false).getD false := by
      simp [autoMergeSeen, hF, hwsp]
    rw [hseen]
    cases DB.poolRow w.db wsp <;> exact .done ⟨rfl, rfl, hsent⟩
  · exact .done ⟨rfl, by simp [autoMergeSeen, hF], hsent⟩

theorem comes_humanApproved (hc : c "HumanApproved" = 0) :
    Prog.Comes F c (DB.humanApproved k) w fun w' a c' =>
      w' = w ∧ a = humanSeen F w.db k ∧ c' = Prog.sentOnce c "HumanApproved" := by
  refine .bind comes_query ?_
  rintro w a _ ⟨rfl, ⟨rfl, hF⟩ | ⟨⟨e, rfl⟩, hF⟩, rfl⟩ <;> rw [hc] at hF
  · have hseen : humanSeen F w.db k = Server.humanOk w.db k := by simp [humanSeen, hF]
    rw [hseen, Server.humanOk]
    cases w.db.latestPR k <;> exact .done ⟨rfl, rfl, rfl⟩
  · exact .done ⟨rfl, by simp [humanSeen, hF], rfl⟩

/-- The queries of `mergeGate` besides the lookups of the task. -/
def gateQueries : List String := ["PinnedWorkerForRepo", "FirstWorkspace", "poolFlag"]

theorem comes_mergeGate (sv : Server) (hc : ∀ n ∈ gateQueries, c n = 0) :
    Prog.Comes F c (sv.mergeGate k) w fun w' a c' =>
      w' = w ∧ a = sv.gateSeen F (c "GetTaskRepo") w.db k ∧ c' "GetTaskRepo" = c "GetTaskRepo" + 2 ∧
        ∀ n, n ∉ "GetTaskRepo" :: gateQueries → c' n = c n := by
  refine .bind comes_taskOrg ?_
  rintro w org _ ⟨rfl, horg, rfl⟩
  refine .bind comes_taskRepoID ?_
  rintro w repo _ ⟨rfl, hrepo, rfl⟩
  rw [Prog.sentOnce_same] at hrepo
  have hsent : ∀ n, n ≠ "GetTaskRepo" → Prog.sentOnce (Prog.sentOnce c "GetTaskRepo") "GetTaskRepo" n = c n := fun n hn => by
    rw [Prog.sentOnce_of_ne hn, Prog.sentOnce_of_ne hn]
  have hunsent : ∀ n ∈ gateQueries, Prog.sentOnce (Prog.sentOnce c "GetTaskRepo") "GetTaskRepo" n = 0 := fun n hn =>
    (hsent n (by rintro rfl; exact absurd hn (by decide))).trans (hc n hn)
  refine .bind (Q := fun w' decided c' => w' = w ∧
      decided = ((pinnedSeen F w.db org repo).map fun cfg => !cfg.autoMerge).getD false ∧
        ∀ n, n ∉ ["PinnedWorkerForRepo"] → c' n = Prog.sentOnce (Prog.sentOnce c "GetTaskRepo") "GetTaskRepo" n) ?_ ?_
  · refine .bind (comes_pinnedWorkerForRepo org repo (hunsent _ (by decide))) ?_
    rintro w cfg c' ⟨rfl, hcfg, hc'⟩
    rw [← hcfg]
    cases cfg <;> exact .done ⟨rfl, rfl, hc'⟩
  rintro w decided c' ⟨rfl, hdecided, hc'⟩
  have htask : c' "GetTaskRepo" = c "GetTaskRepo" + 2 := by
    rw [hc' _ (by decide), Prog.sentOnce_same, Prog.sentOnce_same]
  have hother : ∀ n, n ∉ "GetTaskRepo" :: gateQueries → c' n = c n := fun n hn => by
    rw [List.mem_cons, not_or] at hn
    rw [hc' n fun h => hn.2 (by rw [List.mem_singleton.1 h]; decide), hsent n hn.1]
  have hseen : sv.gateSeen F (c "GetTaskRepo") w.db k =
      (decided || (sv.mergeRequireHuman && !autoMergeSeen F w.db org)) := by
    rw [Server.gateSeen, ← horg, ← hrepo, ← hdecided]
  rw [hseen]
  cases decided with
  | true => exact .done ⟨rfl, rfl, htask, hother⟩
  | false =>
      cases hreq : sv.mergeRequireHuman with
      | false => exact .done ⟨rfl, by simp, htask, hother⟩
      | true =>
          refine .bind (comes_poolAutoMerge ?_ ?_) ?_
          · rw [hc' _ (by decide)]
            exact hunsent _ (by decide)
          · rw [hc' _ (by decide)]
            exact hunsent _ (by decide)
          rintro w auto c'' ⟨rfl, hauto, hc''⟩
          refine .done ⟨rfl, by simp [hauto], ?_, fun n hn => ?_⟩
          · rw [hc'' _ (by decide), htask]
          · rw [hc'' n fun h => hn ?_, hother n hn]
            simp only [List.mem_cons, List.not_mem_nil, or_false] at h
            rcases h with rfl | rfl <;> decide

/-! ## Parts beside the pipeline -/

abbrev Minor (names : List String) (p : Cmd α) : Prop := Prog.Minor Beside names p

theorem minor_query {names : List String} {n : String} {f : Time → Store → Except DbErr α} (hn : n ∈ names) :
    Minor names (query n f) := .attempt hn fun w w' a h => by
  obtain ⟨r, -, heq⟩ := map_eq_ok h
  cases heq
  exact .refl w

theorem minor_newID {names : List String} (pre : String) : Minor names (newID pre) := .lift fun _ =>
  ⟨SeesSame.refl _, rfl, rfl, rfl⟩

theorem minor_exec {names : List String} {n : String} {f : Time → Store → Except DbErr (Store × α)} (hn : n ∈ names)
    (h : ∀ now s s' x, f now s = .ok (s', x) → SeesSame s s') : Minor names (exec n f) := .attempt hn fun w w' a hf => by
  obtain ⟨r, hr, heq⟩ := map_eq_ok hf
  cases heq
  exact ⟨h _ _ _ _ hr, rfl, rfl, rfl⟩

theorem minor_insertRow {names : List String} {n : String} {t : Tbl} {r : Time → Row t} (hn : n ∈ names)
    (ht : pipeTables t = false) : Minor names (DB.insertRow n t r) := minor_exec hn fun now s s' _ h => by
  obtain ⟨u, hu, heq⟩ := map_eq_ok h
  cases heq
  exact fun t' ht' => insert_other hu fun he => by rw [he, ht] at ht'; cases ht'

theorem minor_createNotification (org ty title body link : String) :
    Minor ["org owner", "CreateNotification"] (DB.createNotification org ty title body link) :=
  .bind (minor_query (by decide)) fun _ => .bind (minor_newID _) fun _ =>
    .bind (minor_insertRow (by decide) rfl) fun _ => .done _

theorem minor_recordStepOutput (task ty st out : String) :
    Minor ["RecordStepOutput"] (DB.recordStepOutput task ty st out) := by
  refine .bind (minor_exec (by decide) fun now s s' _ h => ?_) fun _ => .done _
  split at h
  · obtain ⟨u, hu, heq⟩ := map_eq_ok h
    cases heq
    exact fun t' ht' => update_other hu fun he => by rw [he] at ht'; cases ht'
  · cases h

theorem minor_createQAReport (task : Id) (passed : Bool) (summary : String) :
    Minor ["prIDByTask", "CreateQAReport"] (DB.createQAReport task passed summary) := by
  refine .bind (minor_query (by decide)) fun r => ?_
  cases r with
  | error e => exact .done _
  | ok v => exact .bind (minor_newID _) fun _ => .bind (minor_insertRow (by decide) rfl) fun _ => .done _

theorem minor_getAgentModel (key : String) : Minor ["GetAgentModel"] (DB.getAgentModel key) := by
  refine .bind (minor_query (by decide)) fun r => ?_
  cases r <;> exact .done _

/-- A handler goes on from where it has come to. -/
theorem At.minor (h : At w db sk w') {names : List String} {p : Cmd α} (hp : Minor names p) :
    Prog.Comes F c p w' fun w'' _ c' => At w db sk w'' ∧ ∀ n, n ∉ names → c' n = c n :=
  (hp.comes Beside.refl (fun _ _ _ => Beside.trans) F c w').mono fun _ _ _ hq => ⟨h.beside hq.1, hq.2⟩

/-! ## Writing -/

theorem At.comes_updatePR (h : At w db sk w') (n : String) (i : Id) (f : PullRequest → PullRequest)
    (hf : ∀ p, (f p).id = p.id) (hr : ∀ p, refs .pullRequest (f p) = refs .pullRequest p) :
    Prog.Comes F c (DB.updatePR n i f hf) w' fun w'' _ c' =>
      At w (if refused F n (c n) then db else db.setPR i f hf) sk w'' ∧ c' = Prog.sentOnce c n := by
  refine .attempt (fun e he => ?_) fun hs => ?_
  · rw [if_pos (refused_of he)]
    exact ⟨h, rfl⟩
  · rw [refused_eq_false.2 hs]
    have hrun := DB.run_updatePR (w := w') n i f hf hr
    rw [DB.updatePR, exec, Prog.run_attempt, Prod.mk.injEq, Option.some.injEq] at hrun
    rw [hrun.1]
    exact ⟨h.setPR i f hf, rfl⟩

theorem At.comes_updateTask (h : At w db sk w') (n : String) (f : Task → Task)
    (hf : ∀ t, (f t).id = t.id) (hr : ∀ t, refs .task (f t) = refs .task t) :
    Prog.Comes F c (DB.updateTask n k f hf) w' fun w'' _ c' =>
      At w (if refused F n (c n) then db else db.setTask k f hf) sk w'' ∧ c' = Prog.sentOnce c n := by
  refine .attempt (fun e he => ?_) fun hs => ?_
  · rw [if_pos (refused_of he)]
    exact ⟨h, rfl⟩
  · rw [refused_eq_false.2 hs]
    have hrun := DB.run_updateTask (w := w') n k f hf hr
    rw [DB.updateTask, exec, Prog.run_attempt, Prod.mk.injEq, Option.some.injEq] at hrun
    rw [hrun.1]
    exact ⟨h.setTask f hf, rfl⟩

/-- The latest pull request after a change of it, which is refused when its lookup or its update `n` is. -/
def setLatestSeen (F : String → Nat → Option DbErr) (n : String) (db : Store) (k : Id) (f : PullRequest → PullRequest)
    (hf : ∀ p, (f p).id = p.id := by intro; rfl) : Store :=
  if refused F "prIDByTask" 0 || refused F n 0 then db else db.setLatest k f hf

section SetLatest

variable {n : String} {f : PullRequest → PullRequest} {hf : ∀ p, (f p).id = p.id}

theorem setLatestSeen_other {t : Tbl} (ht : t ≠ .pullRequest) : setLatestSeen F n db k f hf t = db t := by
  unfold setLatestSeen
  split
  · rfl
  · exact setLatest_other ht

theorem taskRepo_setLatestSeen : DB.taskRepo (setLatestSeen F n db k f hf) k = DB.taskRepo db k :=
  taskRepo_congr (setLatestSeen_other (by decide)) (setLatestSeen_other (by decide)) k

theorem gateSeen_setLatestSeen (sv : Server) (i : Nat) :
    sv.gateSeen F i (setLatestSeen F n db k f hf) k = sv.gateSeen F i db k :=
  gateSeen_congr taskRepo_setLatestSeen (setLatestSeen_other (by decide)) (setLatestSeen_other (by decide))
    (setLatestSeen_other (by decide)) sv i

theorem gateOf_setLatestSeen (sv : Server) : sv.gateOf (setLatestSeen F n db k f hf) k = sv.gateOf db k :=
  gateOf_congr taskRepo_setLatestSeen (setLatestSeen_other (by decide)) (setLatestSeen_other (by decide))
    (setLatestSeen_other (by decide)) sv

theorem latestPR_setLatestSeen (ht : ∀ p, (f p).taskId = p.taskId) :
    (setLatestSeen F n db k f hf).latestPR k =
      (db.latestPR k).map fun p => if refused F "prIDByTask" 0 || refused F n 0 then p else f p := by
  unfold setLatestSeen
  split
  · exact Option.map_id'.symm
  · exact Server.latestPR_setLatest ht

theorem humanSeen_setLatestSeen (ht : ∀ p, (f p).taskId = p.taskId)
    (hh : ∀ p, (f p).humanReviewStatus = p.humanReviewStatus) :
    humanSeen F (setLatestSeen F n db k f hf) k = humanSeen F db k := by
  rw [humanSeen, humanSeen]
  congr 1
  unfold setLatestSeen
  split
  · rfl
  · exact Server.humanOk_setLatest ht hh

end SetLatest

theorem At.comes_setAIReview (h : At w db sk w') (hc : c "prIDByTask" = 0) (hc' : c "SetAIReview" = 0) (approved : Bool) :
    Prog.Comes F c (DB.setAIReview k approved) w' fun w'' _ c' =>
      At w (setLatestSeen F "SetAIReview" db k fun p =>
        { p with aiReviewStatus := if approved then .approved else .changes }) sk w'' ∧
        ∀ n, n ∉ ["prIDByTask", "SetAIReview"] → c' n = c n := by
  refine .bind comes_query ?_
  rintro w' a _ ⟨rfl, ⟨rfl, hF⟩ | ⟨⟨e, rfl⟩, hF⟩, rfl⟩ <;> rw [hc] at hF
  · rw [setLatestSeen, hF, Bool.false_or, h.db.latestPR, Store.setLatest]
    cases db.latestPR k with
    | none =>
        rw [ite_self]
        exact .done ⟨h, fun n hn => Prog.sentOnce_of_ne fun he => hn (by simp [he])⟩
    | some p =>
        refine (h.comes_updatePR "SetAIReview" p.id
          (fun p => { p with aiReviewStatus := if approved then .approved else .changes }) (fun _ => rfl) fun _ => rfl).mono ?_
        rintro w'' a c' ⟨hat, rfl⟩
        rw [Prog.sentOnce_of_ne (by decide), hc'] at hat
        refine ⟨hat, fun n hn => ?_⟩
        rw [Prog.sentOnce_of_ne fun he => hn (by simp [he]), Prog.sentOnce_of_ne fun he => hn (by simp [he])]
  · rw [setLatestSeen, hF, Bool.true_or, if_pos rfl]
    exact .done ⟨h, fun n hn => Prog.sentOnce_of_ne fun he => hn (by simp [he])⟩

theorem At.comes_setCIResult (h : At w db sk w') (hc : c "prIDByTask" = 0) (hc' : c "SetCIResult" = 0) (passed : Bool)
    (summary : String) :
    Prog.Comes F c (DB.setCIResult k passed summary) w' fun w'' _ c' =>
      At w (setLatestSeen F "SetCIResult" db k fun p => { p with ciStatus := if passed then .passed else .failed }) sk w'' ∧
        ∀ n, n ∉ ["prIDByTask", "SetCIResult", "SetCIResult (ci_run)"] → c' n = c n := by
  refine .bind comes_query ?_
  rintro w' a _ ⟨rfl, ⟨rfl, hF⟩ | ⟨⟨e, rfl⟩, hF⟩, rfl⟩ <;> rw [hc] at hF
  · rw [setLatestSeen, hF, Bool.false_or, h.db.latestPR, Store.setLatest]
    cases db.latestPR k with
    | none =>
        rw [ite_self]
        exact .done ⟨h, fun n hn => Prog.sentOnce_of_ne fun he => hn (by simp [he])⟩
    | some p =>
        refine .bind (h.comes_updatePR "SetCIResult" p.id
          (fun p => { p with ciStatus := if passed then .passed else .failed }) (fun _ => rfl) fun _ => rfl) ?_
        rintro w'' a c' ⟨hat, rfl⟩
        rw [Prog.sentOnce_of_ne (by decide), hc'] at hat
        have hsent : ∀ n, n ∉ ["prIDByTask", "SetCIResult", "SetCIResult (ci_run)"] →
            Prog.sentOnce (Prog.sentOnce c "prIDByTask") "SetCIResult" n = c n := fun n hn => by
          rw [Prog.sentOnce_of_ne fun he => hn (by simp [he]), Prog.sentOnce_of_ne fun he => hn (by simp [he])]
        cases a with
        | error e => exact .done ⟨hat, hsent⟩
        | ok _ =>
            have hrow : ∀ id, Minor ["SetCIResult (ci_run)"] (DB.insertRow "SetCIResult (ci_run)" .ciRun fun now =>
                { id := id, prId := p.id, provider := some "apifor", status := if passed then .passed else .failed,
                  startedAt := some now, finishedAt := some now, summary := summary }) := fun id =>
              minor_insertRow (by decide) rfl
            refine (hat.minor (.bind (minor_newID "ci") hrow)).mono ?_
            rintro w3 a c3 ⟨hat3, hc3⟩
            refine ⟨hat3, fun n hn => ?_⟩
            rw [hc3 n fun he => hn (by rw [List.mem_singleton.1 he]; decide), hsent n hn]
  · rw [setLatestSeen, hF, Bool.true_or, if_pos rfl]
    exact .done ⟨h, fun n hn => Prog.sentOnce_of_ne fun he => hn (by simp [he])⟩

/-- The store after `SaveExecResult`. -/
def execDbSeen (F : String → Nat → Option DbErr) (w : World) (k : Id) (r : Server.StepResult) : Store :=
  if refused F "SaveExecResult (task)" 0 || refused F "SaveExecResult (pull_request)" 0 then w.db
  else
    match w.db.getTask k with
    | none => w.db
    | some t =>
        match insert .all .pullRequest (Server.newPR w k r t) w.db with
        | .ok db =>
            if refused F "SaveExecResult" 0 then db
            else db.setTask k (fun t => { t with status := .in_review }) Store.id_inReview
        | .error _ => w.db

/-- `SaveExecResult` makes a new pull request. -/
def OpensPR (F : String → Nat → Option DbErr) (w : World) (k : Id) (r : Server.StepResult) : Prop :=
  refused F "SaveExecResult (task)" 0 = false ∧ refused F "SaveExecResult (pull_request)" 0 = false ∧
    ∃ t db, w.db.getTask k = some t ∧ insert .all .pullRequest (Server.newPR w k r t) w.db = .ok db

section ExecDb

variable {r : Server.StepResult}

theorem execDbSeen_opens (h : OpensPR F w k r) :
    ∃ t db, insert .all .pullRequest (Server.newPR w k r t) w.db = .ok db ∧
      (execDbSeen F w k r = db ∨ execDbSeen F w k r = db.setTask k fun t => { t with status := .in_review }) := by
  obtain ⟨ht, hp, t, db, htask, hi⟩ := h
  refine ⟨t, db, hi, ?_⟩
  simp only [execDbSeen, ht, hp, htask, hi, Bool.or_self, Bool.false_eq_true, if_false]
  split
  · exact .inl rfl
  · exact .inr rfl

theorem execDbSeen_stays (h : ¬ OpensPR F w k r) : execDbSeen F w k r = w.db := by
  unfold execDbSeen
  split
  · rfl
  · next hF =>
      rw [Bool.not_eq_true, Bool.or_eq_false_iff] at hF
      cases ht : w.db.getTask k with
      | none => rfl
      | some t =>
          dsimp only
          cases hi : insert .all .pullRequest (Server.newPR w k r t) w.db with
          | error e => rfl
          | ok db => exact absurd ⟨hF.1, hF.2, t, db, ht, hi⟩ h

theorem execDbSeen_other {t : Tbl} (ht : t ≠ .task) (hp : t ≠ .pullRequest) : execDbSeen F w k r t = w.db t := by
  by_cases ho : OpensPR F w k r
  · obtain ⟨_, db, hi, h | h⟩ := execDbSeen_opens ho <;> rw [h]
    · exact insert_other hi hp
    · rw [Store.setTask_other ht, insert_other hi hp]
  · rw [execDbSeen_stays ho]

/-- The task is where it was. -/
theorem taskRepo_execDbSeen : DB.taskRepo (execDbSeen F w k r) k = DB.taskRepo w.db k := by
  by_cases ho : OpensPR F w k r
  · obtain ⟨_, db, hi, h⟩ := execDbSeen_opens ho
    have hins : DB.taskRepo db k = DB.taskRepo w.db k :=
      taskRepo_congr (insert_other hi (by decide)) (insert_other hi (by decide)) k
    rcases h with h | h <;> rw [h]
    · exact hins
    · refine (taskRepo_setTask ?_ ?_ ?_ k).trans hins <;> exact fun _ => rfl
  · rw [execDbSeen_stays ho]

theorem latestPR_execDbSeen (h : OpensPR F w k r) : ∃ t, (execDbSeen F w k r).latestPR k = some (Server.newPR w k r t) := by
  obtain ⟨t, db, hi, h⟩ := execDbSeen_opens h
  have hnew : db.latestPR k = some (Server.newPR w k r t) := by
    rw [Store.latestPR, insert_rows hi, List.find?_cons_of_pos]
    exact decide_eq_true rfl
  refine ⟨t, ?_⟩
  rcases h with h | h <;> rw [h]
  · exact hnew
  · exact (latestPR_congr (Store.setTask_other (by decide)) k).trans hnew

end ExecDb

def execWrites : List String := ["SaveExecResult (task)", "SaveExecResult (pull_request)", "SaveExecResult"]

theorem comes_saveExecResult (r : Server.StepResult) (hc : ∀ n ∈ execWrites, c n = 0) :
    Prog.Comes F c (DB.saveExecResult k r.branch r.url) w fun w' _ c' =>
      At w (execDbSeen F w k r) w.testsSkipped w' ∧ ∀ n, n ∉ execWrites → c' n = c n := by
  have hsent : ∀ m n, m ∈ execWrites → n ∉ execWrites → Prog.sentOnce c m n = c n := fun m n hm hn =>
    Prog.sentOnce_of_ne fun he => hn (he ▸ hm)
  refine .bind comes_query ?_
  rintro w a _ ⟨rfl, ⟨rfl, hF⟩ | ⟨⟨e, rfl⟩, hF⟩, rfl⟩ <;> rw [hc _ (by decide)] at hF
  · have hquiet : ∀ n, n ∉ execWrites → Prog.sentOnce c "SaveExecResult (task)" n = c n := fun n hn =>
      hsent _ n (by decide) hn
    cases ht : w.db.getTask k with
    | none =>
        refine .done ⟨?_, hquiet⟩
        rw [execDbSeen, ht]
        simp only [ite_self]
        exact At.start w
    | some t =>
        refine .bind (.lift (Q := fun w' i c' => w' = { w with drawn := w.drawn + 1 } ∧ i = (Server.newPR w k r t).id ∧
          c' = Prog.sentOnce c "SaveExecResult (task)") ⟨rfl, rfl, rfl⟩) ?_
        rintro w1 i c1 ⟨rfl, rfl, rfl⟩
        have hunsent : ∀ n ∈ execWrites, n ≠ "SaveExecResult (task)" → Prog.sentOnce c "SaveExecResult (task)" n = 0 :=
          fun n hn hne => (Prog.sentOnce_of_ne hne).trans (hc n hn)
        have hquiet' : ∀ n, n ∉ execWrites →
            Prog.sentOnce (Prog.sentOnce c "SaveExecResult (task)") "SaveExecResult (pull_request)" n = c n := fun n hn => by
          rw [Prog.sentOnce_of_ne fun he => hn (by rw [he]; decide), hquiet n hn]
        have hstart : At w w.db w.testsSkipped { w with drawn := w.drawn + 1 } := ⟨SeesSame.refl _, rfl, rfl, rfl⟩
        refine .bind (Q := fun w' x c' => c' = Prog.sentOnce (Prog.sentOnce c "SaveExecResult (task)") "SaveExecResult (pull_request)" ∧
          (x = .ok () ∧ refused F "SaveExecResult (pull_request)" 0 = false ∧
              (∃ db, insert .all .pullRequest (Server.newPR w k r t) w.db = .ok db ∧ At w db w.testsSkipped w') ∨
            (∃ e, x = .error e) ∧ At w w.db w.testsSkipped w' ∧ (refused F "SaveExecResult (pull_request)" 0 = true ∨
              ∃ e, insert .all .pullRequest (Server.newPR w k r t) w.db = .error e))) ?_ ?_
        · refine .attempt (fun e he => ?_) fun hs => ?_
          · rw [hunsent _ (by decide) (by decide)] at he
            exact ⟨rfl, .inr ⟨⟨e, rfl⟩, hstart, .inl (refused_of he)⟩⟩
          · rw [hunsent _ (by decide) (by decide)] at hs
            have hF' := refused_eq_false.2 hs
            refine ⟨rfl, ?_⟩
            cases hi : insert .all .pullRequest (Server.newPR w k r t) w.db with
            | error e =>
                have hi' := hi
                simp only [Server.newPR] at hi'
                simp only [Prog.settle, Server.newPR, hi', Except.map]
                exact .inr ⟨⟨e, rfl⟩, hstart, .inr ⟨e, rfl⟩⟩
            | ok db =>
                have hi' := hi
                simp only [Server.newPR] at hi'
                simp only [Prog.settle, Server.newPR, hi', Except.map]
                exact .inl ⟨trivial, hF', db, rfl, SeesSame.refl _, rfl, rfl, rfl⟩
        rintro w2 x c2 ⟨rfl, ⟨rfl, hF', db, hi, hat⟩ | ⟨⟨e, rfl⟩, hat, hwhy⟩⟩
        · refine (hat.comes_updateTask "SaveExecResult" (fun t => { t with status := .in_review }) (fun _ => rfl)
            fun _ => rfl).mono ?_
          rintro w3 _ c3 ⟨hat3, rfl⟩
          rw [Prog.sentOnce_of_ne (by decide), hunsent _ (by decide) (by decide)] at hat3
          refine ⟨?_, fun n hn => ?_⟩
          · simp only [execDbSeen, hF, hF', ht, hi, Bool.or_self, Bool.false_eq_true, if_false]
            exact hat3
          · rw [Prog.sentOnce_of_ne fun he => hn (by rw [he]; decide), hquiet' n hn]
        · refine .done ⟨?_, hquiet'⟩
          rcases hwhy with hF' | ⟨e', hi⟩
          · rw [execDbSeen, hF', Bool.or_true, if_pos rfl]
            exact hat
          · simp only [execDbSeen, ht, hi, ite_self]
            exact hat
  · rw [execDbSeen, hF, Bool.true_or, if_pos rfl]
    exact .done ⟨At.start w, fun n hn => hsent _ n (by decide) hn⟩

/-! ## Sending -/

theorem refusing_send (org : Id) (env : Id → Envelope) (c : String → Nat) :
    Prog.refusing F c ((newID "stp").bind fun i => (hubSend org (env i)).bind fun _ => (.done () : Cmd Unit)) =
      (newID "stp").bind fun i => (hubSend org (env i)).bind fun _ => .done () := by
  simp only [newID, Prog.lift, Prog.bind, hubSend, Prog.refusing]
  congr 1
  funext i
  congr 1
  funext n
  cases n with
  | none => rfl
  | some n =>
      simp only [Prog.bind, Prog.refusing]
      congr 1
      funext sent
      cases sent <;> rfl

theorem At.dispatchStep_seen (h : At w db sk w') (kind : StepKind) (model : String) :
    Becomes w k ⟨db, sk, if refused F "GetTaskRepo" (c "GetTaskRepo") then none else some kind⟩
      (((Server.dispatchStep k kind model).refusing F c).run w').1 := by
  have hplain := h.dispatchStep (k := k) kind model
  obtain ⟨w', a, c', ⟨rfl, ha, rfl⟩, hrun⟩ := comes_getTaskRepo (F := F) (c := c) (w := w') (k := k)
  simp only [Server.dispatchStep, Prog.bind_def] at hplain ⊢
  rw [hrun]
  rcases ha with ⟨rfl, hF⟩ | ⟨⟨e, rfl⟩, hF⟩
  · rw [hF]
    rw [Prog.run_bind_of_eq (DB.run_getTaskRepo k)] at hplain
    cases htr : DB.taskRepo w'.db k with
    | none =>
        rw [htr] at hplain
        exact hplain
    | some tr =>
        rw [htr] at hplain
        by_cases hurl : tr.cloneURL = ""
        · simp only [hurl, if_true] at hplain ⊢
          exact hplain
        · simp only [hurl, if_false, Prog.pure_def] at hplain ⊢
          rw [refusing_send tr.orgID fun i => Server.stepEnvelope i k kind (Server.ExecInstructions.blob
            { repoURL := tr.cloneURL, baseBranch := tr.defaultBranch, branch := "apifor/" ++ k,
              changeReq := tr.prompt, model := model })]
          exact hplain
  · rw [hF]
    exact h.becomes

end Apifor
