import Apifor.Lemmas.Outcomes

/-!
# The gates of a merge

Every `MERGE` step should find the tests passed or skipped, the AI's approval, the human's where the
gate asks for one, and the task not over. The three places that send it check different parts of
this, so it holds of the runs in which results, plans and answers arrive in order.
-/

namespace Apifor

variable {a : API} {s : Server} {w w' : World} {e : Event} {k : Id}

/-! ## The gates -/

structure GatesMet (s : Server) (db : Store) (skipped : List Id) (task : Id) : Prop where
  live : ∃ t, db.getTask task = some t ∧ Server.isTerminal t.status = false
  reviewed : ∃ p, db.latestPR task = some p ∧ Tested skipped p ∧ p.aiReviewStatus = .approved ∧
    (s.gateOf db task = true → p.humanReviewStatus = .approved)

/-- If the envelope is a merge, its gates were met when it was pushed. -/
def PushOk (s : Server) (p : Push) : Prop :=
  ∀ k, p.env.dispatches .MERGE k → GatesMet s p.db p.testsSkipped k

def MergesGated (s : Server) (w : World) : Prop := ∀ p ∈ w.pushed, PushOk s p

abbrev World.Piped (w : World) : Prop := PipeInv Nobody w.db w.testsSkipped

/-- The task of an approved review is in the right place: its latest pull request is tested, and it is
not over unless the review leaves it to a human. -/
def ReviewInOrder (s : Server) (w : World) (k : Id) : Prop :=
  ∀ t, w.db.getTask k = some t → t.repoId ≠ none →
    (∃ p, w.db.latestPR k = some p ∧ Tested w.testsSkipped p) ∧
      ((s.gateOf w.db k = true → Server.humanOk w.db k = true) → Server.isTerminal t.status = false)

/-- The task of an approving answer is in the right place: the AI approved its latest pull request, which
is tested, and the caller's org may approve it. -/
def AnswerInOrder (s : Server) (sc : Scope) (w : World) (k : Id) : Prop :=
  ∀ t, w.db.getTask k = some t → t.repoId ≠ none →
    (sc.writes w.db .task t = true ∨ Server.isTerminal t.status = false) ∧
      ∃ p, w.db.latestPR k = some p ∧ Tested w.testsSkipped p ∧ p.aiReviewStatus = .approved ∧
        (sc.writes w.db .pullRequest p = true ∨ s.gateOf w.db k = false ∨ p.humanReviewStatus = .approved)

/-- Results, plans and answers arrive in order. -/
structure Orderly (a : API) (w : World) (e : Event) : Prop where
  review : ∀ st env k r, w.hears e = some (st, env) → env.result = some (k, r) → r.kind = "review" →
    r.approved = true → ReviewInOrder a.server w k
  plan : ∀ st env k, w.hears e = some (st, env) → env.plans = some k →
    ∀ t ∈ (w.db .task).rows, t.id = k → t.repoId ≠ none → ¬ Untested w.db w.testsSkipped k
  answer : ∀ r k, w.serves e = some r → API.Admits a r w → a.approves r = some k →
    AnswerInOrder a.server (withOrg a.server.rls (a.authz r).orgID) w k

/-! ## What is pushed -/

theorem GatesMet.congr {db db' : Store} {sk : List Id} (h : GatesMet s db sk k) (hs : SeesSame db db') :
    GatesMet s db' sk k := by
  obtain ⟨⟨t, ht, hlive⟩, p, hl, hrest⟩ := h
  exact ⟨⟨t, (getTask_congr (hs _ rfl) k).trans ht, hlive⟩, p, (hs.latestPR k).trans hl, by rwa [hs.gateOf]⟩

/-- What an outcome pushes meets the gates, if it does for the task that the outcome is of. -/
theorem Becomes.gated {o : Outcome} (h : Becomes w k o w')
    (hm : o.next = some .MERGE → (∃ t, o.db.getTask k = some t ∧ t.repoId ≠ none) → GatesMet s o.db o.testsSkipped k) :
    Emits (PushOk s) w w' := by
  by_cases hq : o.next = none ∨ ¬ CanSend w.hub o.db k
  · exact .of_eq (h.quiet hq)
  · rw [not_or, not_not] at hq
    obtain ⟨kind, hkind⟩ := Option.ne_none_iff_exists'.1 hq.1
    obtain ⟨p, hp, hd⟩ := h.sends kind hkind hq.2
    refine ⟨[p], hp, fun q hq' i hdis => ?_⟩
    rw [List.mem_singleton.1 hq'] at hdis ⊢
    obtain ⟨-, d, hd', hk, hi⟩ := hdis
    obtain ⟨n, b, henv⟩ := hd.env
    rw [henv] at hd'
    cases hd'
    cases hk
    cases hi
    rw [hd.testsSkipped]
    refine (hm hkind ?_).congr hd.tables
    obtain ⟨tr, htr, hurl, -⟩ := hq.2
    obtain ⟨t, ht, rfl⟩ := Option.map_eq_some_iff.1 htr
    exact ⟨t, ht, fun hrepo => hurl (by simp [hrepo])⟩

/-! ## Results -/

theorem Becomes.piped {o : Outcome} (hb : Becomes w k o w') (h : PipeInv Nobody o.db o.testsSkipped) : w'.Piped := by
  have h' := h.congr (hb.tables .task rfl) (hb.tables .pullRequest rfl)
  rwa [← hb.testsSkipped] at h'

theorem PipeInv.log {ex : Id → Prop} {db : Store} {sk sk' : List Id} (h : PipeInv ex db sk) (hsk : ∀ i ∈ sk, i ∈ sk') :
    PipeInv ex db sk' :=
  h.calm (S := fun _ _ => False) (Flows.refl db) (SamePRs.refl db) hsk fun _ _ hf => hf.elim

theorem PipeInv.setLatest {db : Store} {sk : List Id} (h : PipeInv Nobody db sk) {f : PullRequest → PullRequest}
    {hf : ∀ p, (f p).id = p.id} (ht : ∀ p, (f p).taskId = p.taskId) : PipeInv (· = k) (db.setLatest k f hf) sk := by
  unfold Store.setLatest
  cases hl : db.latestPR k with
  | none => exact h.open
  | some p => exact h.setPR f hf ht hl

/-- The pull request that a result of `EXEC` makes has no review yet. -/
theorem execDb_piped {r : Server.StepResult} (h : w.Piped) : PipeInv Nobody (Server.execDb w k r) w.testsSkipped := by
  unfold Server.execDb
  cases hk : w.db.getTask k with
  | none => exact h
  | some t =>
      dsimp only
      cases hi : insert .all .pullRequest (Server.newPR w k r t) w.db with
      | error e => exact h
      | ok db =>
          obtain ⟨ht, hid⟩ := Table.get?_eq_some.1 hk
          have hopen : PipeInv (· = k) db w.testsSkipped :=
            h.insertPR (by simp [Server.newPR]) rfl ⟨t, ht, by simpa [key] using hid⟩ hi
          refine hopen.setTask (fun t => { t with status := .in_review }) (fun _ => rfl) (fun _ => rfl) fun t' _ _ _ hun => ?_
          obtain ⟨p, hl, hai, -⟩ := hun
          have hnew : db.latestPR k = some (Server.newPR w k r t) := by
            rw [Store.latestPR, insert_rows hi, List.find?_cons_of_pos]
            simp [Server.newPR]
          rw [hnew, Option.some.injEq] at hl
          rw [← hl] at hai
          cases hai

theorem getTask_row {db : Store} {t : Task} (ht : t ∈ (db .task).rows) (hid : t.id = k) : db.getTask k = some t :=
  Table.get?_eq_some.2 ⟨ht, by simp only [key, hid]⟩

theorem afterResult_piped {r : Server.StepResult} (h : w.Piped)
    (hr : r.kind = "review" → r.approved = true → ReviewInOrder s w k) :
    PipeInv Nobody (s.afterResult w k r).db (s.afterResult w k r).testsSkipped := by
  unfold Server.afterResult
  split
  · unfold Server.afterExec
    dsimp only
    split
    · exact (execDb_piped h).log fun i hi => List.mem_append_right _ hi
    · exact execDb_piped h
  · split
    · have hopen : PipeInv (· = k)
          (w.db.setLatest k fun p => { p with ciStatus := if r.passed then .passed else .failed }) w.testsSkipped :=
        PipeInv.setLatest h fun _ => rfl
      unfold Server.afterTest
      dsimp only
      split
      · next hp =>
          refine hopen.close fun t _ _ _ hun => ?_
          obtain ⟨p, hl, -, hno⟩ := hun
          rw [Server.latestPR_setLatest, Option.map_eq_some_iff] at hl
          · obtain ⟨p', -, rfl⟩ := hl
            exact absurd (.inl (by simp [hp])) hno
          · exact fun _ => rfl
      · refine hopen.setTask
          (fun t => { t with status := .failed, blockedReason := some "gate: testes falharam" }) (fun _ => rfl)
          (fun _ => rfl) ?_
        exact fun _ _ _ _ _ => rfl
    · split
      · next hk =>
          have hopen : PipeInv (· = k)
              (w.db.setLatest k fun p => { p with aiReviewStatus := if r.approved then .approved else .changes })
              w.testsSkipped := PipeInv.setLatest h fun _ => rfl
          unfold Server.afterReview
          dsimp only
          split
          · refine hopen.setTask
              (fun t => { t with status := .failed, blockedReason := some "gate: revisão IA pediu mudanças" })
              (fun _ => rfl) (fun _ => rfl) ?_
            exact fun _ _ _ _ _ => rfl
          · next hp =>
              -- an approved review finds the pull request tested
              have htested : ∀ t ∈ ((w.db.setLatest k fun p =>
                  { p with aiReviewStatus := if r.approved then .approved else .changes }) .task).rows, t.id = k →
                  t.repoId ≠ none → ¬ Untested (w.db.setLatest k fun p =>
                    { p with aiReviewStatus := if r.approved then .approved else .changes }) w.testsSkipped k := by
                rintro t ht hid hrepo ⟨p, hl, -, hno⟩
                rw [setLatest_other (by decide)] at ht
                obtain ⟨⟨p', hl', htp⟩, -⟩ := hr hk (by simpa using hp) t (getTask_row ht hid) hrepo
                rw [Server.latestPR_setLatest, hl', Option.map_some, Option.some.injEq] at hl
                · subst hl
                  exact hno htp
                · exact fun _ => rfl
              split
              · refine hopen.setTask (fun t => { t with status := .blocked, blockedReason := some "human_review" })
                  (fun _ => rfl) (fun _ => rfl) ?_
                exact fun t ht hid hrepo hun => absurd hun (htested t ht hid hrepo)
              · exact hopen.close fun t ht hid hrepo hun => absurd hun (htested t ht hid hrepo)
      · split
        · unfold Server.afterMerge
          have hopen : PipeInv (· = k)
              (w.db.setLatest k fun p => { p with status := .merged, mergedAt := some w.now, url := some r.url })
              w.testsSkipped := PipeInv.setLatest h fun _ => rfl
          refine hopen.setTask (fun t => { t with status := .merged }) (fun _ => rfl) (fun _ => rfl) ?_
          exact fun _ _ _ _ _ => rfl
        · exact h

/-- A merge that follows a result follows an approved review. -/
theorem afterResult_gated {r : Server.StepResult}
    (hr : r.kind = "review" → r.approved = true → ReviewInOrder s w k) :
    (s.afterResult w k r).next = some .MERGE →
      (∃ t, (s.afterResult w k r).db.getTask k = some t ∧ t.repoId ≠ none) →
        GatesMet s (s.afterResult w k r).db (s.afterResult w k r).testsSkipped k := by
  unfold Server.afterResult
  split
  · unfold Server.afterExec
    dsimp only
    split <;> rintro ⟨⟩
  · split
    · unfold Server.afterTest
      dsimp only
      split <;> rintro ⟨⟩
    · split
      · next hk =>
          unfold Server.afterReview
          dsimp only
          split
          · rintro ⟨⟩
          · next hp =>
              split
              · rintro ⟨⟩
              · next hg =>
                  rintro - ⟨t, ht, hrepo⟩
                  have happ : r.approved = true := by simpa using hp
                  rw [getTask_congr (setLatest_other (by decide))] at ht
                  obtain ⟨⟨p, hl, htp⟩, hlive⟩ := hr hk happ t ht hrepo
                  have hhuman : s.gateOf w.db k = true → Server.humanOk w.db k = true := fun h => by simpa [h] using hg
                  refine ⟨⟨t, ?_, hlive hhuman⟩, { p with aiReviewStatus := .approved }, ?_, htp, rfl, fun hgate => ?_⟩
                  · rwa [getTask_congr (setLatest_other (by decide))]
                  · rw [Server.latestPR_setLatest, hl, happ]
                    · rfl
                    · exact fun _ => rfl
                  · rw [Server.gateOf_setLatest] at hgate
                    simpa [Server.humanOk, hl] using hhuman hgate
      · split <;> rintro ⟨⟩

/-! ## Snapshots -/

/-- A task that is not over is not untested. -/
theorem World.Piped.tested (h : w.Piped) {t : Task} (ht : w.db.getTask k = some t) (hrepo : t.repoId ≠ none)
    (hlive : Server.isTerminal t.status = false) : ¬ Untested w.db w.testsSkipped k := by
  obtain ⟨hmem, hid⟩ := Table.get?_eq_some.1 ht
  have hid : t.id = k := by simpa [key] using hid
  intro hun
  rw [← hid] at hun
  rw [h.sound t hmem id hrepo hun] at hlive
  cases hlive

theorem openPR_eq_some {db : Store} {v : CIStatus × ReviewStatus × ReviewStatus} (h : Server.openPR db k = some v) :
    ∃ t p, db.getTask k = some t ∧ Server.isTerminal t.status = false ∧ db.latestPR k = some p ∧
      v = (p.ciStatus, p.aiReviewStatus, p.humanReviewStatus) := by
  simp only [Server.openPR, DB.pipelineState] at h
  cases ht : db.getTask k with
  | none => rw [ht] at h; cases h
  | some t =>
      rw [ht, Option.map_some, Option.bind_some] at h
      cases hst : Server.isTerminal t.status with
      | true => simp [hst] at h
      | false =>
          simp only [hst, Bool.false_eq_true, if_false, Option.map_eq_some_iff] at h
          obtain ⟨p, hp, rfl⟩ := h
          exact ⟨t, p, rfl, hst, hp, rfl⟩

theorem kindFor_merge {gate : Bool} {ci : CIStatus} {ai hu : ReviewStatus} :
    Server.kindFor gate ci ai hu = some .MERGE ↔ ci ≠ .none ∧ ai = .approved ∧ (gate = false ∨ hu = .approved) := by
  cases gate <;> cases ci <;> cases ai <;> cases hu <;> decide

theorem afterSnapshot_piped (h : w.Piped) :
    PipeInv Nobody (s.afterSnapshot w k).db (s.afterSnapshot w k).testsSkipped := by
  unfold Server.afterSnapshot
  split
  · next hb =>
      refine h.open.setTask (fun t => { t with status := .blocked, blockedReason := some "human_review" })
        (fun _ => rfl) (fun _ => rfl) fun t ht hid hrepo hun => ?_
      simp only [Server.reconcileBlocks] at hb
      cases hv : Server.openPR w.db k with
      | none => rw [hv] at hb; cases hb
      | some v =>
          obtain ⟨t', p, ht', hlive, -, -⟩ := openPR_eq_some hv
          rw [getTask_row ht hid, Option.some.injEq] at ht'
          subst ht'
          exact absurd hun (h.tested (getTask_row ht hid) hrepo hlive)
  · exact h

/-- The reconciliation merges what is not over, and so what is tested. -/
theorem afterSnapshot_gated (h : w.Piped) :
    (s.afterSnapshot w k).next = some .MERGE →
      (∃ t, (s.afterSnapshot w k).db.getTask k = some t ∧ t.repoId ≠ none) →
        GatesMet s (s.afterSnapshot w k).db (s.afterSnapshot w k).testsSkipped k := by
  unfold Server.afterSnapshot
  split
  · rintro ⟨⟩
  · rintro hk ⟨t, ht, hrepo⟩
    obtain ⟨v, hv, hkind⟩ := Option.bind_eq_some_iff.1 hk
    obtain ⟨t', p, ht', hlive, hl, rfl⟩ := openPR_eq_some hv
    rw [ht, Option.some.injEq] at ht'
    subst ht'
    obtain ⟨-, hai, hhu⟩ := kindFor_merge.1 hkind
    refine ⟨⟨t, ht, hlive⟩, p, hl, ?_, hai, fun hg => ?_⟩
    · by_contra hno
      exact h.tested ht hrepo hlive ⟨p, hl, hai, hno⟩
    · exact hhu.resolve_left (by rw [hg]; decide)

/-! ## Answers -/

section Answers

variable {sc : Scope} {db : Store} {sk : List Id} {st : ReviewStatus} {f : Task → Task} {hf : ∀ t, (f t).id = t.id}

theorem find?_filter_of {α : Type} {l : List α} {p q : α → Bool} {x : α} (h : l.find? q = some x) (hx : p x = true) :
    (l.filter p).find? q = some x := by
  induction l with
  | nil => cases h
  | cons y ys ih =>
      rw [List.find?_cons] at h
      cases hq : q y with
      | true =>
          rw [hq, Option.some.injEq] at h
          subst h
          rw [List.filter_cons, hx, if_pos rfl, List.find?_cons, hq]
      | false =>
          rw [hq] at h
          rw [List.filter_cons]
          split
          · rw [List.find?_cons, hq]
            exact ih h
          · exact ih h

/-- An answer changes the human's review of one pull request. -/
theorem samePRs_answered : SamePRs db (DB.answered sc db k st f hf) := by
  have hother : DB.answered sc db k st f hf .pullRequest = DB.reviewed sc db k st .pullRequest :=
    Store.set_of_ne _ _ (by decide)
  rw [SamePRs, hother]
  unfold DB.reviewed
  cases (select sc db .pullRequest).find? fun p => decide (p.taskId = some k) with
  | none => exact SamePRs.refl db
  | some p =>
      dsimp only
      split
      · exact SamePRs.refl db
      · rw [Store.set_same]
        refine List.forall₂_map_right_iff.2 (List.forall₂_same.2 fun q _ => ?_)
        split <;> exact ⟨rfl, rfl, rfl, rfl⟩

/-- The latest pull request after an answer; the answer is its own, where the caller may write it. -/
theorem latestPR_answered {p : PullRequest} (hl : db.latestPR k = some p) (hid : p.id ≠ "") :
    ∃ p', (DB.answered sc db k st f hf).latestPR k = some p' ∧ Alike p p' ∧
      (sc.writes db .pullRequest p = true → p'.humanReviewStatus = st) ∧
      (p'.humanReviewStatus = p.humanReviewStatus ∨ p'.humanReviewStatus = st) := by
  have hother : (DB.answered sc db k st f hf).latestPR k = (DB.reviewed sc db k st).latestPR k :=
    latestPR_congr (Store.set_of_ne _ _ (by decide)) k
  have hself : Alike p p := ⟨rfl, rfl, rfl, rfl⟩
  have hreads : sc.reads db .pullRequest p = sc.writes db .pullRequest p := by cases sc <;> rfl
  rw [hother]
  unfold DB.reviewed
  cases hsel : (select sc db .pullRequest).find? fun p => decide (p.taskId = some k) with
  | none =>
      refine ⟨p, hl, hself, fun hw => ?_, .inl rfl⟩
      have hfound : (select sc db .pullRequest).find? (fun p => decide (p.taskId = some k)) = some p :=
        find?_filter_of hl (hreads.trans hw)
      rw [hsel] at hfound
      cases hfound
  | some q =>
      dsimp only
      have hq : sc.writes db .pullRequest p = true → q = p := by
        intro hw
        have hfound : (select sc db .pullRequest).find? (fun p => decide (p.taskId = some k)) = some p :=
          find?_filter_of hl (hreads.trans hw)
        rw [hsel, Option.some.injEq] at hfound
        exact hfound
      split
      · next hempty => exact ⟨p, hl, hself, fun hw => absurd (hq hw ▸ hempty) hid, .inl rfl⟩
      · have hupd : (db.set .pullRequest ((db .pullRequest).update
            (fun r => sc.writes db .pullRequest r && decide (r.id = q.id))
            (fun r => { r with humanReviewStatus := st }) fun _ => rfl)).latestPR k =
              some (if sc.writes db .pullRequest p && decide (p.id = q.id) then { p with humanReviewStatus := st } else p) := by
          have hp : (fun r : PullRequest => decide (r.taskId = some k)) ∘ (fun r =>
              if sc.writes db .pullRequest r && decide (r.id = q.id) then { r with humanReviewStatus := st } else r) =
                fun r => decide (r.taskId = some k) := by
            funext r
            simp only [Function.comp_apply]
            split <;> rfl
          rw [Store.latestPR] at hl
          rw [Store.latestPR, Store.set_same]
          change List.find? _ (List.map (fun r : PullRequest =>
            if sc.writes db .pullRequest r && decide (r.id = q.id) then { r with humanReviewStatus := st } else r) _) = _
          rw [List.find?_map, hp, hl]
          rfl
        refine ⟨_, hupd, ?_, fun hw => ?_, ?_⟩
        · split <;> exact ⟨rfl, rfl, rfl, rfl⟩
        · simp [hw, hq hw]
        · split
          · exact .inr rfl
          · exact .inl rfl

/-- An answer closes nothing: it moves the task that it names, and only if its caller may write it. -/
theorem answered_piped (h : PipeInv Nobody db sk) (ho : ∀ t, (f t).orgId = t.orgId) (hr : ∀ t, (f t).repoId = t.repoId)
    (hk : ∀ t ∈ (db .task).rows, t.id = k → t.repoId ≠ none → Server.isTerminal (f t).status = true ∨ ¬ Untested db sk k)
    (hf : ∀ t, (f t).id = t.id := by intro; rfl) :
    PipeInv Nobody (DB.answered sc db k st f hf) sk := by
  have htask : DB.reviewed sc db k st .task = db .task := reviewed_other (by decide)
  -- the only new status is that of the task `k`
  have hflow : Flows (fun i v => ∃ t ∈ (db .task).rows, t.id = i ∧ i = k ∧ v = (f t).status) db
      (DB.answered sc db k st f hf) := by
    refine API.reviewed_flows.trans (Flows.update fun t ht hp => ?_)
    rw [htask] at ht
    simp only [Bool.and_eq_true, decide_eq_true_eq] at hp
    exact ⟨hf t, ho t, fun r hr' => by rwa [hr] at hr', .inr ⟨t, ht, rfl, hp.2, rfl⟩⟩
  refine h.calm hflow samePRs_answered (fun _ h => h) ?_
  rintro i v ⟨t, ht, hid, rfl, rfl⟩
  by_cases hover : Server.isTerminal (f t).status = true
  · exact .inr hover
  · refine .inl fun t' ht' hid' hrepo => ?_
    have heq : t' = t := (db .task).eq_of_key_eq ht' ht (by simp only [key, hid, hid'])
    subst heq
    exact (hk t' ht' hid' hrepo).resolve_left hover

end Answers

theorem afterReject_piped {r : Request} (h : w.Piped) :
    PipeInv Nobody (a.afterReject r w k).db (a.afterReject r w k).testsSkipped := by
  refine answered_piped h ?_ ?_ fun _ _ _ _ => .inl rfl
  · exact fun _ => rfl
  · exact fun _ => rfl

theorem AnswerInOrder.tested {sc : Scope} (h : AnswerInOrder s sc w k) {t : Task} (ht : w.db.getTask k = some t)
    (hrepo : t.repoId ≠ none) : ¬ Untested w.db w.testsSkipped k := by
  obtain ⟨-, p, hl, htp, -⟩ := h t ht hrepo
  rintro ⟨p', hl', -, hno⟩
  rw [hl, Option.some.injEq] at hl'
  exact hno (hl' ▸ htp)

theorem afterApprove_piped {r : Request} (h : w.Piped)
    (hr : AnswerInOrder a.server (withOrg a.server.rls (a.authz r).orgID) w k) :
    PipeInv Nobody (a.afterApprove r w k).db (a.afterApprove r w k).testsSkipped := by
  refine answered_piped h ?_ ?_ fun t ht hid hrepo => .inr (hr.tested (getTask_row ht hid) hrepo)
  · exact fun _ => rfl
  · exact fun _ => rfl

theorem answered_other {sc : Scope} {db : Store} {st : ReviewStatus} {f : Task → Task} {hf : ∀ t, (f t).id = t.id} {t : Tbl}
    (ht : t ≠ .task) (hp : t ≠ .pullRequest) : DB.answered sc db k st f hf t = db t :=
  (Store.set_of_ne _ _ ht).trans (reviewed_other hp)

theorem latestPR_approved {r : Request} {p : PullRequest} (hl : w.db.latestPR k = some p) (hid : p.id ≠ "") :
    ∃ p', (a.approvedDb r w.db k).latestPR k = some p' ∧ Alike p p' ∧
      ((withOrg a.server.rls (a.authz r).orgID).writes w.db .pullRequest p = true → p'.humanReviewStatus = .approved) ∧
      (p'.humanReviewStatus = p.humanReviewStatus ∨ p'.humanReviewStatus = .approved) := latestPR_answered hl hid

/-- The merge that an answer dispatches finds its gates met, as the answer is in order. -/
theorem afterApprove_gated {r : Request} (h : w.Piped)
    (hr : AnswerInOrder a.server (withOrg a.server.rls (a.authz r).orgID) w k)
    (ht : ∃ t, (a.approvedDb r w.db k).getTask k = some t ∧ t.repoId ≠ none) :
    GatesMet a.server (a.approvedDb r w.db k) w.testsSkipped k := by
  obtain ⟨t', ht', hrepo⟩ := ht
  have hget := ht'
  rw [API.approvedDb, Store.getTask, DB.answered, Store.set_same, Table.get?_update, reviewed_other (by decide),
    Option.map_eq_some_iff] at hget
  obtain ⟨t, hmem, heq⟩ := hget
  have hkid : t.id = k := by simpa [key] using (Table.get?_eq_some.1 hmem).2
  have hrepo' : t.repoId ≠ none := by
    rw [← heq] at hrepo
    split at hrepo <;> exact hrepo
  obtain ⟨hlive, p, hl, htp, hai, hhu⟩ := hr t hmem hrepo'
  obtain ⟨hp, -⟩ := latestPR_mem hl
  obtain ⟨p', hl', halike, hmine, hsame⟩ := latestPR_approved (r := r) hl (h.prs p hp).1
  refine ⟨⟨t', ht', ?_⟩, p', hl', htp.alike (fun _ h => h) halike, halike.aiReviewStatus.trans hai, fun hg => ?_⟩
  · rw [← heq]
    split
    · rfl
    · next hw =>
      refine hlive.resolve_left fun hw' => hw ?_
      rw [writes_task _ w.db, hw', Bool.true_and]
      exact decide_eq_true hkid
  · have hgate : a.server.gateOf (a.approvedDb r w.db k) k = a.server.gateOf w.db k :=
      gateOf_congr (API.taskRepo_approvedDb k) (answered_other (by decide) (by decide))
        (answered_other (by decide) (by decide)) (answered_other (by decide) (by decide)) a.server
    rw [hgate] at hg
    rcases hhu with hw | hoff | happ
    · exact hmine hw
    · rw [hg] at hoff
      cases hoff
    · exact hsame.elim (fun hs => hs.trans happ) id

/-! ## Steps -/

/-- The tasks of a step that names no task out of order. -/
theorem piped_step (h : w.Piped) (ho : Orderly a w e) : (step a w e).Piped := by
  have hcalm : ∀ {P : Push → Prop}, Keeping P w (step a w e) → Flow (fun k st =>
      (∀ t ∈ (w.db .task).rows, t.id = k → t.repoId ≠ none → ¬ Untested w.db w.testsSkipped k) ∨
        Server.isTerminal st = true) w (step a w e) → (step a w e).Piped := fun hk hf =>
    h.calm (hf h.issued).2 (SamePRs.of_kept hk.prs) hk.testsSkipped fun _ _ h => h
  cases step_effect a w e with
  | result st env k r he hr hb => exact hb.piped (afterResult_piped h fun hk happ => ho.review st env k r he hr hk happ)
  | snapshot st env k he hk hb => exact hb.piped (afterSnapshot_piped h)
  | approve r k hr ha hk hb => exact hb.piped (afterApprove_piped h (ho.answer r k hr ha hk))
  | reject r k hr ha hk hb => exact hb.piped (afterReject_piped h)
  | plan st env k he hk hkeep hf => exact hcalm hkeep (hf _ (.inl (ho.plan st env k he hk)))
  | calm hkeep hf => exact hcalm hkeep (hf _ fun _ _ h => .inr h)

theorem pushed_step (h : w.Piped) (ho : Orderly a w e) : Emits (PushOk a.server) w (step a w e) := by
  cases step_effect a w e with
  | result st env k r he hr hb => exact hb.gated (afterResult_gated fun hk happ => ho.review st env k r he hr hk happ)
  | snapshot st env k he hk hb => exact hb.gated (afterSnapshot_gated h)
  | approve r k hr ha hk hb => exact hb.gated fun _ => afterApprove_gated h (ho.answer r k hr ha hk)
  | reject r k hr ha hk hb => exact hb.gated nofun
  | plan st env k he hk hkeep hf =>
      refine hkeep.pushed.mono fun p hp i hd => ?_
      obtain ⟨hkind, -⟩ := hp _ _ hd
      cases hkind
  | calm hkeep hf => exact hkeep.pushed.mono fun p hp i hd => absurd hd (hp _ _)

/-- In a run in which results, plans and answers arrive in order, every merge that was dispatched found
its gates met. -/
theorem merges_gated (a : API) (w : World) (es : List Event) (h : w.Piped) (hm : MergesGated a.server w)
    (ho : Runs.Meets (step a) (Orderly a) w es) : Runs.Always (step a) (MergesGated a.server) w es := by
  have hinv := Runs.always_of_meets (P := fun w => w.Piped ∧ MergesGated a.server w)
    (fun w e hw ho => ⟨piped_step hw.1 ho, fun p hp => ((pushed_step hw.1 ho).mem hp).elim id (hw.2 p)⟩) ⟨h, hm⟩ ho
  exact hinv.mono fun _ h => h.2

/-! ## Runs out of order, and in order -/

/-- The server merges without a human. -/
def lenient : API := { server := { mergeRequireHuman := false } }

/-- A message of a task's executor that reports a result. -/
def completed (output : String) : Event :=
  .recv 0 { type := .STEP_COMPLETED, payload := .stepEvent { taskId := "tsk_0", output := output } }

def planned : Event := .recv 0 { type := .PLAN_RESULT, payload := .planResult { taskId := "tsk_0" } }

def execOutput : String := "\x7b\"kind\":\"exec\",\"branch\":\"b\"\x7d"

def testOutput : String := "\x7b\"kind\":\"test\",\"passed\":true\x7d"

def reviewOutput : String := "\x7b\"kind\":\"review\",\"approved\":true\x7d"

/-- A routine makes a task; its executor plans it, reports a branch and at once an approved review. -/
def untestedRun : List Event := [.connect "s1", .sched, planned, completed execOutput, completed reviewOutput]

/-- The merge is dispatched although the tests did not run. -/
theorem untested_merge : ¬ MergesGated lenient.server (Runs.exec (step lenient) Sample.world untestedRun) := by
  intro h
  have hany : (Runs.exec (step lenient) Sample.world untestedRun).pushed.any (fun p =>
      decide (p.env.type = .DISPATCH_STEP) &&
        (match p.env.payload with
          | .dispatchStep d => decide (d.kind = .MERGE ∧ d.taskId = "tsk_0")
          | _ => false) &&
        (p.db.latestPR "tsk_0").all fun q => decide (q.ciStatus = .none ∧ q.id ∉ p.testsSkipped)) = true := by
    decide +kernel
  obtain ⟨p, hp, hbool⟩ := List.any_eq_true.1 hany
  simp only [Bool.and_eq_true, decide_eq_true_eq] at hbool
  obtain ⟨⟨hty, hpl⟩, hpr⟩ := hbool
  cases hd : p.env.payload with
  | dispatchStep d =>
      rw [hd] at hpl
      obtain ⟨hkind, htask⟩ := of_decide_eq_true hpl
      obtain ⟨-, q, hq, htested, -⟩ := h p hp "tsk_0" ⟨hty, d, hd, hkind, htask⟩
      rw [hq] at hpr
      obtain ⟨hci, hsk⟩ := of_decide_eq_true hpr
      rcases htested with hpass | hmem
      · rw [hci] at hpass
        cases hpass
      · exact hsk hmem
  | _ => rw [hd] at hpl; cases hpl

theorem Orderly.of_none (hh : w.hears e = none) (hs : w.serves e = none) : Orderly a w e where
  review := fun st env k r he => by rw [hh] at he; cases he
  plan := fun st env k he => by rw [hh] at he; cases he
  answer := fun r k hr => by rw [hs] at hr; cases hr

theorem Orderly.recv {i : Nat} {env : Envelope}
    (hr : ∀ k r, env.result = some (k, r) → r.kind = "review" → r.approved = true → ReviewInOrder a.server w k)
    (hp : ∀ k, env.plans = some k → w.db.latestPR k = none) : Orderly a w (.recv i env) where
  review := fun st env' k r he hres => by
    obtain ⟨i', hi, -⟩ := hears_eq_some he
    cases hi
    exact hr k r hres
  plan := fun st env' k he hk t _ _ _ hun => by
    obtain ⟨i', hi, -⟩ := hears_eq_some he
    cases hi
    obtain ⟨p, hl, -⟩ := hun
    rw [hp k hk] at hl
    cases hl
  answer := fun r k hr => by cases hr

/-- The tests pass before the review. -/
def testedRun : List Event :=
  [.connect "s1", .sched, planned, completed execOutput, completed testOutput, completed reviewOutput]

theorem merges_gated_sample : Runs.Always (step lenient) (MergesGated lenient.server) Sample.world testedRun := by
  have hpiped : Sample.world.Piped := by
    have hnopr : (Sample.world.db .pullRequest).rows = [] := by decide +kernel
    refine ⟨fun t ht => ?_, fun p hp => ?_, fun t ht => ?_⟩
    · rw [Sample.no_tasks] at ht
      cases ht
    · rw [hnopr] at hp
      cases hp
    · rw [Sample.no_tasks] at ht
      cases ht
  refine merges_gated lenient Sample.world testedRun hpiped (fun p hp => by cases hp)
    ⟨.of_none rfl rfl, .of_none rfl rfl, .recv nofun fun k hk => ?_, .recv (fun k r hr hkind => ?_) nofun,
      .recv (fun k r hr hkind => ?_) nofun, .recv (fun k r hr _ _ => ?_) nofun, trivial⟩
  · cases hk
    have hnone : ((step lenient (step lenient Sample.world (.connect "s1")) .sched).db.latestPR "tsk_0").isNone = true := by
      decide +kernel
    exact Option.isNone_iff_eq_none.1 hnone
  · have hres : Server.parseResult execOutput = some { kind := "exec", branch := "b" } := by decide +kernel
    simp only [Envelope.result, hres, Option.map_some, Option.some.injEq, Prod.mk.injEq] at hr
    rw [← hr.2] at hkind
    exact absurd hkind (by decide)
  · have hres : Server.parseResult testOutput = some { kind := "test", passed := true } := by decide +kernel
    simp only [Envelope.result, hres, Option.map_some, Option.some.injEq, Prod.mk.injEq] at hr
    rw [← hr.2] at hkind
    exact absurd hkind (by decide)
  · have hres : Server.parseResult reviewOutput = some { kind := "review", approved := true } := by decide +kernel
    simp only [Envelope.result, hres, Option.map_some, Option.some.injEq, Prod.mk.injEq] at hr
    obtain ⟨rfl, -⟩ := hr
    have hpr : ((Runs.exec (step lenient) Sample.world (testedRun.take 5)).db.latestPR "tsk_0").any
        (fun p => decide (p.ciStatus = .passed)) = true := by decide +kernel
    have hlive : ((Runs.exec (step lenient) Sample.world (testedRun.take 5)).db.getTask "tsk_0").all
        (fun t => !Server.isTerminal t.status) = true := by decide +kernel
    intro t ht _
    obtain ⟨p, hp, hci⟩ := (Option.any_eq_true _ _).1 hpr
    refine ⟨⟨p, hp, .inl (of_decide_eq_true hci)⟩, fun _ => ?_⟩
    simpa using (Option.all_eq_true _ _).1 hlive t ht

end Apifor
