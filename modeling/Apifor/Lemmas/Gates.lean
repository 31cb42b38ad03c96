import Apifor.Lemmas.Steps

/-!
# The pipeline's invariant

A task whose latest pull request has the AI's approval without its tests is over. The invariant also
says where pull requests belong; `ex` names the tasks for which a handler has it open.
-/

namespace Apifor

/-! ## Pull requests -/

/-- The tests of the pull request passed, or the worker's configuration skipped them. -/
def Tested (skipped : List Id) (p : PullRequest) : Prop := p.ciStatus = .passed ∨ p.id ∈ skipped

/-- The AI approved the latest pull request of the task without its tests. -/
def Untested (s : Store) (skipped : List Id) (task : Id) : Prop :=
  ∃ p, s.latestPR task = some p ∧ p.aiReviewStatus = .approved ∧ ¬ Tested skipped p

theorem latestPR_mem {s : Store} {task : Id} {p : PullRequest} (h : s.latestPR task = some p) :
    p ∈ (s .pullRequest).rows ∧ p.taskId = some task :=
  ⟨List.mem_of_find?_eq_some h, by simpa using List.find?_some h⟩

/-- The same pull request, as far as its tests and the AI's review go. -/
structure Alike (p p' : PullRequest) : Prop where
  id : p'.id = p.id
  taskId : p'.taskId = p.taskId
  ciStatus : p'.ciStatus = p.ciStatus
  aiReviewStatus : p'.aiReviewStatus = p.aiReviewStatus

/-- The pull requests of two stores are alike. -/
abbrev SamePRs (s s' : Store) : Prop := List.Forall₂ Alike (s .pullRequest).rows (s' .pullRequest).rows

theorem Alike.of_kept {p p' : PullRequest} (h : Kept .pullRequest p p') : Alike p p' := by
  have hcore : ({ p' with repoId := none } : PullRequest) = { p with repoId := none } := h.core
  simp only [PullRequest.mk.injEq] at hcore
  obtain ⟨hid, -, htask, -, -, -, -, hci, hai, -, -⟩ := hcore
  exact ⟨hid, htask, hci, hai⟩

theorem SamePRs.of_kept {s s' : Store} (h : List.Forall₂ (Kept .pullRequest) (s .pullRequest).rows (s' .pullRequest).rows) :
    SamePRs s s' := h.imp fun _ _ => Alike.of_kept

theorem SamePRs.refl (s : Store) : SamePRs s s := List.forall₂_same.2 fun _ _ => ⟨rfl, rfl, rfl, rfl⟩

theorem latestPR_alike {s s' : Store} (h : SamePRs s s') {task : Id} {p' : PullRequest}
    (hp : s'.latestPR task = some p') : ∃ p, s.latestPR task = some p ∧ Alike p p' := by
  have hrel : Option.Rel Alike (s.latestPR task) (s'.latestPR task) :=
    find?_forall₂ (fun p p' hp => by rw [hp.taskId]) h
  rw [hp] at hrel
  cases hl : s.latestPR task with
  | none => rw [hl] at hrel; cases hrel
  | some p => rw [hl] at hrel; cases hrel with | some hk => exact ⟨p, rfl, hk⟩

theorem Tested.alike {sk sk' : List Id} {p p' : PullRequest} (hsk : ∀ i ∈ sk, i ∈ sk') (hk : Alike p p')
    (h : Tested sk p) : Tested sk' p' := by
  rcases h with h | h
  · exact .inl (hk.ciStatus.trans h)
  · exact .inr (by rw [hk.id]; exact hsk _ h)

theorem Untested.alike {s s' : Store} {sk sk' : List Id} {task : Id} (hp : SamePRs s s')
    (hsk : ∀ i ∈ sk, i ∈ sk') (h : Untested s' sk' task) : Untested s sk task := by
  obtain ⟨p', hl, hai, ht⟩ := h
  obtain ⟨p, hl', hk⟩ := latestPR_alike hp hl
  exact ⟨p, hl', hk.aiReviewStatus.symm.trans hai, fun h => ht (h.alike hsk hk)⟩

/-- Setting a pull request changes the latest one of its own task only. -/
theorem latestPR_setPR {s : Store} {i : Id} {f : PullRequest → PullRequest} {hf : ∀ p, (f p).id = p.id}
    (ht : ∀ p, (f p).taskId = p.taskId) (task : Id) :
    (s.setPR i f hf).latestPR task = (s.latestPR task).map fun q => if decide (q.id = i) then f q else q := by
  have hp : (fun p : PullRequest => decide (p.taskId = some task)) ∘ (fun q => if decide (q.id = i) then f q else q) =
      fun p => decide (p.taskId = some task) := by
    funext q
    by_cases hq : q.id = i <;> simp [hq, ht]
  simp only [Store.latestPR, Store.setPR_pr, Table.rows_update, List.find?_map, hp]

theorem latestPR_setPR_self {s : Store} {task : Id} {p : PullRequest} {f : PullRequest → PullRequest}
    {hf : ∀ p, (f p).id = p.id} (ht : ∀ p, (f p).taskId = p.taskId) (h : s.latestPR task = some p) :
    (s.setPR p.id f hf).latestPR task = some (f p) := by
  rw [latestPR_setPR ht, h]
  simp

theorem latestPR_setPR_other {s : Store} {task task' : Id} {p : PullRequest} {f : PullRequest → PullRequest}
    {hf : ∀ p, (f p).id = p.id} (ht : ∀ p, (f p).taskId = p.taskId) (h : s.latestPR task = some p) (hne : task' ≠ task) :
    (s.setPR p.id f hf).latestPR task' = s.latestPR task' := by
  rw [latestPR_setPR ht]
  cases hl : s.latestPR task' with
  | none => rfl
  | some q =>
      obtain ⟨hq, hqt⟩ := latestPR_mem hl
      obtain ⟨hp, hpt⟩ := latestPR_mem h
      have hid : q.id ≠ p.id := by
        intro hid
        have heq : q = p := (s .pullRequest).eq_of_key_eq hq hp (by simp only [key, hid])
        rw [heq, hpt, Option.some.injEq] at hqt
        exact hne hqt.symm
      simp [hid]

/-! ## The invariant -/

structure PipeInv (ex : Id → Prop) (s : Store) (sk : List Id) : Prop where
  issued : ∀ t ∈ (s .task).rows, IssuedId t.id
  prs : ∀ p ∈ (s .pullRequest).rows, p.id ≠ "" ∧ ∀ k, p.taskId = some k → ∃ t ∈ (s .task).rows, t.id = k
  sound : ∀ t ∈ (s .task).rows, ¬ ex t.id → t.repoId ≠ none → Untested s sk t.id → Server.isTerminal t.status = true

def Nobody : Id → Prop := fun _ => False

variable {ex ex' : Id → Prop} {s s' : Store} {sk sk' : List Id} {k : Id}

theorem PipeInv.mono (hex : ∀ k, ex k → ex' k) (h : PipeInv ex s sk) : PipeInv ex' s sk :=
  ⟨h.issued, h.prs, fun t ht hn => h.sound t ht fun he => hn (hex _ he)⟩

theorem PipeInv.open (h : PipeInv Nobody s sk) : PipeInv (· = k) s sk := h.mono fun _ h => h.elim

/-- The invariant is closed again for a task that is not untested, or over. -/
theorem PipeInv.close (h : PipeInv (· = k) s sk)
    (hk : ∀ t ∈ (s .task).rows, t.id = k → t.repoId ≠ none → Untested s sk k → Server.isTerminal t.status = true) :
    PipeInv Nobody s sk :=
  ⟨h.issued, h.prs, fun t ht _ hrepo hu => by
    by_cases htk : t.id = k
    · exact hk t ht htk hrepo (htk ▸ hu)
    · exact h.sound t ht htk hrepo hu⟩

/-- Where tasks move only to their end, unless their pull request is tested, and pull requests are kept,
nothing becomes untested. -/
theorem PipeInv.calm {S : Id → TaskStatus → Prop} (h : PipeInv ex s sk) (hf : Flows S s s')
    (hp : SamePRs s s') (hsk : ∀ i ∈ sk, i ∈ sk')
    (hS : ∀ k st, S k st → (∀ t ∈ (s .task).rows, t.id = k → t.repoId ≠ none → ¬ Untested s sk k) ∨
      Server.isTerminal st = true) : PipeInv ex s' sk' := by
  have hprs : ∀ p' ∈ (s' .pullRequest).rows,
      p'.id ≠ "" ∧ ∀ k, p'.taskId = some k → ∃ t ∈ (s .task).rows, t.id = k := by
    intro p' hp'
    obtain ⟨p, hpm, hk⟩ := mem_forall₂ hp hp'
    rw [hk.id, hk.taskId]
    exact h.prs p hpm
  refine ⟨fun t' ht' => ?_, fun p hp => ⟨(hprs p hp).1, fun k hk => ?_⟩, fun t' ht' hex hrepo hun => ?_⟩
  · rcases hf.source t' ht' with ⟨t, ht, hm⟩ | hfresh
    · rw [hm.id]
      exact h.issued t ht
    · exact hfresh.issued
  · obtain ⟨t, ht, hid⟩ := (hprs p hp).2 k hk
    obtain ⟨t', ht', hm⟩ := hf.target t ht
    exact ⟨t', ht', hm.id.trans hid⟩
  · -- an untested task has a pull request, so it is an old one
    obtain ⟨p, hl, -⟩ := id hun
    obtain ⟨hpm, hpt⟩ := latestPR_mem hl
    obtain ⟨t, ht, hid⟩ := (hprs p hpm).2 _ hpt
    obtain ⟨t'', ht'', hm⟩ := hf.target t ht
    have heq : t'' = t' := (s' .task).eq_of_key_eq ht'' ht' (by simp only [key, hm.id, hid])
    rw [heq] at hm
    obtain ⟨r, hr⟩ := Option.ne_none_iff_exists'.1 hrepo
    rw [← hid] at hex hun
    have hrepo' : t.repoId ≠ none := by simp [hm.repoId r hr]
    rcases hm.status with hst | hst
    · rw [hst]
      exact h.sound t ht hex hrepo' (hun.alike hp hsk)
    · exact (hS _ _ hst).resolve_left fun hno => hno t ht rfl hrepo' (hun.alike hp hsk)

/-- The invariant only looks at tasks and pull requests. -/
theorem PipeInv.congr (h : PipeInv ex s sk) (ht : s' .task = s .task) (hp : s' .pullRequest = s .pullRequest) :
    PipeInv ex s' sk := by
  have hl : ∀ k, s'.latestPR k = s.latestPR k := fun k => by rw [Store.latestPR, hp, Store.latestPR]
  refine ⟨by rw [ht]; exact h.issued, by rw [ht, hp]; exact h.prs, ?_⟩
  rw [ht]
  rintro t htm hex hrepo ⟨p, hlp, hrest⟩
  exact h.sound t htm hex hrepo ⟨p, (hl t.id).symm.trans hlp, hrest⟩

/-- Setting a task closes what was open for it, if the task is over or was not untested. -/
theorem PipeInv.setTask (h : PipeInv (· = k) s sk) (f : Task → Task) (hf : ∀ t, (f t).id = t.id)
    (hr : ∀ t, (f t).repoId = t.repoId)
    (hk : ∀ t ∈ (s .task).rows, t.id = k → t.repoId ≠ none → Untested s sk k →
      Server.isTerminal (f t).status = true) : PipeInv Nobody (s.setTask k f hf) sk := by
  have hpr : (s.setTask k f hf) .pullRequest = s .pullRequest := Store.setTask_other (by decide)
  have hun : ∀ i, Untested (s.setTask k f hf) sk i → Untested s sk i := by
    rintro i ⟨p, hl, hrest⟩
    exact ⟨p, by rwa [Store.latestPR, hpr] at hl, hrest⟩
  have hid : ∀ t, (if decide (t.id = k) then f t else t).id = t.id := by
    intro t
    split
    · exact hf t
    · rfl
  have hrows : ((s.setTask k f hf) .task).rows = (s .task).rows.map fun t => if decide (t.id = k) then f t else t := by
    rw [Store.setTask_task, Table.rows_update]
  refine ⟨fun t' ht' => ?_, fun p hp => ?_, fun t' ht' _ hrepo hu => ?_⟩
  · obtain ⟨t, ht, rfl⟩ := List.mem_map.1 (hrows ▸ ht')
    rw [hid]
    exact h.issued t ht
  · rw [hpr] at hp
    refine ⟨(h.prs p hp).1, fun i hi => ?_⟩
    obtain ⟨t, ht, hti⟩ := (h.prs p hp).2 i hi
    exact ⟨_, hrows ▸ List.mem_map_of_mem ht, (hid t).trans hti⟩
  · obtain ⟨t, ht, rfl⟩ := List.mem_map.1 (hrows ▸ ht')
    rw [hid] at hu
    by_cases htk : t.id = k
    · simp only [htk, decide_true, if_true] at hrepo ⊢
      exact hk t ht htk (by rwa [hr] at hrepo) (htk ▸ hun _ hu)
    · simp only [htk, decide_false, Bool.false_eq_true, if_false] at hrepo ⊢
      exact h.sound t ht htk hrepo (hun _ hu)

/-- Setting the latest pull request of a task opens the invariant for that task. -/
theorem PipeInv.setPR {p : PullRequest} (h : PipeInv Nobody s sk) (f : PullRequest → PullRequest)
    (hf : ∀ p, (f p).id = p.id) (ht : ∀ p, (f p).taskId = p.taskId) (hl : s.latestPR k = some p) :
    PipeInv (· = k) (s.setPR p.id f hf) sk := by
  have htask : (s.setPR p.id f hf) .task = s .task := Store.setPR_other (by decide)
  refine ⟨fun t ht => h.issued t (by rwa [htask] at ht), fun q hq => ?_, fun t htm hne hrepo hu => ?_⟩
  · rw [Store.setPR_pr, Table.rows_update] at hq
    obtain ⟨q', hq', rfl⟩ := List.mem_map.1 hq
    obtain ⟨hne, htk⟩ := h.prs q' hq'
    rw [htask]
    split
    · rw [hf, ht]
      exact ⟨hne, htk⟩
    · exact ⟨hne, htk⟩
  · rw [htask] at htm
    obtain ⟨q, hlq, hrest⟩ := hu
    rw [latestPR_setPR_other ht hl hne] at hlq
    exact h.sound t htm id hrepo ⟨q, hlq, hrest⟩

/-- So does a new pull request of the task. -/
theorem PipeInv.insertPR {sc : Scope} {p : PullRequest} (h : PipeInv Nobody s sk) (hid : p.id ≠ "")
    (htask : p.taskId = some k) (hk : ∃ t ∈ (s .task).rows, t.id = k) (hi : insert sc .pullRequest p s = .ok s') :
    PipeInv (· = k) s' sk := by
  have hrows := insert_rows hi
  have htasks : s' .task = s .task := insert_other hi (by decide)
  refine ⟨fun t ht => h.issued t (by rwa [htasks] at ht), fun q hq => ?_, fun t htm hne hrepo hu => ?_⟩
  · rw [hrows] at hq
    rw [htasks]
    rcases List.mem_cons.1 hq with rfl | hq
    · exact ⟨hid, fun i hi => by rwa [← Option.some.inj (htask.symm.trans hi)]⟩
    · exact h.prs q hq
  · rw [htasks] at htm
    obtain ⟨q, hlq, hrest⟩ := hu
    have hskip : s'.latestPR t.id = s.latestPR t.id := by
      rw [Store.latestPR, hrows, List.find?_cons_of_neg]
      · rfl
      · simpa [htask] using fun h => hne h.symm
    rw [hskip] at hlq
    exact h.sound t htm id hrepo ⟨q, hlq, hrest⟩

end Apifor
