import Apifor.Sql

/-!
# Whose rows a write touches

`SameRows A s s'` says that a change of store left every row of org `A` as it was. Statements in the
scope of another org do that by the row-level policies, statements that bypass them when the rows
they select are not `A`'s.
-/

namespace Apifor

variable {A B : Id} {s s' s'' : Store}

/-! ## Ownership -/

/-- Ownership through a parent only looks at the owner's parents. -/
theorem owns_congr (hw : rowsOf A s' .workspace = rowsOf A s .workspace)
    (hk : rowsOf A s' .task = rowsOf A s .task)
    (hp : rowsOf A s' .pullRequest = rowsOf A s .pullRequest) (t : Tbl) (r : Row t) :
    owns A s' t r = owns A s t r := by
  cases t with
  | poolConfig =>
      have h := congrArg (fun l => l.any fun w => decide (w.id = r.workspaceId)) hw
      simp only [rowsOf, List.any_filter] at h
      simpa [owns, Bool.and_comm] using h
  | step =>
      have h := congrArg (fun l => l.any fun k => decide (k.id = r.taskId)) hk
      simp only [rowsOf, List.any_filter] at h
      simpa [owns, Bool.and_comm] using h
  | ciRun =>
      have h := congrArg (fun l => l.any fun p => decide (p.id = r.prId)) hp
      simp only [rowsOf, List.any_filter] at h
      simpa [owns, Bool.and_comm] using h
  | _ => rfl

/-- A row has one owner. -/
theorem owns_unique {t : Tbl} {r : Row t} (ha : owns A s t r = true) (hb : owns B s t r = true) : A = B := by
  cases t with
  | poolConfig =>
      simp only [owns, List.any_eq_true, decide_eq_true_eq] at ha hb
      obtain ⟨w, hw, hwi, rfl⟩ := ha
      obtain ⟨w', hw', hwi', rfl⟩ := hb
      rw [(s .workspace).eq_of_key_eq hw hw' (by simp only [key, hwi, hwi'])]
  | step =>
      simp only [owns, List.any_eq_true, decide_eq_true_eq] at ha hb
      obtain ⟨k, hk, hki, rfl⟩ := ha
      obtain ⟨k', hk', hki', rfl⟩ := hb
      rw [(s .task).eq_of_key_eq hk hk' (by simp only [key, hki, hki'])]
  | ciRun =>
      simp only [owns, List.any_eq_true, decide_eq_true_eq] at ha hb
      obtain ⟨p, hp, hpi, rfl⟩ := ha
      obtain ⟨p', hp', hpi', rfl⟩ := hb
      rw [(s .pullRequest).eq_of_key_eq hp hp' (by simp only [key, hpi, hpi'])]
  | agentProfile =>
      simp only [owns, decide_eq_true_eq] at ha hb
      simpa [ha] using hb
  | appUser => cases ha
  | planCatalog => cases ha
  | _ =>
      simp only [owns, decide_eq_true_eq] at ha hb
      exact ha.symm.trans hb

theorem owns_global {t : Tbl} {r : Row t} (h : t.isGlobal = true) : owns A s t r = false := by
  cases t <;> first | rfl | cases h

/-- What one org's scope may write is not another org's. -/
theorem not_owns_of_writes (hab : A ≠ B) {t : Tbl} {r : Row t} (h : (Scope.org B).writes s t r = true) :
    owns A s t r = false := by
  simp only [Scope.writes, Bool.or_eq_true, Bool.and_eq_true] at h
  rcases h with hg | ⟨-, hb⟩
  · exact owns_global hg
  · cases ha : owns A s t r with
    | false => rfl
    | true => exact absurd (owns_unique ha hb) hab

/-! ## The rows of an org -/

def SameRows (A : Id) (s s' : Store) : Prop := ∀ t, rowsOf A s' t = rowsOf A s t

theorem SameRows.refl (A : Id) (s : Store) : SameRows A s s := fun _ => rfl

theorem SameRows.trans (h : SameRows A s s') (h' : SameRows A s' s'') : SameRows A s s'' :=
  fun t => (h' t).trans (h t)

/-- Changing one table keeps `A`'s rows if it keeps the rows of that table that were `A`'s. -/
theorem sameRows_set {t : Tbl} {x : Table (key t)} (h : x.rows.filter (owns A s t) = rowsOf A s t) :
    SameRows A s (s.set t x) := by
  have hrows : ∀ t', ((s.set t x) t').rows.filter (owns A s t') = rowsOf A s t' := by
    intro t'
    by_cases ht : t' = t
    · subst ht
      rw [Store.set_same, h]
    · rw [Store.set_of_ne s x ht, rowsOf]
  have hw : rowsOf A (s.set t x) .workspace = rowsOf A s .workspace := hrows .workspace
  have hk : rowsOf A (s.set t x) .task = rowsOf A s .task := hrows .task
  have hp : rowsOf A (s.set t x) .pullRequest = rowsOf A s .pullRequest := hrows .pullRequest
  intro t'
  rw [rowsOf, funext (owns_congr hw hk hp t'), hrows t']

/-! ## Statements -/

section Statements

variable {sc : Scope} {t : Tbl}

theorem writes_of_insert {r : Row t} (h : insert sc t r s = .ok s') : sc.writes s t r = true := by
  simp only [insert, admissible] at h
  split at h
  · cases h
  · next hok =>
      split_ifs at hok with _ hw
      simpa using hw

theorem sameRows_insert {r : Row t} (h : insert sc t r s = .ok s') (hr : owns A s t r = false) :
    SameRows A s s' := by
  obtain ⟨x, hx, rfl⟩ := insert_eq h
  exact sameRows_set (Table.filter_rows_insert hx hr)

theorem sameRows_insert_org {r : Row t} (hab : A ≠ B) (h : insert (.org B) t r s = .ok s') :
    SameRows A s s' := sameRows_insert h (not_owns_of_writes hab (writes_of_insert h))

variable {p : Row t → Bool} {f : Row t → Row t} {hf : ∀ r, key t (f r) = key t r} {n : Nat}

theorem writes_of_update (h : update sc t p f s hf = .ok (s', n)) :
    ∀ r ∈ (s t).rows, (sc.writes s t r && p r) = true → sc.writes s t (f r) = true := by
  intro r hr hp
  simp only [update] at h
  split_ifs at h with _ hw
  by_contra hn
  exact hw (List.any_eq_true.2 ⟨r, List.mem_filter.2 ⟨hr, hp⟩, by simpa using hn⟩)

theorem sameRows_update (h : update sc t p f s hf = .ok (s', n))
    (hp : ∀ r ∈ (s t).rows, (sc.writes s t r && p r) = true →
      owns A s t r = false ∧ owns A s t (f r) = false) : SameRows A s s' := by
  simp only [update] at h
  split_ifs at h
  cases h
  exact sameRows_set (Table.filter_rows_update hp)

theorem sameRows_update_org (hab : A ≠ B) (h : update (.org B) t p f s hf = .ok (s', n)) :
    SameRows A s s' :=
  sameRows_update h fun r hr hp =>
    ⟨not_owns_of_writes hab (by simp only [Bool.and_eq_true] at hp; exact hp.1),
      not_owns_of_writes hab (writes_of_update h r hr hp)⟩

end Statements

/-! ## Deletions

Deleting a repository or a connection reaches the rows that refer to it, whoever owns them. -/

/-- `A`'s rows refer only to repositories and connections of `A`. -/
def SelfContained (A : Id) (s : Store) : Prop :=
  ∀ t, ∀ r ∈ rowsOf A s t, ∀ q ∈ refs t r, q.1 = .repository ∨ q.1 = .connection →
    ∃ r' ∈ rowsOf A s q.1, (key q.1 r').1 = q.2

theorem SelfContained.congr (h : SameRows A s s') (hs : SelfContained A s) : SelfContained A s' := by
  intro t r hr q hq hqt
  rw [h t] at hr
  rw [h q.1]
  exact hs t r hr q hq hqt

/-- No row of `A` refers to one of the given ids of a table. -/
def Unreferenced (A : Id) (u : Tbl) (ids : List Id) (s : Store) : Prop :=
  ∀ t, ∀ r ∈ rowsOf A s t, ∀ i ∈ ids, (u, i) ∉ refs t r

theorem Unreferenced.congr {u : Tbl} {ids : List Id} (h : SameRows A s s') (hs : Unreferenced A u ids s) :
    Unreferenced A u ids s' := by
  intro t r hr
  rw [h t] at hr
  exact hs t r hr

theorem nullRepo_eq {ids : List Id} {o : Option Id} (h : ∀ i ∈ ids, o ≠ some i) : nullRepo ids o = o := by
  cases o with
  | none => rfl
  | some i =>
      have hi : ids.contains i = false := by
        rw [List.contains_eq_mem]
        exact decide_eq_false fun hm => h i hm rfl
      simp only [nullRepo, hi, Bool.false_eq_true, if_false]

theorem sameRows_fix {t : Tbl} {f : Row t → Row t} {hf : ∀ r, key t (f r) = key t r}
    (hq : ∀ r, owns A s t (f r) = owns A s t r) (hfix : ∀ r ∈ rowsOf A s t, f r = r) :
    SameRows A s (s.set t ((s t).update (fun _ => true) f hf)) :=
  sameRows_set (Table.filter_rows_update_fix (fun r _ => hq r) hfix)

theorem owns_clearRepo (ids : List Id) (t : Tbl) (r : Row t) :
    owns A s t (clearRepo ids t r) = owns A s t r := by
  cases t <;> rfl

theorem clearRepo_eq {ids : List Id} {t : Tbl} {r : Row t} (h : ∀ i ∈ ids, (.repository, i) ∉ refs t r) :
    clearRepo ids t r = r := by
  have hnull : ∀ o : Option Id, (∀ i, o = some i → (.repository, i) ∈ refs t r) → nullRepo ids o = o :=
    fun o ho => nullRepo_eq fun i hi heq => h i hi (ho i heq)
  cases t with
  | pinnedWorker => simp only [clearRepo, hnull r.repoId fun i hi => by simp [refs, hi]]
  | task => simp only [clearRepo, hnull r.repoId fun i hi => by simp [refs, hi]]
  | pullRequest => simp only [clearRepo, hnull r.repoId fun i hi => by simp [refs, hi]]
  | qaReport => simp only [clearRepo, hnull r.repoId fun i hi => by simp [refs, hi]]
  | _ => rfl

theorem sameRows_unlinkRepo {ids : List Id} (t : Tbl) (h : Unreferenced A .repository ids s) :
    SameRows A s (unlinkRepo ids t s) :=
  sameRows_fix (owns_clearRepo ids t) fun r hr => clearRepo_eq (h t r hr)

theorem sameRows_dropMemories {ids : List Id} (h : Unreferenced A .repository ids s) :
    SameRows A s (dropMemories ids s) := by
  refine sameRows_set (Table.filter_rows_delete fun r hr hgone => ?_)
  cases hown : owns A s .memory r with
  | false => rfl
  | true =>
      cases hrepo : r.repoId with
      | none => simp [hrepo] at hgone
      | some i =>
          have hi : i ∈ ids := by simpa [hrepo] using hgone
          exact absurd (by simp [refs, hrepo]) (h .memory r (List.mem_filter.2 ⟨hr, hown⟩) i hi)

theorem sameRows_onDeleteRepository {ids : List Id} (h : Unreferenced A .repository ids s) :
    SameRows A s (onDeleteRepository ids s) := by
  have h1 := sameRows_unlinkRepo .pinnedWorker h
  have h2 := h1.trans (sameRows_unlinkRepo .task (h.congr h1))
  have h3 := h2.trans (sameRows_unlinkRepo .pullRequest (h.congr h2))
  have h4 := h3.trans (sameRows_unlinkRepo .qaReport (h.congr h3))
  exact h4.trans (sameRows_dropMemories (h.congr h4))

theorem sameRows_onDeleteConnection {ids : List Id} (h : Unreferenced A .connection ids s) :
    SameRows A s (onDeleteConnection ids s) :=
  sameRows_fix (fun _ => rfl) fun r hr => by
    rw [nullRepo_eq fun i hi heq => h .repository r hr i hi (by simp [refs, heq])]

/-- Rows that one org may delete are not referred to by the rows of another that is self-contained. -/
theorem unreferenced_of_writes (hab : A ≠ B) (hs : SelfContained A s) {u : Tbl}
    (hu : u = .repository ∨ u = .connection) {gone : List (Row u)}
    (hgone : ∀ r ∈ gone, r ∈ (s u).rows ∧ (Scope.org B).writes s u r = true) :
    Unreferenced A u (gone.map fun r => (key u r).1) s := by
  intro t r hr i hi hmem
  obtain ⟨g, hg, rfl⟩ := List.mem_map.1 hi
  obtain ⟨hgr, hgw⟩ := hgone g hg
  obtain ⟨r', hr', hk⟩ := hs t r hr _ hmem hu
  obtain ⟨hr'm, hr'o⟩ := List.mem_filter.1 hr'
  have hkey : key u r' = key u g := by
    rcases hu with rfl | rfl <;> exact Prod.ext hk rfl
  rw [(s u).eq_of_key_eq hr'm hgr hkey, not_owns_of_writes hab hgw] at hr'o
  cases hr'o

theorem sameRows_delete_org {t : Tbl} {p : Row t → Bool} (hab : A ≠ B) (hs : SelfContained A s) :
    SameRows A s (delete (.org B) t p s).1 := by
  have hdel : SameRows A s (s.set t ((s t).delete fun r => (Scope.org B).writes s t r && p r)) :=
    sameRows_set (Table.filter_rows_delete fun r _ hp =>
      not_owns_of_writes hab (by simp only [Bool.and_eq_true] at hp; exact hp.1))
  refine hdel.trans ?_
  have hgone : ∀ r ∈ (s t).rows.filter (fun r => (Scope.org B).writes s t r && p r),
      r ∈ (s t).rows ∧ (Scope.org B).writes s t r = true := by
    intro r hr
    obtain ⟨hm, hp⟩ := List.mem_filter.1 hr
    simp only [Bool.and_eq_true] at hp
    exact ⟨hm, hp.1⟩
  cases t with
  | repository => exact sameRows_onDeleteRepository ((unreferenced_of_writes hab hs (.inl rfl) hgone).congr hdel)
  | connection => exact sameRows_onDeleteConnection ((unreferenced_of_writes hab hs (.inr rfl) hgone).congr hdel)
  | _ => exact SameRows.refl A _

end Apifor
