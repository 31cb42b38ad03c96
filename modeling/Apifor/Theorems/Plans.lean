import Apifor.Lemmas.Refused

/-!
# Storing a plan

The steps of a plan are upserted one after another, outside of a transaction: what is left in the table, also
when the database fails on the way.
-/

namespace Apifor

namespace DB

variable {w : World} {s s' : Store} {task : Id} {st : PlanStepIn} {steps : List PlanStepIn} {F : String → Nat → Option DbErr}

/-! ## The rows of a task -/

def stepsAt (s : Store) (task : Id) (i : Int) : List Step :=
  (s .step).rows.filter fun p => decide (p.taskId = task ∧ p.idx = i)

/-- The row holds the step. -/
def Holds (p : Step) (st : PlanStepIn) : Prop := PgEnum.ofText? st.type = some p.type ∧ p.label = some st.label

/-- The task has the step already. -/
def Stored (s : Store) (task : Id) (st : PlanStepIn) : Prop :=
  stepsAt s task st.idx ≠ [] ∧ ∀ p ∈ stepsAt s task st.idx, Holds p st

/-- The task's rows are the steps, all pending. -/
structure Exactly (s : Store) (task : Id) (steps : List PlanStepIn) : Prop where
  stored : ∀ st ∈ steps, Stored s task st
  only : ∀ i, i ∉ steps.map (·.idx) → stepsAt s task i = []
  pending : ∀ i, ∀ p ∈ stepsAt s task i, p.status = .pending

/-! ## One upsert -/

/-- What an upsert leaves at its index: the rows of before with another type and label, or a new row. -/
inductive Upsert (task : Id) (st : PlanStepIn) : List Step → List Step → Prop
  | update {ps : List Step} {ty : StepType} (hty : PgEnum.ofText? st.type = some ty) (hne : ps ≠ []) :
      Upsert task st ps (ps.map fun p => { p with type := ty, label := some st.label })
  | insert {id : Id} {ty : StepType} (hty : PgEnum.ofText? st.type = some ty) :
      Upsert task st [] [{ id := id, taskId := task, idx := st.idx, type := ty, label := some st.label }]

theorem any_stepsAt : ((s .step).rows.any fun p => decide (p.taskId = task ∧ p.idx = st.idx)) = true ↔
    stepsAt s task st.idx ≠ [] := by
  rw [stepsAt, Ne, List.filter_eq_nil_iff, List.any_eq_true]
  push Not
  rfl

theorem stepsAt_upsert {id : Id} (h : upsertStep id task st s = .ok (s', ())) :
    Upsert task st (stepsAt s task st.idx) (stepsAt s' task st.idx) ∧
      ∀ i, i ≠ st.idx → stepsAt s' task i = stepsAt s task i := by
  unfold upsertStep at h
  cases hty : (PgEnum.ofText? st.type : Option StepType) with
  | none =>
      rw [hty] at h
      cases h
  | some ty =>
      rw [hty] at h
      dsimp only at h
      split at h
      · next hany =>
          obtain ⟨⟨s1, n⟩, hu, hs⟩ := map_eq_ok h
          cases hs
          have hrows := update_rows hu
          have hat : ∀ i, stepsAt s1 task i = (stepsAt s task i).map fun p =>
              if decide (p.taskId = task ∧ p.idx = st.idx) then { p with type := ty, label := some st.label } else p := by
            intro i
            rw [stepsAt, hrows, List.filter_map, stepsAt]
            refine congrArg _ (List.filter_congr fun p _ => ?_)
            simp only [Function.comp_apply, Scope.writes, Bool.true_and]
            split <;> rfl
          refine ⟨?_, fun i hi => ?_⟩
          · have hmap : stepsAt s1 task st.idx =
                (stepsAt s task st.idx).map fun p => { p with type := ty, label := some st.label } := by
              rw [hat]
              exact List.map_congr_left fun p hp => if_pos (List.mem_filter.1 hp).2
            rw [hmap]
            exact .update hty (any_stepsAt.1 hany)
          · rw [hat]
            refine (List.map_congr_left fun p hp => ?_).trans (List.map_id _)
            have hidx := (of_decide_eq_true (List.mem_filter.1 hp).2).2
            exact if_neg (by simp [hidx, hi])
      · next hany =>
          obtain ⟨s1, hins, hs⟩ := map_eq_ok h
          cases hs
          have hrows := insert_rows hins
          have hnil : stepsAt s task st.idx = [] := by
            by_contra hne
            exact hany (any_stepsAt.2 hne)
          refine ⟨?_, fun i hi => ?_⟩
          · rw [hnil]
            have hone : stepsAt s' task st.idx =
                [{ id := id, taskId := task, idx := st.idx, type := ty, label := some st.label }] := by
              rw [stepsAt, hrows, List.filter_cons_of_pos (by simp), ← stepsAt, hnil]
            rw [hone]
            exact .insert hty
          · rw [stepsAt, hrows, List.filter_cons_of_neg (by simp [Ne.symm hi])]
            rfl

theorem upsert_other {id : Id} (h : upsertStep id task st s = .ok (s', ())) {t : Tbl} (ht : t ≠ .step) : s' t = s t := by
  unfold upsertStep at h
  split at h
  · cases h
  · split at h
    · obtain ⟨⟨s1, n⟩, hu, hs⟩ := map_eq_ok h
      cases hs
      exact update_other hu ht
    · obtain ⟨s1, hins, hs⟩ := map_eq_ok h
      cases hs
      exact insert_other hins ht

/-- An upsert of a step that the task has already changes nothing. -/
theorem upsert_stored {id : Id} (h : upsertStep id task st s = .ok (s', ())) (hst : Stored s task st) :
    s' .step = s .step := by
  unfold upsertStep at h
  split at h
  · cases h
  · next ty hty =>
      rw [if_pos (any_stepsAt.2 hst.1)] at h
      obtain ⟨⟨s1, n⟩, hu, hs⟩ := map_eq_ok h
      cases hs
      refine Table.ext ?_
      rw [update_rows hu]
      refine (List.map_congr_left fun p hp => ?_).trans (List.map_id _)
      split
      · next hsel =>
          simp only [Scope.writes, Bool.true_and] at hsel
          obtain ⟨hpty, hplabel⟩ := hst.2 p (List.mem_filter.2 ⟨hp, hsel⟩)
          obtain rfl : ty = p.type := Option.some.inj (hty.symm.trans hpty)
          rw [← hplabel]
          rfl
      · rfl

/-! ## A sequence of upserts -/

inductive Upserted (task : Id) : List PlanStepIn → Store → Store → Prop
  | nil (s : Store) : Upserted task [] s s
  | cons {id : Id} {st : PlanStepIn} {sts : List PlanStepIn} {s s1 s' : Store}
      (h : upsertStep id task st s = .ok (s1, ())) (hs : Upserted task sts s1 s') : Upserted task (st :: sts) s s'

theorem Upserted.other (h : Upserted task steps s s') {t : Tbl} (ht : t ≠ .step) : s' t = s t := by
  induction h with
  | nil s => rfl
  | cons h _ ih => exact ih.trans (upsert_other h ht)

/-- The steps are upserted independently, as their indices differ. -/
theorem Upserted.at (h : Upserted task steps s s') (hd : (steps.map (·.idx)).Nodup) :
    (∀ i, i ∉ steps.map (·.idx) → stepsAt s' task i = stepsAt s task i) ∧
      ∀ st ∈ steps, Upsert task st (stepsAt s task st.idx) (stepsAt s' task st.idx) := by
  induction h with
  | nil s => exact ⟨fun _ _ => rfl, fun st hst => nomatch hst⟩
  | @cons id st sts s s1 s' h _ ih =>
      rw [List.map_cons, List.nodup_cons] at hd
      obtain ⟨hsame, hnew⟩ := ih hd.2
      obtain ⟨hup, hother⟩ := stepsAt_upsert h
      refine ⟨fun i hi => ?_, fun st' hst' => ?_⟩
      · rw [List.map_cons, List.mem_cons, not_or] at hi
        exact (hsame i hi.2).trans (hother i hi.1)
      · rcases List.mem_cons.1 hst' with rfl | hst'
        · rw [hsame _ hd.1]
          exact hup
        · have hne : st'.idx ≠ st.idx := fun he => hd.1 (he ▸ List.mem_map_of_mem hst')
          rw [← hother _ hne]
          exact hnew st' hst'

theorem Upserted.stored (h : Upserted task steps s s') (hst : ∀ st ∈ steps, Stored s task st) : s' .step = s .step := by
  induction h with
  | nil s => rfl
  | @cons id st sts s s1 s' h _ ih =>
      rw [List.forall_mem_cons] at hst
      have hone := upsert_stored h hst.1
      refine (ih fun st' hst' => ?_).trans hone
      have hsame := hst.2 st' hst'
      rwa [Stored, stepsAt, hone]

theorem Upsert.holds {ps ps' : List Step} (h : Upsert task st ps ps') : ps' ≠ [] ∧ ∀ p ∈ ps', Holds p st := by
  cases h with
  | update hty hne =>
      refine ⟨by simpa using hne, fun p hp => ?_⟩
      obtain ⟨p', -, rfl⟩ := List.mem_map.1 hp
      exact ⟨hty, rfl⟩
  | insert hty => exact ⟨by simp, fun p hp => by rw [List.mem_singleton.1 hp]; exact ⟨hty, rfl⟩⟩

theorem Upsert.pending {ps ps' : List Step} (h : Upsert task st ps ps') :
    (∀ p ∈ ps', p.status = .pending) ↔ ∀ p ∈ ps, p.status = .pending := by
  cases h with
  | update hty hne => simp
  | insert hty => simp

/-- The old rows are among the new steps, and pending. -/
def Pending (s : Store) (task : Id) (steps : List PlanStepIn) : Prop :=
  ∀ i, ∀ p ∈ stepsAt s task i, i ∈ steps.map (·.idx) ∧ p.status = .pending

theorem Upserted.exactly_iff (h : Upserted task steps s s') (hd : (steps.map (·.idx)).Nodup) :
    Exactly s' task steps ↔ Pending s task steps := by
  obtain ⟨hsame, hnew⟩ := h.at hd
  constructor
  · intro he i p hp
    by_cases hi : i ∈ steps.map (·.idx)
    · obtain ⟨st, hst, rfl⟩ := List.mem_map.1 hi
      exact ⟨hi, (hnew st hst).pending.1 (he.pending _) p hp⟩
    · rw [← hsame i hi, he.only i hi] at hp
      cases hp
  · intro hp
    refine ⟨fun st hst => (hnew st hst).holds, fun i hi => ?_, fun i p hpi => ?_⟩
    · rw [hsame i hi]
      exact List.eq_nil_iff_forall_not_mem.2 fun p hpi => hi (hp i p hpi).1
    · by_cases hi : i ∈ steps.map (·.idx)
      · obtain ⟨st, hst, rfl⟩ := List.mem_map.1 hi
        exact (hnew st hst).pending.2 (fun q hq => (hp _ q hq).2) p hpi
      · rw [hsame i hi] at hpi
        exact absurd (hp i p hpi).1 hi

/-- Upserts that leave the table as it was had nothing to do. -/
theorem Upserted.stored_iff (h : Upserted task steps s s') (hd : (steps.map (·.idx)).Nodup) :
    s' .step = s .step ↔ ∀ st ∈ steps, Stored s task st := by
  refine ⟨fun hs st hst => ?_, h.stored⟩
  have hup := ((h.at hd).2 st hst).holds
  rwa [stepsAt, hs] at hup

/-! ## The run -/

/-- After how many steps the database fails, if it does; `i` of them are stored already. -/
def failsAfter (F : String → Nat → Option DbErr) (task : Id) (w : World) : Nat → List PlanStepIn → Store → Option Nat
  | i, [], _ => if refused F "SavePlan" 0 then some i else none
  | i, st :: sts, s =>
      if refused F "SavePlan (step)" i then some i
      else
        match upsertStep ("stp" ++ "_" ++ w.ulid (w.drawn + i)) task st s with
        | .error _ => some i
        | .ok (s, _) => failsAfter F task w (i + 1) sts s

/-- A statement that writes: it is refused, or does what `f` says. -/
theorem comes_exec {α : Type} {n : String} {f : Time → Store → Except DbErr (Store × α)} {c : String → Nat} :
    Prog.Comes F c (exec n f) w fun w' a c' => c' = Prog.sentOnce c n ∧
      ((∃ e, a = .error e ∧ w' = w ∧ (refused F n (c n) = true ∨ f w.now w.db = .error e)) ∨
        refused F n (c n) = false ∧ ∃ s' x, f w.now w.db = .ok (s', x) ∧ w' = { w with db := s' } ∧ a = .ok x) := by
  refine .attempt (fun e he => ⟨rfl, .inl ⟨e, rfl, rfl, .inl (refused_of he)⟩⟩) fun hs => ⟨rfl, ?_⟩
  unfold Prog.settle
  cases hf : f w.now w.db with
  | error e =>
      simp only [hf, Except.map]
      exact .inl ⟨e, rfl, trivial, .inr rfl⟩
  | ok r =>
      simp only [hf, Except.map]
      exact .inr ⟨refused_eq_false.2 hs, r.1, r.2, rfl, rfl, rfl⟩

/-- What the steps come to: all are stored, or those before the one that failed. -/
def Comes (F : String → Nat → Option DbErr) (task : Id) (w : World) (i : Nat) (sts : List PlanStepIn) (s s' : Store)
    (r : Except DbErr Unit) : Prop :=
  (r = .ok () ∧ Upserted task sts s s' ∧
      failsAfter F task w i sts s = if refused F "SavePlan" 0 then some (i + sts.length) else none) ∨
    ∃ e n, r = .error e ∧ Upserted task (sts.take n) s s' ∧ failsAfter F task w i sts s = some (i + n)

theorem comes_savePlanSteps (F : String → Nat → Option DbErr) (task : Id) (w : World) (sts : List PlanStepIn) (i : Nat)
    (w1 : World) (c : String → Nat) (hc : c "SavePlan (step)" = i) (hd : w1.drawn = w.drawn + i) (hu : w1.ulid = w.ulid) :
    Prog.Comes F c (savePlanSteps task sts) w1 fun w' r c' =>
      Comes F task w i sts w1.db w'.db r ∧ c' "SavePlan" = c "SavePlan" := by
  induction sts generalizing i w1 c with
  | nil =>
      refine .done ⟨.inl ⟨rfl, .nil _, ?_⟩, rfl⟩
      rw [failsAfter, List.length_nil, Nat.add_zero]
  | cons st sts ih =>
      have hsent : Prog.sentOnce c "SavePlan (step)" "SavePlan" = c "SavePlan" := Prog.sentOnce_of_ne (by decide)
      have hid : "stp" ++ "_" ++ w1.ulid w1.drawn = "stp" ++ "_" ++ w.ulid (w.drawn + i) := by rw [hd, hu]
      refine .bind (Q := fun w' a c' => w' = { w1 with drawn := w1.drawn + 1 } ∧ a = "stp" ++ "_" ++ w.ulid (w.drawn + i) ∧
        c' = c) (.lift ⟨rfl, hid, rfl⟩) ?_
      rintro _ _ _ ⟨rfl, rfl, rfl⟩
      refine .bind comes_exec ?_
      rintro w' a _ ⟨rfl, ⟨e, rfl, rfl, hfail⟩ | ⟨hsent', s', ⟨⟩, hup, rfl, rfl⟩⟩
      · refine .done ⟨.inr ⟨e, 0, rfl, .nil _, ?_⟩, hsent⟩
        rw [hc] at hfail
        rw [failsAfter]
        rcases hfail with hfail | hfail
        · rw [if_pos hfail]
          rfl
        · split
          · rfl
          · rw [hfail]
            rfl
      · rw [hc] at hsent'
        have hfails : failsAfter F task w i (st :: sts) w1.db = failsAfter F task w (i + 1) sts s' := by
          rw [failsAfter, if_neg (by simp [hsent']), hup]
        refine (ih (i + 1) { w1 with drawn := w1.drawn + 1, db := s' } _
          (by rw [Prog.sentOnce_same, hc]) (by rw [hd, Nat.add_assoc]) hu).mono ?_
        rintro w' r c' ⟨⟨rfl, hall, hnone⟩ | ⟨e, n, rfl, hsome, hn⟩, hc'⟩
        · refine ⟨.inl ⟨rfl, .cons hup hall, ?_⟩, hc'.trans hsent⟩
          rw [hfails, hnone, List.length_cons, Nat.add_right_comm, Nat.add_assoc]
        · refine ⟨.inr ⟨e, n + 1, rfl, .cons hup hsome, ?_⟩, hc'.trans hsent⟩
          rw [hfails, hn, Nat.add_right_comm, Nat.add_assoc]

/-- `SavePlan` stores all steps and moves the task, or stops with an error at the statement that fails. -/
theorem run_savePlan (F : String → Nat → Option DbErr) (w : World) (task : Id) (steps : List PlanStepIn) (tokens : Int) :
    ∃ w' r, ((savePlan task steps tokens).refusing F fun _ => 0).run w = (w', some r) ∧
      match failsAfter F task w 0 steps w.db with
      | none => r = .ok () ∧ ∃ s1, Upserted task steps w.db s1 ∧ w'.db .step = s1 .step
      | some n => (∃ e, r = .error e) ∧ Upserted task (steps.take n) w.db w'.db := by
  have hcomes : Prog.Comes F (fun _ => 0) (savePlan task steps tokens) w fun w' r _ =>
      match failsAfter F task w 0 steps w.db with
      | none => r = .ok () ∧ ∃ s1, Upserted task steps w.db s1 ∧ w'.db .step = s1 .step
      | some n => (∃ e, r = .error e) ∧ Upserted task (steps.take n) w.db w'.db := by
    refine .bind (comes_savePlanSteps F task w steps 0 w (fun _ => 0) rfl rfl rfl) ?_
    rintro w1 r c' ⟨⟨rfl, hall, hfails⟩ | ⟨e, n, rfl, hsome, hfails⟩, hc'⟩
    · rw [hfails, Nat.zero_add]
      refine comes_exec.mono ?_
      rintro w' a _ ⟨rfl, ⟨e, rfl, rfl, hfail⟩ | ⟨hsent, s', ⟨⟩, hup, rfl, rfl⟩⟩
      · have hrefused : refused F "SavePlan" 0 = true := by
          rcases hfail with hfail | hfail
          · rwa [hc'] at hfail
          · have hup := @update_all_eq .task (fun t : Task => decide (t.id = task))
              (fun t : Task => { t with status := .in_review, tokensUsed := tokens }) w'.db
              (Store.key_task fun _ => rfl) (fun r q hq => hq) fun _ => rfl
            rw [hup] at hfail
            cases hfail
        rw [if_pos hrefused]
        refine ⟨⟨e, rfl⟩, ?_⟩
        rw [List.take_length]
        exact hall
      · rw [hc'] at hsent
        rw [if_neg (by simp [hsent])]
        refine ⟨rfl, w1.db, hall, ?_⟩
        obtain ⟨⟨s2, n⟩, hu, hs⟩ := map_eq_ok hup
        cases hs
        exact update_other hu (by decide)
    · rw [hfails, Nat.zero_add]
      exact .done ⟨⟨e, rfl⟩, hsome⟩
  obtain ⟨w', r, c', hspec, hrun⟩ := hcomes.run
  exact ⟨w', r, hrun, hspec⟩

/-! ## Storing exactly the plan -/

/-- If `SavePlan` succeeds the task's rows are the steps, and the database failed at no statement; if it fails
the tables are as they were. -/
def Saves (F : String → Nat → Option DbErr) (w : World) (task : Id) (steps : List PlanStepIn) (tokens : Int) : Prop :=
  ∃ w' r, ((savePlan task steps tokens).refusing F fun _ => 0).run w = (w', some r) ∧
    (r = .ok () → failsAfter F task w 0 steps w.db = none ∧ Exactly w'.db task steps) ∧
      ∀ e, r = .error e → w'.db .step = w.db .step ∧ w'.db .task = w.db .task

/-- Nothing is left of an earlier plan but pending rows at the indices of this one; or, where the database
fails, what was upserted before was there already. -/
def Clean (F : String → Nat → Option DbErr) (w : World) (task : Id) (steps : List PlanStepIn) : Prop :=
  match failsAfter F task w 0 steps w.db with
  | none => Pending w.db task steps
  | some n => ∀ st ∈ steps.take n, Stored w.db task st

theorem exactly_congr (h : s' .step = s .step) : Exactly s' task steps ↔ Exactly s task steps := by
  have hat : stepsAt s' task = stepsAt s task := by
    funext i
    rw [stepsAt, h, stepsAt]
  constructor <;> rintro ⟨h1, h2, h3⟩
  · exact ⟨by simpa only [Stored, hat] using h1, by simpa only [hat] using h2, by simpa only [hat] using h3⟩
  · exact ⟨by simpa only [Stored, hat] using h1, by simpa only [hat] using h2, by simpa only [hat] using h3⟩

/-- `SavePlan` stores exactly the plan, or nothing, only in the cases of `Clean`. -/
theorem saves_iff (F : String → Nat → Option DbErr) (w : World) (task : Id) (steps : List PlanStepIn) (tokens : Int)
    (hd : (steps.map (·.idx)).Nodup) : Saves F w task steps tokens ↔ Clean F w task steps := by
  obtain ⟨w1, r1, hrun1, hspec⟩ := run_savePlan F w task steps tokens
  unfold Saves Clean
  cases hfails : failsAfter F task w 0 steps w.db with
  | none =>
      rw [hfails] at hspec
      obtain ⟨rfl, s1, hup, hstep⟩ := hspec
      rw [← hup.exactly_iff hd, ← exactly_congr hstep]
      constructor
      · rintro ⟨w', r, hrun, hok, -⟩
        rw [hrun1] at hrun
        cases hrun
        exact (hok rfl).2
      · exact fun h => ⟨w1, _, hrun1, fun _ => ⟨rfl, h⟩, fun e he => nomatch he⟩
  | some n =>
      rw [hfails] at hspec
      obtain ⟨⟨e, rfl⟩, hup⟩ := hspec
      have hd' : ((steps.take n).map (·.idx)).Nodup := hd.sublist ((List.take_sublist n steps).map _)
      dsimp only
      rw [← hup.stored_iff hd']
      constructor
      · rintro ⟨w', r, hrun, -, herr⟩
        rw [hrun1] at hrun
        cases hrun
        exact (herr e rfl).1
      · exact fun h => ⟨w1, _, hrun1, fun he => (nomatch he), fun _ _ => ⟨h, hup.other (by decide)⟩⟩

/-! ## A plan after a longer one -/

end DB

namespace Sample

def longPlan : List DB.PlanStepIn := [⟨0, "exec", "a"⟩, ⟨1, "test", "b"⟩]

def shortPlan : List DB.PlanStepIn := [⟨0, "exec", "c"⟩]

/-- A task with the rows of the longer plan. -/
def planned42 : World :=
  { db := Store.ofRows (plans ++ rows ++
      [⟨.task, { id := "tsk_1", orgId := "org_a", workspaceId := "wsp_a", repoId := some "repo_a", title := "t",
                   createdAt := 0 }⟩,
        ⟨.step, { id := "stp_1", taskId := "tsk_1", idx := 0, type := .exec, label := some "a" }⟩,
        ⟨.step, { id := "stp_2", taskId := "tsk_1", idx := 1, type := .test, label := some "b" }⟩]),
    ulid := fun n => String.ofList (List.replicate n '0') }

end Sample

namespace DB

theorem saves_iff_sample : Saves (fun _ _ => none) Sample.planned42 "tsk_1" Sample.longPlan 7 ↔
    Clean (fun _ _ => none) Sample.planned42 "tsk_1" Sample.longPlan :=
  saves_iff _ _ _ _ _ (by decide)

/-- The second step of the longer plan stays. -/
theorem saves_leftover : ¬ ∀ (F : String → Nat → Option DbErr) (w : World) (task : Id) (steps : List PlanStepIn)
    (tokens : Int), (steps.map (·.idx)).Nodup → Saves F w task steps tokens := by
  intro h
  obtain ⟨w1, r, hrun, hok, -⟩ := h (fun _ _ => none) Sample.planned42 "tsk_1" Sample.shortPlan 7 (by decide)
  rw [Prog.refusing_none] at hrun
  have hres : (((savePlan "tsk_1" Sample.shortPlan 7).run Sample.planned42).2.map (·.isOk)) = some true := by decide +kernel
  have hleft : (stepsAt ((savePlan "tsk_1" Sample.shortPlan 7).run Sample.planned42).1.db "tsk_1" 1).length = 1 := by
    decide +kernel
  rw [hrun] at hres hleft
  cases r with
  | error e => cases hres
  | ok u =>
      rw [(hok rfl).2.only 1 (by decide)] at hleft
      cases hleft

end DB
end Apifor
