import Apifor.Lemmas.Outcomes

/-!
# What an org does not notice

`Bypasses A P` relates two worlds between which org `A` lost and got nothing, where `P` held at first. A
condition on `A`'s own rows goes on holding as long as they stay, so the relation composes.
-/

namespace Apifor

variable {A : Id} {P : Store → Prop} {s s' : Store} {w w' : World} {α β : Type}

/-! ## Conditions on an org's rows -/

/-- The condition looks at the rows of `A` only. -/
def Stable (A : Id) (P : Store → Prop) : Prop := ∀ s s', SameRows A s s' → P s → P s'

/-- No row of `A` in the table has the id. -/
def Lacks (A : Id) (t : Tbl) (i : Id) (s : Store) : Prop := ∀ r ∈ rowsOf A s t, (key t r).1 ≠ i

instance (t : Tbl) (i : Id) : Decidable (Lacks A t i s) :=
  inferInstanceAs (Decidable (∀ r ∈ rowsOf A s t, (key t r).1 ≠ i))

theorem stable_lacks (t : Tbl) (i : Id) : Stable A (Lacks A t i) := fun _ _ h hl r hr => hl r (h t ▸ hr)

theorem Stable.and {Q : Store → Prop} (hp : Stable A P) (hq : Stable A Q) : Stable A fun s => P s ∧ Q s :=
  fun s s' h hs => ⟨hp s s' h hs.1, hq s s' h hs.2⟩

theorem Lacks.owns {t : Tbl} {i : Id} (h : Lacks A t i s) {r : Row t} (hr : r ∈ (s t).rows) (hi : (key t r).1 = i) :
    Apifor.owns A s t r = false := by
  cases ho : Apifor.owns A s t r with
  | false => rfl
  | true => exact absurd hi (h r (List.mem_filter.2 ⟨hr, ho⟩))

/-- A row of another org under an id is what keeps `A` from having one. -/
theorem lacks_of_mem {t : Tbl} {r : Row t} (hr : r ∈ (s t).rows) (ho : owns A s t r = false)
    (hk : ∀ q, key t q = ((key t q).1, (key t r).2)) : Lacks A t (key t r).1 s := by
  intro q hq heq
  obtain ⟨hq, hown⟩ := List.mem_filter.1 hq
  have hqr : q = r := (s t).eq_of_key_eq hq hr (by rw [hk q, heq])
  rw [hqr, ho] at hown
  cases hown

/-! ## The relation -/

def Bypasses (A : Id) (P : Store → Prop) (w w' : World) : Prop := P w.db → Untouched A w w'

theorem Bypasses.refl (w : World) : Bypasses A P w w := fun _ => Untouched.refl A w

theorem Bypasses.trans (hP : Stable A P) {w'' : World} (h : Bypasses A P w w') (h' : Bypasses A P w' w'') :
    Bypasses A P w w'' := fun hs => (h hs).trans (h' (hP _ _ (h hs).rows hs))

abbrev Sparing (A : Id) (P : Store → Prop) (c : Cmd α) : Prop := Prog.Keeps (Bypasses A P) c

theorem Untouched.of_rows {s : Store} (h : SameRows A w.db s) : Untouched A w { w with db := s } := ⟨h, rfl, rfl, rfl⟩

namespace Sparing

theorem done (a : α) : Sparing A P (.done a : Cmd α) := Bypasses.refl

theorem bind (hP : Stable A P) {c : Cmd α} {g : α → Cmd β} (hc : Sparing A P c) (hg : ∀ a, Sparing A P (g a)) :
    Sparing A P (c.bind g) := Prog.Keeps.bind (R := Bypasses A P) (fun _ _ _ => Bypasses.trans hP) hc hg

theorem mono {Q : Store → Prop} (h : ∀ s, P s → Q s) {c : Cmd α} (hc : Sparing A Q c) : Sparing A P c :=
  fun w hp => hc w (h _ hp)

theorem readOnly {c : Cmd α} (h : DB.ReadOnly c) : Sparing A P c := fun w _ => by
  obtain ⟨a, ha⟩ := h.run w
  rw [ha]
  exact Untouched.refl A w

/-- What a query finds is known of the store from then on, as far as it is about `A`'s rows. -/
theorem query {n : String} {f : Time → Store → Except DbErr α} {g : Except DbErr α → Cmd β}
    (h : ∀ now s, P s → ∃ Q : Store → Prop, Q s ∧ Sparing A Q (g (f now s))) :
    Sparing A P ((Apifor.query n f).bind g) := fun w hp => by
  obtain ⟨Q, hq, hc⟩ := h w.now w.db hp
  rw [Prog.run_bind_of_eq (run_query n f w)]
  exact hc w hq

theorem newID (pre : String) : Sparing A P (newID pre) := fun _ _ => ⟨SameRows.refl _ _, rfl, rfl, rfl⟩

theorem timeNow : Sparing A P timeNow := fun w => Bypasses.refl w

theorem exec {n : String} {f : Time → Store → Except DbErr (Store × α)}
    (h : ∀ now s s' a, P s → f now s = .ok (s', a) → SameRows A s s') : Sparing A P (exec n f) := fun w hp => by
  rw [run_exec]
  cases hf : f w.now w.db with
  | error e => exact Untouched.refl A w
  | ok r => exact Untouched.of_rows (h _ _ _ _ hp hf)

/-- An update of rows that are not `A`'s, before and after. -/
theorem update {n : String} {t : Tbl} {p : Time → Row t → Bool} {f : Time → Row t → Row t}
    (hf : ∀ now r, key t (f now r) = key t r)
    (h : ∀ now s, P s → ∀ r ∈ (s t).rows, p now r = true → owns A s t r = false ∧ owns A s t (f now r) = false) :
    Sparing A P (Apifor.exec n fun now s => (Apifor.update .all t (p now) (f now) s (hf now)).map fun r => (r.1, ())) :=
  exec fun now s s' a hp hs => by
    obtain ⟨⟨s1, m⟩, hu, heq⟩ := map_eq_ok hs
    cases heq
    exact sameRows_update hu fun r hr hit => h now s hp r hr (by simpa [Scope.writes] using hit)

theorem insertRow {n : String} {t : Tbl} {r : Time → Row t} (h : ∀ now s, P s → owns A s t (r now) = false) :
    Sparing A P (DB.insertRow n t r) := exec fun now s s' a hp hs => by
  obtain ⟨s1, hi, heq⟩ := map_eq_ok hs
  cases heq
  exact sameRows_insert hi (h now s hp)

/-- What an org's program does in its own scope. -/
theorem org {T : Tbl → Bool} {B : Id} (hab : A ≠ B) (hP : ∀ s, P s → SelfContained A s) (x : OrgM T B α) :
    Sparing A P (x.cmd true) := fun w hp => x.isolates hab w (hP _ hp)

end Sparing

/-! ## Sending -/

theorem samePushes_record {o : Id} {n : Nat} {c : Chan} {env : Envelope} (ho : o ≠ A) :
    SamePushes A w ({ w with hub := w.hub.setChan o n c }.record o env) where
  byOrg := rfl
  chans := Function.update_of_ne (Ne.symm ho) _ _
  pushed := List.filter_cons_of_neg (by simpa using ho)

theorem hubSend_sparing {o : Id} {env : Envelope} (ho : o ≠ A) : Sparing A P (hubSend o env) := fun w _ => by
  simp only [Apifor.hubSend, Prog.run_act]
  cases w.hub.byOrg o with
  | none => exact Untouched.refl A w
  | some n =>
      simp only [Prog.run_act, World.trySend]
      split_ifs
      · exact Untouched.refl A w
      · exact ⟨SameRows.refl _ _, samePushes_record ho⟩
      · exact Untouched.refl A w

theorem streamSend_sparing {st : Stream} {env : Envelope} (ho : st.org ≠ A) : Sparing A P (streamSend st env) :=
  fun w _ => by
  simp only [Apifor.streamSend, Prog.run_act, World.send]
  split_ifs
  · exact Untouched.refl A w
  · exact ⟨SameRows.refl _ _, samePushes_record ho⟩

/-! ## A task of which `A` has nothing -/

/-- Neither the task nor a pull request of it is `A`'s, and no worker of `A` works on it. -/
structure Foreign (A k : Id) (s : Store) : Prop where
  task : Lacks A .task k s
  prs : ∀ p ∈ rowsOf A s .pullRequest, p.taskId ≠ some k
  workers : ∀ v ∈ rowsOf A s .workerInstance, v.currentTaskId ≠ some k

theorem stable_foreign (k : Id) : Stable A (Foreign A k) := fun s s' h hf =>
  { task := stable_lacks _ _ s s' h hf.task
    prs := fun p hp => hf.prs p (h .pullRequest ▸ hp)
    workers := fun v hv => hf.workers v (h .workerInstance ▸ hv) }

variable {k : Id}

theorem Foreign.taskRepo (h : Foreign A k s) {tr : DB.TaskRepo} (htr : DB.taskRepo s k = some tr) : tr.orgID ≠ A := by
  obtain ⟨t, ht, rfl⟩ := Option.map_eq_some_iff.1 htr
  obtain ⟨hmem, hkey⟩ := Table.get?_eq_some.1 ht
  intro ho
  exact h.task t (List.mem_filter.2 ⟨hmem, decide_eq_true ho⟩) (congrArg Prod.fst hkey)

theorem Foreign.latestPR (h : Foreign A k s) {p : PullRequest} (hp : s.latestPR k = some p) :
    p.orgId ≠ A ∧ Lacks A .pullRequest p.id s := by
  have hmem := List.mem_of_find?_eq_some hp
  have htask : p.taskId = some k := by simpa [Store.latestPR] using List.find?_some hp
  have ho : p.orgId ≠ A := fun ho => h.prs p (List.mem_filter.2 ⟨hmem, decide_eq_true ho⟩) htask
  exact ⟨ho, lacks_of_mem (t := .pullRequest) hmem (decide_eq_false ho) fun _ => rfl⟩

namespace DB

theorem updateTask_sparing {n : String} {i : Id} {f : Task → Task} {hf : ∀ t, (f t).id = t.id}
    (ho : ∀ t, (f t).orgId = t.orgId) (h : ∀ s, P s → Lacks A .task i s) : Sparing A P (updateTask n i f hf) :=
  Sparing.update (t := .task) (p := fun _ t => decide (t.id = i)) (f := fun _ => f) (fun _ => Store.key_task hf)
    fun _ s hp t ht hit => by
      have hown : owns A s .task t = false := (h s hp).owns ht (of_decide_eq_true hit)
      refine ⟨hown, ?_⟩
      simp only [owns] at hown ⊢
      rwa [ho]

theorem updatePR_sparing {n : String} {i : Id} {f : PullRequest → PullRequest} {hf : ∀ p, (f p).id = p.id}
    (ho : ∀ p, (f p).orgId = p.orgId) (h : ∀ s, P s → Lacks A .pullRequest i s) : Sparing A P (updatePR n i f hf) :=
  Sparing.update (t := .pullRequest) (p := fun _ p => decide (p.id = i)) (f := fun _ => f) (fun _ => Store.key_pr hf)
    fun _ s hp p hr hit => by
      have hown : owns A s .pullRequest p = false := (h s hp).owns hr (of_decide_eq_true hit)
      refine ⟨hown, ?_⟩
      simp only [owns] at hown ⊢
      rwa [ho]

theorem createNotification_sparing (hP : Stable A P) {o ty title body link : String} (ho : o ≠ A) :
    Sparing A P (createNotification o ty title body link) := by
  refine Sparing.bind hP (.readOnly (.query _ _)) fun owner => Sparing.bind hP (.newID _) fun i => ?_
  exact Sparing.bind hP (.insertRow fun _ _ _ => decide_eq_false ho) fun _ => .done _

theorem failTask_sparing {reason : String} : Sparing A (Foreign A k) (failTask k reason) :=
  updateTask_sparing (fun _ => rfl) fun _ h => h.task

theorem setTaskBlocked_sparing {reason : String} : Sparing A (Foreign A k) (setTaskBlocked k reason) :=
  updateTask_sparing (fun _ => rfl) fun _ h => h.task

theorem setTaskStatus_sparing {i status : String} (h : ∀ s, P s → Lacks A .task status s) :
    Sparing A P (setTaskStatus i status) := by
  unfold setTaskStatus
  split
  · exact .readOnly (.query _ _)
  · exact updateTask_sparing (fun _ => rfl) h

theorem completeTask_sparing : Sparing A (Foreign A k) (completeTask k) := by
  refine Sparing.bind (stable_foreign k) (updateTask_sparing (fun _ => rfl) fun _ h => h.task) fun res => ?_
  cases res with
  | error e => exact .done _
  | ok _ =>
      refine Sparing.bind (stable_foreign k) ?_ fun _ => .done _
      refine Sparing.update (t := .workerInstance) (p := fun _ v => decide (v.currentTaskId = some k))
        (f := fun _ v => { v with status := .idle, currentTaskId := none, currentStep := none }) (fun _ _ => rfl)
        fun _ s hp v hv hit => ?_
      have ho : v.orgId ≠ A := fun ho =>
        hp.workers v (List.mem_filter.2 ⟨hv, decide_eq_true ho⟩) (of_decide_eq_true hit)
      exact ⟨decide_eq_false ho, decide_eq_false ho⟩

/-- The steps of a task are owned through it. -/
theorem owns_step (h : Lacks A .task k s) {p : Step} (hp : p.taskId = k) : owns A s .step p = false := by
  refine List.any_eq_false.2 fun t ht => ?_
  simp only [decide_eq_true_eq, not_and]
  intro hid ho
  exact h t (List.mem_filter.2 ⟨ht, decide_eq_true ho⟩) (hid.trans hp)

theorem recordStepOutput_sparing {ty st out : String} : Sparing A (Foreign A k) (recordStepOutput k ty st out) := by
  refine Sparing.bind (stable_foreign k) (Sparing.exec fun now s s' a hp hs => ?_) fun _ => .done _
  split at hs
  · obtain ⟨⟨s1, m⟩, hu, heq⟩ := map_eq_ok hs
    cases heq
    refine sameRows_update hu fun p _ hit => ?_
    simp only [Scope.writes, Bool.true_and, decide_eq_true_eq] at hit
    exact ⟨owns_step hp.task hit.1, owns_step hp.task hit.1⟩
  · cases hs

theorem savePlanSteps_sparing (sts : List PlanStepIn) : Sparing A (Foreign A k) (savePlanSteps k sts) := by
  induction sts with
  | nil => exact .done _
  | cons st sts ih =>
      refine Sparing.bind (stable_foreign k) (.newID _) fun i => ?_
      refine Sparing.bind (stable_foreign k) (Sparing.exec fun _ s s' a hp hs => ?_) fun res => ?_
      · unfold upsertStep at hs
        split at hs
        · cases hs
        · split at hs
          · obtain ⟨⟨s1, m⟩, hu, heq⟩ := map_eq_ok hs
            cases heq
            refine sameRows_update hu fun p _ hit => ?_
            simp only [Scope.writes, Bool.true_and, decide_eq_true_eq] at hit
            exact ⟨owns_step hp.task hit.1, owns_step hp.task hit.1⟩
          · obtain ⟨s1, hi, heq⟩ := map_eq_ok hs
            cases heq
            exact sameRows_insert hi (owns_step hp.task rfl)
      · cases res with
        | error e => exact .done _
        | ok _ => exact ih

theorem savePlan_sparing {sts : List PlanStepIn} {n : Int} : Sparing A (Foreign A k) (savePlan k sts n) := by
  refine Sparing.bind (stable_foreign k) (savePlanSteps_sparing sts) fun res => ?_
  cases res with
  | error e => exact .done _
  | ok _ => exact updateTask_sparing (fun _ => rfl) fun _ h => h.task

theorem saveExecResult_sparing {branch url : String} : Sparing A (Foreign A k) (saveExecResult k branch url) := by
  unfold saveExecResult
  refine Sparing.query fun _ s hs => ?_
  cases ht : s.getTask k with
  | none => exact ⟨Foreign A k, hs, .done _⟩
  | some t =>
      have ho : t.orgId ≠ A := by
        obtain ⟨hmem, hkey⟩ := Table.get?_eq_some.1 ht
        exact fun ho => hs.task t (List.mem_filter.2 ⟨hmem, decide_eq_true ho⟩) (congrArg Prod.fst hkey)
      refine ⟨Foreign A k, hs, Sparing.bind (stable_foreign k) (.newID _) fun i => ?_⟩
      refine Sparing.bind (stable_foreign k) (.insertRow fun _ _ _ => decide_eq_false ho) fun res => ?_
      cases res with
      | error e => exact .done _
      | ok _ => exact updateTask_sparing (fun _ => rfl) fun _ h => h.task

/-- What is known once the latest pull request of the task was looked up. -/
theorem prIDByTask_sparing {g : Except DbErr (Id × Id) → Cmd β} (he : ∀ e, Sparing A (Foreign A k) (g (.error e)))
    (hg : ∀ i o, o ≠ A → Sparing A (fun s => Foreign A k s ∧ Lacks A .pullRequest i s) (g (.ok (i, o)))) :
    Sparing A (Foreign A k) ((prIDByTask k).bind g) := by
  refine Sparing.query fun _ s hs => ?_
  cases hp : s.latestPR k with
  | none => exact ⟨Foreign A k, hs, he _⟩
  | some p =>
      obtain ⟨ho, hl⟩ := hs.latestPR hp
      exact ⟨fun s => Foreign A k s ∧ Lacks A .pullRequest p.id s, ⟨hs, hl⟩, hg p.id p.orgId ho⟩

theorem stable_withPR (i : Id) : Stable A fun s => Foreign A k s ∧ Lacks A .pullRequest i s :=
  (stable_foreign k).and (stable_lacks _ _)

theorem setCIResult_sparing {passed : Bool} {summary : String} :
    Sparing A (Foreign A k) (setCIResult k passed summary) := by
  refine prIDByTask_sparing (fun _ => .done _) fun i o _ => ?_
  refine Sparing.bind (stable_withPR i) (updatePR_sparing (fun _ => rfl) fun _ h => h.2) fun res => ?_
  cases res with
  | error e => exact .done _
  | ok _ =>
      refine Sparing.bind (stable_withPR i) (.newID _) fun j => .insertRow fun _ s hs => ?_
      refine List.any_eq_false.2 fun p hp => ?_
      simp only [decide_eq_true_eq, not_and]
      exact fun hid ho => hs.2 p (List.mem_filter.2 ⟨hp, decide_eq_true ho⟩) hid

theorem createQAReport_sparing {passed : Bool} {summary : String} :
    Sparing A (Foreign A k) (createQAReport k passed summary) := by
  refine prIDByTask_sparing (fun _ => .done _) fun i o ho => Sparing.bind (stable_withPR i) (.newID _) fun j => ?_
  exact Sparing.bind (stable_withPR i) (.insertRow fun _ _ _ => decide_eq_false ho) fun _ => .done _

theorem setAIReview_sparing {approved : Bool} : Sparing A (Foreign A k) (setAIReview k approved) :=
  prIDByTask_sparing (fun _ => .done _) fun _ _ _ => updatePR_sparing (fun _ => rfl) fun _ h => h.2

theorem markMerged_sparing {url : String} : Sparing A (Foreign A k) (markMerged k url) := by
  have hset : ∀ n, Sparing A (Foreign A k) (updateTask n k (fun t => { t with status := .merged }) fun _ => rfl) := fun n =>
    updateTask_sparing (fun _ => rfl) fun _ h => h.task
  refine prIDByTask_sparing (fun _ => hset _) fun i o _ => ?_
  refine Sparing.bind (stable_withPR i) .timeNow fun now => ?_
  refine Sparing.bind (stable_withPR i) (updatePR_sparing (fun _ => rfl) fun _ h => h.2) fun _ => ?_
  exact (hset _).mono fun _ h => h.1

theorem touchDevice_sparing {d : Id} (h : ∀ s, P s → Lacks A .device d s) (hP : Stable A P) :
    Sparing A P (touchDevice d) := by
  refine Sparing.bind hP ?_ fun _ => .done _
  refine Sparing.update (t := .device) (p := fun _ v => decide (v.id = d))
    (f := fun now v => { v with lastSeenAt := some now }) (fun _ _ => rfl) fun _ s hp v hv hit => ?_
  have hown : owns A s .device v = false := (h s hp).owns hv (of_decide_eq_true hit)
  exact ⟨hown, hown⟩

theorem createDeviceCert_sparing {o user d serial : String} (ho : o ≠ A) :
    Sparing A P (createDeviceCert o user d serial) := .insertRow fun _ _ _ => decide_eq_false ho

theorem recordUsage_sparing (hP : Stable A P) {o worker l : Id} {ty : UsageEventType} (ho : o ≠ A) :
    Sparing A P (recordUsage o worker l ty) :=
  Sparing.bind hP (.newID _) fun _ => .insertRow fun _ _ _ => decide_eq_false ho

end DB

end Apifor
