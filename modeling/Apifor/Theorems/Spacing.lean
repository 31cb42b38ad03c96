import Apifor.Theorems.Routines

/-!
# The spacing of a routine's firings

The scheduler reads the due routines, and fires and marks them one by one. Between its steps come the
requests that make, enable, disable, delete and run routines.
-/

namespace Apifor

variable {a : API} {w w' : World} {s s' : Store} {now : Time} {A : Id}

/-! ## The scheduler among requests -/

/-- Where the scheduler is: it has these routines still to fire, or it has fired one and not marked it, or a
send on a closed channel ended its process. -/
inductive TickPhase
  | firing (due : List DB.RoutineDue)
  | marking (d : DB.RoutineDue) (due : List DB.RoutineDue)
  | down

structure Firing where
  id : Id
  interval : Int
  time : Time

/-- `fired` has the latest firing first. -/
structure Timetable where
  world : World
  phase : TickPhase := .firing []
  fired : List Firing := []

inductive TimerEvent
  | read
  | fire
  | mark
  | elapse (d : Nat)
  | routines (u : Caller) (r : Request)
  | routineAction (u : Caller) (r : Request)

namespace Timetable

/-- `DueRoutines`; the ticker does nothing while a tick is in progress. -/
def read (x : Timetable) : Timetable :=
  match x.phase, (DB.dueRoutines.run x.world).2 with
  | .firing [], some (.ok due) => { x with phase := .firing due }
  | _, _ => x

def fire (a : API) (x : Timetable) : Timetable :=
  match x.phase with
  | .firing (d :: due) =>
      let run := (a.server.fireRoutine d.orgID d.wspID d.action).run x.world
      { world := run.1
        phase := if run.2.isSome then .marking d due else .down
        fired := ⟨d.id, d.intervalSec, x.world.now⟩ :: x.fired }
  | _ => x

def mark (x : Timetable) : Timetable :=
  match x.phase with
  | .marking d due =>
      { x with world := ((DB.markRoutineRan d.id d.intervalSec).run x.world).1, phase := .firing due }
  | _ => x

def next (a : API) (x : Timetable) : TimerEvent → Timetable
  | .read => x.read
  | .fire => x.fire a
  | .mark => x.mark
  | .elapse d => { x with world := { x.world with now := x.world.now + d } }
  | .routines u r => { x with world := (((API.routines u r).cmd a.server.rls).run x.world).1 }
  | .routineAction u r => { x with world := ((a.routineAction u r).run x.world).1 }

end Timetable

/-- The events of a tick to which nothing comes between. -/
def tickEvents (due : List DB.RoutineDue) : List TimerEvent := due.flatMap fun _ => [.fire, .mark]

theorem exec_fireAll (l : List Firing) (due : List DB.RoutineDue) (h : ((a.server.fireAll due).run w).2 = some ()) :
    (Runs.exec (Timetable.next a) { world := w, phase := .firing due, fired := l } (tickEvents due)).world =
      ((a.server.fireAll due).run w).1 := by
  induction due generalizing w l with
  | nil => rfl
  | cons d due ih =>
      rw [Server.fireAll, Prog.bind_def, Prog.run_bind] at h ⊢
      have hfire : Timetable.fire a { world := w, phase := .firing (d :: due), fired := l } =
          { world := ((a.server.fireRoutine d.orgID d.wspID d.action).run w).1
            phase := if ((a.server.fireRoutine d.orgID d.wspID d.action).run w).2.isSome then .marking d due else .down
            fired := ⟨d.id, d.intervalSec, w.now⟩ :: l } := rfl
      rw [tickEvents, List.flatMap_cons, List.cons_append, Runs.exec_cons, Timetable.next, hfire]
      generalize (a.server.fireRoutine d.orgID d.wspID d.action).run w = run at h ⊢
      obtain ⟨v, res⟩ := run
      cases res with
      | none => cases h
      | some _ =>
          obtain ⟨s', hmark, -⟩ := run_markRoutineRan d.id d.intervalSec v
          dsimp only at h ⊢
          rw [Prog.bind_def, Prog.run_bind_of_eq hmark] at h ⊢
          rw [List.cons_append, Runs.exec_cons, List.nil_append, Timetable.next, Option.isSome_some, if_pos rfl]
          have hnext : Timetable.mark { world := v, phase := .marking d due, fired := ⟨d.id, d.intervalSec, w.now⟩ :: l } =
              { world := { v with db := s' }, phase := .firing due, fired := ⟨d.id, d.intervalSec, w.now⟩ :: l } := by
            simp only [Timetable.mark, hmark]
          rw [hnext]
          exact ih _ h

/-- Without requests between its steps a tick is the scheduler's. -/
theorem exec_schedule (hj : ¬ Jammed w.now w.db) (h : (a.server.schedule.run w).2 = some ()) :
    (Runs.exec (Timetable.next a) { world := w } (.read :: tickEvents (dueList w))).world = (a.server.schedule.run w).1 := by
  rw [run_schedule hj] at h ⊢
  rw [Runs.exec_cons, Timetable.next, Timetable.read, run_dueRoutines hj]
  exact exec_fireAll _ _ h

/-- The latest firing of a routine. -/
def lastFiring (l : List Firing) (id : Id) : Option Firing := l.find? fun f => decide (f.id = id)

/-- Two consecutive firings of a routine are apart by its interval. -/
def Spaced : List Firing → Prop
  | [] => True
  | g :: l =>
      (∀ f, lastFiring l g.id = some f → f.interval = g.interval → f.time + g.interval * second ≤ g.time) ∧ Spaced l

/-- A scheduled routine has an interval and, when enabled, the time of its next run. -/
def Scheduled (s : Store) : Prop :=
  ∀ q ∈ (s .routine).rows, q.triggerType = .schedule → 0 < q.intervalSec ∧ (q.enabled = true → q.nextRunAt ≠ none)

/-! ## What requests make of the routines -/

/-- What a request at `now` may leave as a routine. -/
inductive RoutineEdit (now : Time) (rows : List Routine) (q' : Routine) : Prop
  | kept (h : q' ∈ rows)
  | made (hs : q'.triggerType = .schedule →
        0 < q'.intervalSec ∧ q'.nextRunAt = some (now + DB.durationOf q'.intervalSec))
      (hno : q'.triggerType ≠ .schedule → q'.nextRunAt = none)
  | enabled (q : Routine) (hq : q ∈ rows)
      (hq' : q' = { q with
        enabled := true, nextRunAt := if q.intervalSec > 0 then some (now + q.intervalSec * second) else none })
  | disabled (q : Routine) (hq : q ∈ rows) (hq' : q' = { q with enabled := false, nextRunAt := none })

def Edits (now : Time) (s s' : Store) : Prop := ∀ q' ∈ (s' .routine).rows, RoutineEdit now (s .routine).rows q'

theorem Edits.of_rows (h : (s' .routine).rows = (s .routine).rows) : Edits now s s' := fun _ hq => .kept (h ▸ hq)

/-- The routine that an id names is the one with that id. -/
theorem find_routine {sc : Scope} {q : Routine} (hq : q ∈ (s .routine).rows) (hr : sc.writes s .routine q = true) :
    (select sc s .routine).find? (fun r => decide (r.id = q.id)) = some q := by
  have hmem : q ∈ select sc s .routine := List.mem_filter.2 ⟨hq, hr⟩
  cases hf : (select sc s .routine).find? (fun r => decide (r.id = q.id)) with
  | none => exact absurd (decide_eq_true rfl) (List.find?_eq_none.1 hf q hmem)
  | some r =>
      have hid : r.id = q.id := by simpa using List.find?_some hf
      have hr : r ∈ (s .routine).rows := (List.mem_filter.1 (List.mem_of_find?_eq_some hf)).1
      rw [(s .routine).eq_of_key_eq hr hq (by simp only [key, hid])]

theorem setRoutineEnabled_edits (id : Id) (b rls : Bool) (w : World) :
    Edits w.now w.db (((DB.setRoutineEnabled (B := A) id b).cmd rls).run w).1.db := by
  obtain ⟨interval, hint⟩ : ∃ i : Option Int, i = if b then
      ((select (withOrg rls A) w.db .routine).find? fun r => decide (r.id = id)).map (·.intervalSec) else none := ⟨_, rfl⟩
  have hrun : ((DB.setRoutineEnabled (B := A) id b).cmd rls).run w =
      ((OrgM.tx (T := settings) (B := A) "SetRoutineEnabled" (if (interval.map int4).getD true then
          Tx.update .routine (fun r => decide (r.id = id ∧ r.orgId = A)) (fun r =>
            { r with enabled := b
                     nextRunAt := interval.bind fun n => if n > 0 then some (w.now + n * second) else none })
            (fun _ => rfl) rfl
        else Tx.fail .outOfRange)).cmd rls).run w := by
    subst hint
    rfl
  rw [hrun]
  simp only [OrgM.tx, run_exec]
  by_cases hi : (interval.map int4).getD true = true
  · rw [if_pos hi]
    simp only [Tx.update]
    cases hup : Apifor.update (withOrg rls A) .routine (fun r => decide (r.id = id ∧ r.orgId = A)) (fun r : Routine =>
        { r with enabled := b
                 nextRunAt := interval.bind fun n => if n > 0 then some (w.now + n * second) else none }) w.db
        (fun _ => rfl) with
    | error e => exact .of_rows rfl
    | ok r =>
        obtain ⟨s', n⟩ := r
        intro q' hq'
        dsimp only at hq'
        rw [update_rows hup] at hq'
        obtain ⟨q, hq, rfl⟩ := List.mem_map.1 hq'
        split_ifs with hhit
        · simp only [Bool.and_eq_true, decide_eq_true_eq] at hhit
          obtain ⟨hwr, rfl, -⟩ := hhit
          cases b with
          | false => exact .disabled q hq (by rw [hint]; rfl)
          | true =>
              rw [if_pos rfl, find_routine hq hwr] at hint
              exact .enabled q hq (by rw [hint]; rfl)
        · exact .kept hq
  · rw [if_neg hi]
    exact .of_rows rfl

theorem deleteRoutine_edits (id : Id) (rls : Bool) (w : World) :
    Edits w.now w.db (((DB.deleteRoutine (B := A) id).cmd rls).run w).1.db := by
  refine fun q' hq' => .kept ?_
  change q' ∈ ((w.db.set .routine ((w.db .routine).delete fun q =>
    (withOrg rls A).writes w.db .routine q && decide (q.id = id ∧ q.orgId = A))) .routine).rows at hq'
  rw [Store.set_same, Table.rows_delete] at hq'
  exact (List.mem_filter.1 hq').1

/-- A new routine is scheduled if its trigger says so. -/
theorem trigger_eq_schedule {trigger : String} {tr : RoutineTrigger}
    (h : (PgEnum.ofText? trigger : Option RoutineTrigger) = some tr) : trigger = "schedule" ↔ tr = .schedule := by
  constructor
  · rintro rfl
    have hsome : (PgEnum.ofText? "schedule" : Option RoutineTrigger) = some .schedule := by decide
    exact (Option.some.inj (hsome.symm.trans h)).symm
  · rintro rfl
    have htext : PgEnum.text RoutineTrigger.schedule = trigger := by simpa using List.find?_some h
    exact htext.symm

theorem createRoutine_edits (wsp name : String) {trigger : String} {n : Int} (act : RoutineAction) (rls : Bool) (w : World)
    (hn : trigger = "schedule" → 0 < n) :
    Edits w.now w.db (((DB.createRoutine (B := A) wsp name trigger n act).cmd rls).run w).1.db := by
  obtain ⟨w', res, hrun, hres⟩ := run_createRoutine (A := A) wsp name trigger n act rls w
  rw [hrun]
  rcases hres with ⟨-, hdb⟩ | ⟨tr, htr, -, hrows⟩
  · exact .of_rows (by rw [hdb])
  · intro q' hq'
    rw [hrows] at hq'
    rcases List.mem_cons.1 hq' with rfl | hq'
    · have htrig := trigger_eq_schedule htr
      refine .made (fun hs => ⟨hn (htrig.2 hs), if_pos ⟨htrig.2 hs, hn (htrig.2 hs)⟩⟩) fun hs => if_neg fun h => hs (htrig.1 h.1)
    · exact .kept hq'

theorem Edits.congr {s'' : Store} (h : Edits now s s') (hs : s'' = s') : Edits now s s'' := hs ▸ h

/-- What comes after a program leaves the store alone. -/
theorem db_bind {α β : Type} {p : Cmd α} {g : α → Cmd β} (hg : ∀ x v, ((g x).run v).1.db = v.db) :
    ((p.bind g).run w).1.db = (p.run w).1.db := by
  rw [Prog.run_bind]
  cases (p.run w).2 with
  | none => rfl
  | some x => exact hg x _

theorem Edits.refl (s : Store) : Edits now s s := .of_rows rfl

/-- A request at one reading of the clock. -/
structure Edited (w w' : World) : Prop where
  now : w'.now = w.now
  edits : Edits w.now w.db w'.db

theorem Edited.refl (w : World) : Edited w w := ⟨rfl, .refl _⟩

theorem OrgM.edited {α : Type} {x : OrgM settings A α} {rls : Bool} (h : Edits w.now w.db ((x.cmd rls).run w).1.db) :
    Edited w ((x.cmd rls).run w).1 := ⟨((x.within (K := fun _ _ => True) rls).keeps w).now, h⟩

theorem routines_edits (a : API) (u : Caller) (r : Request) (w : World) :
    Edited w (((API.routines u r).cmd a.server.rls).run w).1 := by
  refine OrgM.edited ?_
  rw [API.routines]
  by_cases hm : r.method = "POST"
  · rw [if_pos hm, guarded]
    by_cases hc : can u.role "write" = true
    · rw [if_pos hc]
      dsimp only
      generalize Json.decodeFirst API.routineFields r.body {} = body
      obtain ⟨b, ok⟩ := body
      dsimp only
      by_cases hbad : (!ok) = true ∨ b.name = "" ∨ b.prompt = ""
      · rw [if_pos hbad]
        exact .refl _
      · rw [if_neg hbad]
        by_cases hint : (if b.trigger = "" then "manual" else b.trigger) = "schedule" ∧ b.intervalSec ≤ 0
        · rw [if_pos hint]
          exact .refl _
        · rw [if_neg hint]
          obtain ⟨wsp, hwsp⟩ := (DB.readOnly_firstWorkspace u.orgID).run w
          have hedits := createRoutine_edits (A := u.orgID) wsp b.name
            { title := if b.title = "" then b.name else b.title, prompt := b.prompt, refs := b.refs.toList, repoId := b.repoID }
            a.server.rls w fun hs => Int.not_le.1 fun hle => hint ⟨hs, hle⟩
          refine hedits.congr ((congrArg (fun p : World × Option Response => p.1.db) (Prog.run_bind_of_eq hwsp)).trans ?_)
          refine db_bind fun res v => ?_
          cases res <;> rfl
    · rw [if_neg hc]
      exact .refl _
  · rw [if_neg hm, run_listing]
    exact .refl _

/-- A manual run leaves the routines as they were. -/
theorem runRoutine_edits (a : API) (id : Id) (w : World) : Edited w ((a.runRoutine id).run w).1 := by
  have hfoot : Foot (fun t => t == .task || t == .notification) (fun _ _ => True) w ((a.runRoutine id).run w).1 :=
    (API.runRoutine_pace rfl rfl fun _ _ _ _ _ => trivial).foot
  exact ⟨hfoot.now, .of_rows (hfoot.db.rows_eq rfl fun _ => rfl)⟩

theorem setRoutine_edits (u : Caller) (id : Id) (b rls : Bool) (w : World) :
    Edited w (((API.setRoutine u id b).cmd rls).run w).1 :=
  OrgM.edited ((setRoutineEnabled_edits id b rls w).congr (db_bind fun _ _ => rfl))

theorem dropRoutine_edits (u : Caller) (id : Id) (rls : Bool) (w : World) :
    Edited w (((API.dropRoutine u id).cmd rls).run w).1 := by
  refine OrgM.edited ?_
  rw [API.dropRoutine, guarded]
  split
  · exact (deleteRoutine_edits id rls w).congr (db_bind fun _ _ => rfl)
  · exact .refl _

theorem routineAction_edits (a : API) (u : Caller) (r : Request) (w : World) :
    Edited w ((a.routineAction u r).run w).1 := by
  unfold API.routineAction guarded
  dsimp only
  split
  · exact .refl _
  · split
    · exact dropRoutine_edits u _ _ w
    · split
      · exact .refl _
      · next action hact =>
          split
          · exact .refl _
          · split
            · split
              · exact runRoutine_edits a _ w
              · split
                · exact setRoutine_edits u _ true _ w
                · split
                  · exact setRoutine_edits u _ false _ w
                  · exact .refl _
            · exact .refl _

/-! ## Routines keep their next run -/

theorem durationOf_eq {n : Int} (h : int4 n = true) : DB.durationOf n = n * second := by
  have hn := of_decide_eq_true h
  rw [DB.durationOf, show second = 1000000000 from rfl]
  omega

theorem Edits.scheduled (h : Edits now s s') (hs : Scheduled s) : Scheduled s' := by
  intro q' hq' htr
  cases h q' hq' with
  | kept hq => exact hs q' hq htr
  | made hmade _ =>
      obtain ⟨hn, hnext⟩ := hmade htr
      exact ⟨hn, fun _ => by rw [hnext]; simp⟩
  | enabled q hq he =>
      subst he
      obtain ⟨hn, -⟩ := hs q hq htr
      exact ⟨hn, fun _ => by simp [hn]⟩
  | disabled q hq he =>
      subst he
      exact ⟨(hs q hq htr).1, nofun⟩

/-- A routine that fired at `t` is not due before its interval is over. -/
def Rests (s : Store) (f : Firing) : Prop :=
  ∀ q ∈ (s .routine).rows, q.id = f.id → q.intervalSec = f.interval → ∀ t, q.nextRunAt = some t →
    f.time + f.interval * second ≤ t

theorem Edits.rests {f : Firing} (h : Edits now s s') (hf : f.time ≤ now) (hint : int4 f.interval = true)
    (hr : Rests s f) : Rests s' f := by
  intro q' hq' hid hn t ht
  cases h q' hq' with
  | kept hq => exact hr q' hq hid hn t ht
  | made hmade hno =>
      by_cases hs : q'.triggerType = .schedule
      · rw [(hmade hs).2, hn, durationOf_eq hint, Option.some.injEq] at ht
        exact ht ▸ Int.add_le_add_right hf _
      · rw [hno hs] at ht
        cases ht
  | enabled q hq he =>
      subst he
      dsimp only at hid hn ht
      split at ht
      · rw [Option.some.injEq, hn] at ht
        exact ht ▸ Int.add_le_add_right hf _
      · cases ht
  | disabled q hq he =>
      subst he
      cases ht

/-! ## What every step keeps -/

namespace TickPhase

def queue : TickPhase → List DB.RoutineDue
  | .firing due => due
  | .marking _ due => due
  | .down => []

/-- The routine has been marked after its latest firing. -/
def settled (id : Id) : TickPhase → Prop
  | .firing _ => True
  | .marking d _ => id ≠ d.id
  | .down => False

end TickPhase

/-- Firings are apart, marked routines rest, and a routine that waits for its firing has rested. -/
structure OnTime (x : Timetable) : Prop where
  past : ∀ f ∈ x.fired, f.time ≤ x.world.now ∧ int4 f.interval = true
  rests : ∀ id f, lastFiring x.fired id = some f → x.phase.settled id → Rests x.world.db f
  queue : ∀ d ∈ x.phase.queue, int4 d.intervalSec = true ∧ ∀ f, lastFiring x.fired d.id = some f →
    f.interval = d.intervalSec → f.time + d.intervalSec * second ≤ x.world.now
  distinct : (x.phase.queue.map (·.id)).Nodup
  marking : ∀ d due, x.phase = .marking d due → ∃ t, lastFiring x.fired d.id = some ⟨d.id, d.intervalSec, t⟩
  spaced : Spaced x.fired

theorem lastFiring_some {l : List Firing} {id : Id} {f : Firing} (h : lastFiring l id = some f) : f ∈ l ∧ f.id = id :=
  ⟨List.mem_of_find?_eq_some h, by simpa using List.find?_some h⟩

theorem lastFiring_cons_self (f : Firing) (l : List Firing) : lastFiring (f :: l) f.id = some f :=
  List.find?_cons_of_pos (decide_eq_true rfl)

theorem lastFiring_cons_ne {f : Firing} {id : Id} (l : List Firing) (h : f.id ≠ id) :
    lastFiring (f :: l) id = lastFiring l id := List.find?_cons_of_neg (by simpa using h)

namespace OnTime

variable {x : Timetable}

/-- The world goes on, without going back in time and without bringing a routine's next run forward. -/
theorem goesOn (h : OnTime x) {v : World} (hnow : x.world.now ≤ v.now)
    (hr : ∀ f ∈ x.fired, Rests x.world.db f → Rests v.db f) : OnTime { x with world := v } where
  past := fun f hf => ⟨Int.le_trans (h.past f hf).1 hnow, (h.past f hf).2⟩
  rests := fun id f hl hs => hr f (lastFiring_some hl).1 (h.rests id f hl hs)
  queue := fun d hd => ⟨(h.queue d hd).1, fun f hl hi => Int.le_trans ((h.queue d hd).2 f hl hi) hnow⟩
  distinct := h.distinct
  marking := h.marking
  spaced := h.spaced

theorem request (h : OnTime x) {v : World} (he : Edited x.world v) : OnTime { x with world := v } :=
  h.goesOn (Int.le_of_eq he.now.symm) fun f hf => he.edits.rests (h.past f hf).1 (h.past f hf).2

theorem read (h : OnTime x) : OnTime x.read := by
  unfold Timetable.read
  split
  · next due hphase hdue =>
      have hj : ¬ Jammed x.world.now x.world.db := fun hj => by
        rw [run_dueRoutines_jammed hj] at hdue
        cases hdue
      rw [run_dueRoutines hj] at hdue
      cases hdue
      have hrests : ∀ id f, lastFiring x.fired id = some f → Rests x.world.db f := fun id f hl =>
        h.rests id f hl (by rw [hphase]; trivial)
      refine { past := h.past, rests := fun id f hl _ => hrests id f hl, queue := fun d hd => ?_, distinct := ?_,
               marking := nofun, spaced := h.spaced }
      · obtain ⟨q, hq, rfl⟩ := List.mem_map.1 hd
        obtain ⟨hq, hdue⟩ := List.mem_filter.1 hq
        rw [List.mem_reverse] at hq
        refine ⟨?_, fun f hl hi => ?_⟩
        · simp only [Jammed, not_exists, not_and, Bool.not_eq_false] at hj
          exact hj q hq hdue
        · simp only [Routine.due, Bool.and_eq_true, decide_eq_true_eq] at hdue
          cases hnext : q.nextRunAt with
          | none =>
              rw [hnext] at hdue
              cases hdue.2
          | some t =>
              rw [hnext] at hdue
              have hrest := hrests _ f hl q hq (lastFiring_some hl).2.symm hi.symm t hnext
              rw [hi] at hrest
              exact Int.le_trans hrest (of_decide_eq_true hdue.2)
      · have hnodup : ((x.world.db .routine).rows.map fun q => q.id).Nodup := by
          have hpk := (x.world.db .routine).pk
          refine List.Nodup.of_map (fun i : Id => ((i, 0) : Id × Int)) ?_
          rw [List.map_map]
          exact hpk
        have hids : (dueList x.world).map (·.id) =
            ((x.world.db .routine).rows.reverse.filter (·.due x.world.now)).map (·.id) := List.map_map
        change ((dueList x.world).map (·.id)).Nodup
        rw [hids]
        refine List.Nodup.sublist (List.filter_sublist.map _) ?_
        rw [List.map_reverse]
        exact List.nodup_reverse.2 hnodup
  · exact h

theorem fire (h : OnTime x) : OnTime (x.fire a) := by
  unfold Timetable.fire
  split
  · next d due hphase =>
      obtain ⟨hrows, hnow⟩ := fireRoutine_routines (a := a) d.orgID d.wspID d.action x.world
      have hqueue := h.queue
      have hdistinct := h.distinct
      rw [hphase, TickPhase.queue] at hqueue hdistinct
      rw [List.map_cons, List.nodup_cons] at hdistinct
      obtain ⟨hint, hrested⟩ := hqueue d List.mem_cons_self
      have hlast : ∀ id, id ≠ d.id → ∀ f, lastFiring (⟨d.id, d.intervalSec, x.world.now⟩ :: x.fired) id = some f →
          lastFiring x.fired id = some f := fun id hne f hl => by
        rwa [lastFiring_cons_ne (f := ⟨d.id, d.intervalSec, x.world.now⟩) _ (Ne.symm hne)] at hl
      have hpast : ∀ f ∈ (⟨d.id, d.intervalSec, x.world.now⟩ : Firing) :: x.fired,
          f.time ≤ x.world.now ∧ int4 f.interval = true := List.forall_mem_cons.2 ⟨⟨Int.le_refl _, hint⟩, h.past⟩
      have hspaced : Spaced (⟨d.id, d.intervalSec, x.world.now⟩ :: x.fired) := ⟨hrested, h.spaced⟩
      dsimp only
      generalize (a.server.fireRoutine d.orgID d.wspID d.action).run x.world = run at hrows hnow
      obtain ⟨v, res⟩ := run
      dsimp only at hrows hnow ⊢
      cases res with
      | none =>
          exact { past := by rwa [hnow], rests := fun _ _ _ hs => hs.elim, queue := nofun, distinct := List.nodup_nil,
                  marking := nofun, spaced := hspaced }
      | some _ =>
          refine { past := by rwa [hnow], rests := fun id f hl hne => ?_, queue := fun d' hd' => ?_,
                   distinct := hdistinct.2, marking := fun d' due' he => ?_, spaced := hspaced }
          · intro q hq
            dsimp only at hq
            rw [hrows] at hq
            exact h.rests id f (hlast id hne f hl) (by rw [hphase]; trivial) q hq
          · have hne : d'.id ≠ d.id := fun he => hdistinct.1 (he ▸ List.mem_map_of_mem hd')
            refine ⟨(hqueue d' (List.mem_cons_of_mem _ hd')).1, fun f hl hi => ?_⟩
            dsimp only
            rw [hnow]
            exact (hqueue d' (List.mem_cons_of_mem _ hd')).2 f (hlast _ hne f hl) hi
          · cases he
            exact ⟨_, lastFiring_cons_self ⟨d.id, d.intervalSec, x.world.now⟩ _⟩
  · exact h

theorem mark (h : OnTime x) : OnTime x.mark := by
  unfold Timetable.mark
  split
  · next d due hphase =>
      obtain ⟨s', hrun, hrows⟩ := run_markRoutineRan d.id d.intervalSec x.world
      obtain ⟨t, hlast⟩ := h.marking d due hphase
      have hqueue := h.queue
      have hdistinct := h.distinct
      rw [hphase, TickPhase.queue] at hqueue hdistinct
      rw [hrun]
      refine { past := h.past, rests := fun id f hl _ q' hq' hid hn t' ht' => ?_, queue := hqueue, distinct := hdistinct,
               marking := nofun, spaced := h.spaced }
      obtain ⟨hmem, hfid⟩ := lastFiring_some hl
      dsimp only at hl hq'
      rw [hrows] at hq'
      obtain ⟨q, hq, rfl⟩ := List.mem_map.1 hq'
      split at hid
      · next hqd =>
          rw [if_pos hqd] at hn ht'
          dsimp only at hid hn ht'
          have hthis : id = d.id := hfid.symm.trans (hid.symm.trans hqd)
          rw [hthis, hlast, Option.some.injEq] at hl
          subst hl
          split at ht'
          · rw [Option.some.injEq] at ht'
            exact ht' ▸ Int.add_le_add_right (h.past _ hmem).1 _
          · cases ht'
      · next hqd =>
          rw [if_neg hqd] at hn ht'
          have hne : id ≠ d.id := fun he => hqd (hid.trans (hfid.trans he))
          exact h.rests id f hl (by rw [hphase]; exact hne) q hq hid hn t' ht'
  · exact h

theorem next (a : API) (h : OnTime x) (e : TimerEvent) : OnTime (x.next a e) := by
  cases e with
  | read => exact h.read
  | fire => exact h.fire
  | mark => exact h.mark
  | elapse d => exact h.goesOn (Int.le_add_of_nonneg_right (Int.natCast_nonneg d)) fun _ _ hr => hr
  | routines u r => exact h.request (routines_edits a u r x.world)
  | routineAction u r => exact h.request (routineAction_edits a u r x.world)

end OnTime

/-! ## Over whole runs -/

/-- What waits to be marked came from a scheduled routine. -/
structure Planned (x : Timetable) : Prop where
  rows : Scheduled x.world.db
  queue : ∀ d ∈ x.phase.queue, 0 < d.intervalSec
  marking : ∀ d due, x.phase = .marking d due → 0 < d.intervalSec

theorem mark_scheduled {d : Id} {n : Int} (hn : 0 < n) (hs : Scheduled w.db) :
    Scheduled ((DB.markRoutineRan d n).run w).1.db := by
  obtain ⟨s', hrun, hrows⟩ := run_markRoutineRan d n w
  rw [hrun]
  intro q' hq' htr
  dsimp only at hq'
  rw [hrows] at hq'
  obtain ⟨q, hq, rfl⟩ := List.mem_map.1 hq'
  split at htr
  · rw [if_pos ‹_›, if_pos hn]
    exact ⟨(hs q hq htr).1, fun _ => by simp⟩
  · rw [if_neg ‹_›]
    exact hs q hq htr

namespace Planned

variable {x : Timetable}

theorem request (h : Planned x) {v : World} (he : Edited x.world v) : Planned { x with world := v } :=
  ⟨he.edits.scheduled h.rows, h.queue, h.marking⟩

theorem next (a : API) (h : Planned x) (e : TimerEvent) : Planned (x.next a e) := by
  cases e with
  | read =>
      dsimp only [Timetable.next]
      unfold Timetable.read
      split
      · next due hphase hdue =>
          have hj : ¬ Jammed x.world.now x.world.db := fun hj => by
            rw [run_dueRoutines_jammed hj] at hdue
            cases hdue
          rw [run_dueRoutines hj] at hdue
          cases hdue
          refine ⟨h.rows, fun d hd => ?_, fun _ _ he => by cases he⟩
          obtain ⟨q, hq, rfl⟩ := List.mem_map.1 hd
          obtain ⟨hq, hdue⟩ := List.mem_filter.1 hq
          simp only [Routine.due, Bool.and_eq_true, decide_eq_true_eq] at hdue
          exact (h.rows q (List.mem_reverse.1 hq) hdue.1.2).1
      · exact h
  | fire =>
      dsimp only [Timetable.next]
      unfold Timetable.fire
      split
      · next d due hphase =>
          obtain ⟨hrows, -⟩ := fireRoutine_routines (a := a) d.orgID d.wspID d.action x.world
          have hqueue := h.queue
          rw [hphase, TickPhase.queue] at hqueue
          dsimp only
          generalize (a.server.fireRoutine d.orgID d.wspID d.action).run x.world = run at hrows
          obtain ⟨v, res⟩ := run
          dsimp only at hrows ⊢
          have hv : Scheduled v.db := fun q hq => h.rows q (hrows ▸ hq)
          cases res with
          | none => exact ⟨hv, fun _ hd => (by cases hd), fun _ _ he => (by cases he)⟩
          | some _ =>
              refine ⟨hv, fun d' hd' => hqueue d' (List.mem_cons_of_mem _ hd'), fun d' due' he => ?_⟩
              cases he
              exact hqueue d List.mem_cons_self
      · exact h
  | mark =>
      dsimp only [Timetable.next]
      unfold Timetable.mark
      split
      · next d due hphase =>
          have hqueue := h.queue
          rw [hphase, TickPhase.queue] at hqueue
          exact ⟨mark_scheduled (h.marking d due hphase) h.rows, hqueue, fun _ _ he => by cases he⟩
      · exact h
  | elapse d => exact ⟨h.rows, h.queue, h.marking⟩
  | routines u r => exact h.request (routines_edits a u r x.world)
  | routineAction u r => exact h.request (routineAction_edits a u r x.world)

end Planned

/-- However requests come between the steps of the scheduler, a routine's firings are apart by its interval, and
a scheduled routine that is enabled keeps the time of its next run. -/
theorem firings_spaced (a : API) (w : World) (es : List TimerEvent) :
    Spaced (Runs.exec (Timetable.next a) { world := w } es).fired ∧
      (Scheduled w.db → Scheduled (Runs.exec (Timetable.next a) { world := w } es).world.db) := by
  have hstart : OnTime { world := w } :=
    { past := nofun, rests := nofun, queue := nofun, distinct := List.nodup_nil, marking := nofun, spaced := trivial }
  have honTime := Runs.always_of_meets (P := OnTime) (C := fun _ _ => True) (fun _ e hx _ => OnTime.next a hx e) hstart
    (Runs.Meets.of_forall (fun _ _ => trivial) _ es)
  refine ⟨honTime.last.spaced, fun hs => ?_⟩
  have hplanned : Planned { world := w } := ⟨hs, nofun, nofun⟩
  exact (Runs.always_of_meets (P := Planned) (C := fun _ _ => True) (fun _ e hx _ => Planned.next a hx e) hplanned
    (Runs.Meets.of_forall (fun _ _ => trivial) _ es)).last.rows

/-- The scheduler of the sample fires its routine, which is due. -/
theorem firings_spaced_sample : Spaced (Runs.exec (Timetable.next {}) { world := Sample.world }
    [.read, .fire, .mark, .elapse 10, .read]).fired ∧
      Scheduled (Runs.exec (Timetable.next {}) { world := Sample.world } [.read, .fire, .mark, .elapse 10, .read]).world.db := by
  obtain ⟨hspaced, hscheduled⟩ := firings_spaced {} Sample.world [.read, .fire, .mark, .elapse 10, .read]
  refine ⟨hspaced, hscheduled fun q hq _ => ?_⟩
  have hall : (Sample.world.db .routine).rows.all (fun q => decide (0 < q.intervalSec ∧ q.nextRunAt ≠ none)) = true := by
    decide +kernel
  obtain ⟨hn, hnext⟩ := of_decide_eq_true (List.all_eq_true.1 hall q hq)
  exact ⟨hn, fun _ => hnext⟩

end Apifor
