import Apifor.Lemmas.Steps
import Apifor.Lib.Runs

/-!
# Routines of other orgs

The scheduler asks for the due routines of all orgs by one query. The query casts their intervals to
`int`; one interval that is too long fails it for every org.
-/

namespace Apifor

variable {a : API} {A : Id} {w w' : World} {s s' : Store} {now : Time}

/-! ## Routines that are due -/

/-- What `DueRoutines` selects. -/
def Routine.due (now : Time) (q : Routine) : Bool :=
  q.enabled && decide (q.triggerType = .schedule) && (q.nextRunAt.map fun t => decide (t ≤ now)).getD false

def Routine.listed (q : Routine) : DB.RoutineDue :=
  { id := q.id, orgID := q.orgId, wspID := q.workspaceId, intervalSec := q.intervalSec, action := q.action }

/-- A routine is due whose interval is no `int`. -/
def Jammed (now : Time) (s : Store) : Prop := ∃ q ∈ (s .routine).rows, q.due now = true ∧ int4 q.intervalSec = false

/-- The due routines, in the order of the query. -/
def dueList (w : World) : List DB.RoutineDue := ((w.db .routine).rows.reverse.filter (·.due w.now)).map (·.listed)

theorem not_jammed : ¬ Jammed w.now w.db ↔ ((w.db .routine).rows.reverse.filter (·.due w.now)).all (fun q => int4 q.intervalSec) = true := by
  simp only [Jammed, List.all_eq_true, List.mem_filter, List.mem_reverse, not_exists, not_and, Bool.not_eq_false, and_imp]

theorem run_dueRoutines (h : ¬ Jammed w.now w.db) : DB.dueRoutines.run w = (w, some (.ok (dueList w))) := by
  refine (run_query _ _ _).trans ?_
  exact congrArg (fun x => (w, some x)) (if_pos (not_jammed.1 h))

theorem run_dueRoutines_jammed (h : Jammed w.now w.db) : DB.dueRoutines.run w = (w, some (.error .outOfRange)) := by
  refine (run_query _ _ _).trans ?_
  exact congrArg (fun x => (w, some x)) (if_neg fun hall => not_jammed.2 hall h)

/-- `DueRoutines` returns the routine. -/
def Returned (w : World) (q : Routine) : Prop :=
  ∃ due, DB.dueRoutines.run w = (w, some (.ok due)) ∧ q.listed ∈ due

/-- A tick of the scheduler fires the routine: it goes through a list that has it, and when it is through,
the routine has run. -/
structure Fired (a : API) (w : World) (q : Routine) : Prop where
  listed : ∃ due, q.listed ∈ due ∧ a.server.schedule.run w = (a.server.fireAll due).run w
  ran : (a.server.schedule.run w).2 = some () →
    ∃ q' ∈ ((a.server.schedule.run w).1.db .routine).rows, q'.id = q.id ∧ q'.lastRunAt = some w.now

theorem Returned.not_jammed {q : Routine} (h : Returned w q) : ¬ Jammed w.now w.db := by
  intro hj
  obtain ⟨due, hrun, -⟩ := h
  rw [run_dueRoutines_jammed hj] at hrun
  cases hrun

theorem returned_of_due {q : Routine} (hj : ¬ Jammed w.now w.db) (hq : q ∈ (w.db .routine).rows)
    (hd : q.due w.now = true) : Returned w q :=
  ⟨dueList w, run_dueRoutines hj, List.mem_map_of_mem (List.mem_filter.2 ⟨List.mem_reverse.2 hq, hd⟩)⟩

/-! ## A tick of the scheduler -/

/-- The routine has run at the time. -/
def Ran (s : Store) (id : Id) (t : Time) : Prop := ∃ q ∈ (s .routine).rows, q.id = id ∧ q.lastRunAt = some t

theorem run_markRoutineRan (id : Id) (n : Int) (w : World) :
    ∃ s', (DB.markRoutineRan id n).run w = ({ w with db := s' }, some (.ok ())) ∧
      (s' .routine).rows = (w.db .routine).rows.map fun q =>
        if q.id = id then { q with lastRunAt := some w.now, nextRunAt := if n > 0 then some (w.now + n * second) else none }
        else q := by
  obtain ⟨s', k, hup⟩ : ∃ s' k, update .all .routine (fun q => decide (q.id = id))
      (fun q => { q with lastRunAt := some w.now, nextRunAt := if n > 0 then some (w.now + n * second) else none }) w.db
      (fun _ => rfl) = .ok (s', k) := ⟨_, _, update_all_eq (fun _ _ h => h) fun _ => rfl⟩
  refine ⟨s', ?_, ?_⟩
  · simp only [DB.markRoutineRan, timeNow, Prog.bind_def, Prog.run_bind, Prog.run_lift, run_exec, hup, Except.map]
  · rw [update_rows hup]
    simp only [Scope.writes, Bool.true_and, decide_eq_true_eq]

theorem fireRoutine_routines (org wsp : Id) (act : RoutineAction) (w : World) :
    (((a.server.fireRoutine org wsp act).run w).1.db .routine).rows = (w.db .routine).rows ∧
      ((a.server.fireRoutine org wsp act).run w).1.now = w.now := by
  have hfoot := Server.fireRoutine_within (T := fun t => t == .task || t == .notification) (K := fun _ _ => True) rfl rfl
    a.server org wsp act (fun _ _ _ _ => trivial) w
  exact ⟨hfoot.db.rows_eq rfl fun _ => rfl, hfoot.now⟩

/-- A tick that comes to its end has run the routines of its list. -/
theorem fireAll_ran (due : List DB.RoutineDue) (w : World) (h : ((a.server.fireAll due).run w).2 = some ()) :
    (∀ d ∈ due, (∃ q ∈ (w.db .routine).rows, q.id = d.id) → Ran ((a.server.fireAll due).run w).1.db d.id w.now) ∧
      ∀ id, Ran w.db id w.now → Ran ((a.server.fireAll due).run w).1.db id w.now := by
  induction due generalizing w with
  | nil => exact ⟨nofun, fun _ hr => hr⟩
  | cons d due ih =>
      obtain ⟨hrows, hnow⟩ := fireRoutine_routines (a := a) d.orgID d.wspID d.action w
      rw [Server.fireAll, Prog.bind_def, Prog.run_bind] at h ⊢
      revert h
      generalize (a.server.fireRoutine d.orgID d.wspID d.action).run w = res at hrows hnow
      obtain ⟨w1, r⟩ := res
      cases r with
      | none => exact fun h => by cases h
      | some _ =>
          obtain ⟨s2, hmark, hs2⟩ := run_markRoutineRan d.id d.intervalSec w1
          dsimp only at hrows hnow ⊢
          rw [Prog.bind_def, Prog.run_bind_of_eq hmark]
          intro h
          obtain ⟨hall, hkeep⟩ := ih _ h
          dsimp only at hall hkeep
          rw [hrows] at hs2
          rw [← hnow]
          have hmarked : ∀ q ∈ (w.db .routine).rows, ∃ q' ∈ (s2 .routine).rows, q'.id = q.id ∧
              (q.id = d.id ∨ q.lastRunAt = some w1.now → q'.lastRunAt = some w1.now) := by
            intro q hq
            refine ⟨_, hs2 ▸ List.mem_map_of_mem hq, ?_, ?_⟩
            · split <;> rfl
            · split
              · exact fun _ => rfl
              · next hne => exact fun hor => hor.resolve_left hne
          have hran : ∀ id, Ran w.db id w1.now → Ran s2 id w1.now := by
            rintro id ⟨q, hq, rfl, hlast⟩
            obtain ⟨q', hq', hid, hl⟩ := hmarked q hq
            exact ⟨q', hq', hid, hl (.inr hlast)⟩
          refine ⟨fun d' hd' hex => ?_, fun id hr => hkeep id (hran id hr)⟩
          obtain ⟨q, hq, hqid⟩ := hex
          obtain ⟨q', hq', hid, hl⟩ := hmarked q hq
          rcases List.mem_cons.1 hd' with rfl | hd'
          · exact hkeep _ ⟨q', hq', hid.trans hqid, hl (.inl hqid)⟩
          · exact hall d' hd' ⟨q', hq', hid.trans hqid⟩

theorem run_schedule (h : ¬ Jammed w.now w.db) : a.server.schedule.run w = (a.server.fireAll (dueList w)).run w := by
  rw [Server.schedule, Prog.bind_def, Prog.run_bind_of_eq (run_dueRoutines h)]

theorem fired_of_due {q : Routine} (hj : ¬ Jammed w.now w.db) (hq : q ∈ (w.db .routine).rows) (hd : q.due w.now = true) :
    Fired a w q := by
  have hmem : q.listed ∈ dueList w := List.mem_map_of_mem (List.mem_filter.2 ⟨List.mem_reverse.2 hq, hd⟩)
  refine ⟨⟨_, hmem, run_schedule hj⟩, fun h => ?_⟩
  rw [run_schedule hj] at h ⊢
  exact (fireAll_ran _ w h).1 _ hmem ⟨q, hq, rfl⟩

/-! ## Routines that an org makes -/

/-- What the callers of one org do: they let time pass, and ask for new routines. -/
inductive Making
  | wait (d : Nat)
  | create (userID role : String) (r : Request)

/-- A caller of the org asks for a routine. -/
def API.makeRoutine (a : API) (A : Id) (userID role : String) (r : Request) : Cmd Response :=
  (API.routines ⟨userID, A, role⟩ r).cmd a.server.rls

def make (a : API) (A : Id) (w : World) : Making → World
  | .wait d => { w with now := w.now + d }
  | .create userID role r => ((a.makeRoutine A userID role r).run w).1

def routineBody (r : Request) : API.RoutineBody := (Json.decodeFirst API.routineFields r.body {}).1

/-- The request is answered 201. -/
def Accepted (a : API) (A : Id) (userID role : String) (r : Request) (w : World) : Prop :=
  r.method = "POST" ∧ ((a.makeRoutine A userID role r).run w).2.map (·.code) = some 201

/-- A routine is made whose interval is no `int`, and which is due at the given time; the interval in
nanoseconds may have overflowed. -/
def Overlong (a : API) (A : Id) (now : Time) (w : World) : Making → Prop
  | .wait _ => False
  | .create userID role r =>
      Accepted a A userID role r w ∧ (routineBody r).trigger = "schedule" ∧ int4 (routineBody r).intervalSec = false ∧
        w.now + DB.durationOf (routineBody r).intervalSec ≤ now

/-- The routine that a request makes. -/
def newRoutine (A wsp name : Id) (trigger : RoutineTrigger) (next : Option Time) (n : Int) (act : RoutineAction) (id : Id) :
    Routine :=
  { id := id, orgId := A, workspaceId := wsp, name := name, triggerType := trigger, intervalSec := n, action := act,
    enabled := true, nextRunAt := next }

/-- A new routine is due if it is scheduled and the first time of its interval has come. -/
theorem newRoutine_due {wsp name i : Id} {tr : RoutineTrigger} {act : RoutineAction} {b : String} {n : Int} {t now : Time}
    (htr : (PgEnum.ofText? (if b = "" then "manual" else b) : Option RoutineTrigger) = some tr)
    (hn : ¬ ((if b = "" then "manual" else b) = "schedule" ∧ n ≤ 0)) :
    (newRoutine A wsp name tr (if (if b = "" then "manual" else b) = "schedule" ∧ n > 0 then some (t + DB.durationOf n)
        else none) n act i).due now = true ↔ b = "schedule" ∧ t + DB.durationOf n ≤ now := by
  by_cases hb : b = ""
  · subst hb
    simp +decide [Routine.due, newRoutine]
  · rw [if_neg hb] at htr hn ⊢
    by_cases hs : b = "schedule"
    · subst hs
      have hpos : n > 0 := by
        rw [not_and] at hn
        exact Int.not_le.1 (hn rfl)
      have htr' : tr = .schedule := by
        have hsome : (PgEnum.ofText? "schedule" : Option RoutineTrigger) = some .schedule := by decide
        rw [hsome] at htr
        exact (Option.some.inj htr).symm
      simp [Routine.due, newRoutine, htr', hpos]
    · simp [Routine.due, newRoutine, hs]

/-- The one statement of `CreateRoutine`, behind the drawing of an id. -/
theorem createRoutine_tx (wsp name trigger : String) (n : Int) (act : RoutineAction) (rls : Bool) (w : World) :
    ((DB.createRoutine (B := A) wsp name trigger n act).cmd rls).run w =
      ((OrgM.tx (T := settings) (B := A) "CreateRoutine" (match (PgEnum.ofText? trigger : Option RoutineTrigger) with
        | none => Tx.fail .cast
        | some tr => do
            Tx.insert .routine (newRoutine A wsp name tr
              (if trigger = "schedule" ∧ n > 0 then some (w.now + DB.durationOf n) else none) n act
              ("rtn_" ++ w.ulid w.drawn)) rfl
            pure ("rtn_" ++ w.ulid w.drawn))).cmd rls).run { w with drawn := w.drawn + 1 } := rfl

/-- What `CreateRoutine` makes of the routines. -/
theorem run_createRoutine (wsp name trigger : String) (n : Int) (act : RoutineAction) (rls : Bool) (w : World) :
    ∃ w' res, ((DB.createRoutine (B := A) wsp name trigger n act).cmd rls).run w = (w', some res) ∧
      ((∃ e, res = .error e) ∧ w'.db = w.db ∨
        ∃ tr, (PgEnum.ofText? trigger : Option RoutineTrigger) = some tr ∧ res = .ok ("rtn_" ++ w.ulid w.drawn) ∧
          (w'.db .routine).rows = newRoutine A wsp name tr
            (if trigger = "schedule" ∧ n > 0 then some (w.now + DB.durationOf n) else none) n act
            ("rtn_" ++ w.ulid w.drawn) :: (w.db .routine).rows) := by
  rw [createRoutine_tx]
  cases htr : (PgEnum.ofText? trigger : Option RoutineTrigger) with
  | none => exact ⟨_, _, rfl, .inl ⟨⟨.cast, rfl⟩, rfl⟩⟩
  | some tr =>
      simp only [OrgM.tx, run_exec, Tx.run_bind, Tx.insert]
      cases hi : Apifor.insert (withOrg rls A) .routine (newRoutine A wsp name tr
        (if trigger = "schedule" ∧ n > 0 then some (w.now + DB.durationOf n) else none) n act
        ("rtn_" ++ w.ulid w.drawn)) w.db with
      | error e => exact ⟨_, _, rfl, .inl ⟨⟨e, rfl⟩, rfl⟩⟩
      | ok s' => exact ⟨_, _, rfl, .inr ⟨tr, rfl, rfl, insert_rows hi⟩⟩

theorem run_listing (u : Caller) (n : String) (f : Time → View → Except DbErr (List Val)) (rls : Bool) (w : World) :
    ((API.listing u n f).cmd rls).run w =
      (w, some (match f w.now (select (withOrg rls u.orgID) w.db) with
        | .ok rows => dataOf rows
        | .error e => internal e)) := by
  have hview : ((OrgM.view (T := settings) (B := u.orgID) n f).cmd rls).run w =
      (w, some (f w.now (select (withOrg rls u.orgID) w.db))) :=
    run_query n (fun now s => f now (select (withOrg rls u.orgID) s)) w
  refine (Prog.run_bind_of_eq hview).trans ?_
  cases f w.now (select (withOrg rls u.orgID) w.db) <;> rfl

/-- What an answered request for a routine has made of the routines. -/
inductive RoutineMade (now : Time) (r : Request) (w w' : World) (v : Response) : Prop
  | none (hv : v.code ≠ 201) (rows : (w'.db .routine).rows = (w.db .routine).rows)
  | made (hm : r.method = "POST") (hv : v.code = 201) (q : Routine)
      (rows : (w'.db .routine).rows = q :: (w.db .routine).rows) (interval : q.intervalSec = (routineBody r).intervalSec)
      (due : q.due now = true ↔ (routineBody r).trigger = "schedule" ∧
        w.now + DB.durationOf (routineBody r).intervalSec ≤ now)

theorem run_makeRoutine (now : Time) (a : API) (A : Id) (userID role : String) (r : Request) (w : World) :
    ∃ w' v, (a.makeRoutine A userID role r).run w = (w', some v) ∧ RoutineMade now r w w' v := by
  have hidle : ∀ {c : Cmd Response} {v : Response}, c.run w = (w, some v) → v.code = 400 ∨ v.code = 403 ∨ v.code = 200 ∨
      v.code = 500 → ∃ w' v, c.run w = (w', some v) ∧ RoutineMade now r w w' v := by
    intro c v hrun hv
    exact ⟨w, v, hrun, .none (by omega) rfl⟩
  by_cases hm : r.method = "POST"
  · rw [API.makeRoutine, API.routines, if_pos hm, guarded]
    by_cases hc : can role "write" = true
    · rw [if_pos hc]
      dsimp only
      generalize hb : Json.decodeFirst API.routineFields r.body {} = body
      obtain ⟨b, ok⟩ := body
      have hbody : routineBody r = b := congrArg Prod.fst hb
      dsimp only
      by_cases hbad : (!ok) = true ∨ b.name = "" ∨ b.prompt = ""
      · rw [if_pos hbad]
        exact hidle rfl (.inl rfl)
      · rw [if_neg hbad]
        by_cases hint : (if b.trigger = "" then "manual" else b.trigger) = "schedule" ∧ b.intervalSec ≤ 0
        · rw [if_pos hint]
          exact hidle rfl (.inl rfl)
        · rw [if_neg hint]
          obtain ⟨wsp, hwsp⟩ := (DB.readOnly_firstWorkspace A).run w
          obtain ⟨w', res, hcreate, hres⟩ := run_createRoutine (A := A) wsp b.name
            (if b.trigger = "" then "manual" else b.trigger) b.intervalSec
            { title := if b.title = "" then b.name else b.title, prompt := b.prompt, refs := b.refs.toList, repoId := b.repoID }
            a.server.rls w
          rcases hres with ⟨⟨e, rfl⟩, hdb⟩ | ⟨tr, htr, rfl, hrows⟩
          · refine ⟨w', internal e, ?_, .none (show (500 : Nat) ≠ 201 by decide) (by rw [hdb])⟩
            exact (Prog.run_bind_of_eq hwsp).trans (Prog.run_bind_of_eq hcreate)
          · refine ⟨w', created ("rtn_" ++ w.ulid w.drawn), ?_, .made hm rfl _ hrows ?_ ?_⟩
            · exact (Prog.run_bind_of_eq hwsp).trans (Prog.run_bind_of_eq hcreate)
            · rw [hbody]
              rfl
            · rw [hbody]
              exact newRoutine_due htr hint
    · rw [if_neg hc]
      exact hidle rfl (.inr (.inl rfl))
  · rw [API.makeRoutine, API.routines, if_neg hm]
    cases hl : DB.listRoutines r.workspace (select (withOrg a.server.rls A) w.db) with
    | ok rows => exact hidle (v := dataOf rows) (by rw [run_listing, hl]) (.inr (.inr (.inl rfl)))
    | error e => exact hidle (v := internal e) (by rw [run_listing, hl]) (.inr (.inr (.inr rfl)))

/-- A step jams the scheduler only by a routine that is too long. -/
theorem jammed_make {t : Making} : Jammed now (make a A w t).db ↔ Jammed now w.db ∨ Overlong a A now w t := by
  cases t with
  | wait d => simp [make, Overlong]
  | create userID role r =>
      obtain ⟨w', v, hrun, hmade⟩ := run_makeRoutine now a A userID role r w
      rw [make, Overlong, Accepted, hrun]
      cases hmade with
      | none hv hrows =>
          rw [Jammed, hrows]
          exact ⟨.inl, fun h => h.resolve_right fun hov => hv (Option.some.inj hov.1.2)⟩
      | made hm hv q hrows hint hdue =>
          rw [Jammed, hrows]
          constructor
          · rintro ⟨q', hq', hd, hi⟩
            rcases List.mem_cons.1 hq' with rfl | hq'
            · obtain ⟨ht, hle⟩ := hdue.1 hd
              exact .inr ⟨⟨hm, congrArg some hv⟩, ht, hint ▸ hi, hle⟩
            · exact .inl ⟨q', hq', hd, hi⟩
          · rintro (⟨q', hq', hd, hi⟩ | ⟨-, ht, hi, hle⟩)
            · exact ⟨q', List.mem_cons_of_mem _ hq', hd, hi⟩
            · exact ⟨q, List.mem_cons_self, hdue.2 ⟨ht, hle⟩, hint ▸ hi⟩

theorem jammed_run (ts : List Making) (h : Jammed now w.db) : Jammed now (Runs.exec (make a A) w ts).db := by
  induction ts generalizing w with
  | nil => exact h
  | cons t ts ih => exact ih (jammed_make.2 (.inl h))

/-- A run jams the scheduler only by a routine that is too long. -/
theorem jammed_exec (ts : List Making) (h : ¬ Jammed now w.db) :
    ¬ Jammed now (Runs.exec (make a A) w ts).db ↔ Runs.Meets (make a A) (fun w t => ¬ Overlong a A now w t) w ts := by
  induction ts generalizing w with
  | nil => exact ⟨fun _ => trivial, fun _ => h⟩
  | cons t ts ih =>
      by_cases ho : Overlong a A now w t
      · have hj : Jammed now (make a A w t).db := jammed_make.2 (.inr ho)
        refine ⟨fun hend => absurd (jammed_run ts hj) hend, fun hm => absurd ho hm.1⟩
      · have hno : ¬ Jammed now (make a A w t).db := fun hj => (jammed_make.1 hj).elim h ho
        exact (ih hno).trans (and_iff_right ho).symm

/-! ## Routines of other orgs -/

/-- The routines of other orgs that `DueRoutines` would return without the steps from `w` to `w'`, it
returns, and the scheduler fires them. -/
def Spared (a : API) (A : Id) (w w' : World) : Prop :=
  ∀ q ∈ (w.db .routine).rows, q.orgId ≠ A → q.due w'.now = true → Returned { w with now := w'.now } q →
    Returned w' q ∧ Fired a w' q

/-- No routine of another org is returned at the time. -/
def Unneeded (A : Id) (now : Time) (w : World) : Prop :=
  ∀ q ∈ (w.db .routine).rows, q.orgId ≠ A → q.due now = true → ¬ Returned { w with now := now } q

theorem mem_exec (ts : List Making) {q : Routine} (h : q ∈ (w.db .routine).rows) :
    q ∈ ((Runs.exec (make a A) w ts).db .routine).rows := by
  induction ts generalizing w with
  | nil => exact h
  | cons t ts ih =>
      refine ih ?_
      cases t with
      | wait d => exact h
      | create userID role r =>
          obtain ⟨w', v, hrun, hmade⟩ := run_makeRoutine 0 a A userID role r w
          rw [make, hrun]
          cases hmade with
          | none _ hrows => exact hrows ▸ h
          | made _ _ q' hrows _ _ => exact hrows ▸ List.mem_cons_of_mem _ h

/-- The routines that an org makes stop no routine of another, if and only if none of them is due with an
interval beyond `int`. -/
theorem routines_spared (a : API) (A : Id) (w : World) (ts : List Making) :
    Spared a A w (Runs.exec (make a A) w ts) ↔
      Unneeded A (Runs.exec (make a A) w ts).now w ∨
        Runs.Meets (make a A) (fun v t => ¬ Overlong a A (Runs.exec (make a A) w ts).now v t) w ts := by
  generalize hend : Runs.exec (make a A) w ts = w'
  by_cases hu : Unneeded A w'.now w
  · exact ⟨fun _ => .inl hu, fun _ q hq ho hd hr => absurd hr (hu q hq ho hd)⟩
  · simp only [Unneeded, not_forall, not_not] at hu
    obtain ⟨q, hq, ho, hd, hr⟩ := hu
    have hiff : ¬ Jammed w'.now w'.db ↔ Runs.Meets (make a A) (fun v t => ¬ Overlong a A w'.now v t) w ts := by
      have hno : ¬ Jammed w'.now w.db := hr.not_jammed
      have hrun := jammed_exec (a := a) (A := A) ts hno
      rwa [hend] at hrun
    constructor
    · exact fun hs => .inr (hiff.1 (hs q hq ho hd hr).1.not_jammed)
    · rintro (hu | hm)
      · exact absurd hr (hu q hq ho hd)
      · intro q' hq' _ hd' _
        have hmem : q' ∈ (w'.db .routine).rows := hend ▸ mem_exec ts hq'
        exact ⟨returned_of_due (hiff.2 hm) hmem hd', fired_of_due (hiff.2 hm) hmem hd'⟩

namespace Sample

/-- The sample org, whose routine is due, and another one. -/
def neighbours : World :=
  { db := Store.ofRows (plans ++ rows ++
      [⟨.org, { id := "org_b", name := "B", ownerUserId := "usr_a", createdAt := 0 }⟩,
        ⟨.workspace, { id := "wsp_b", orgId := "org_b", name := "Principal" }⟩]) }

/-- A routine to be run every 9223372037 seconds, which are more nanoseconds than 64 bits hold. -/
def centuries : Request :=
  { method := "POST", path := "/v1/routines",
    body := "\x7b\"name\":\"n\",\"prompt\":\"p\",\"trigger\":\"schedule\",\"interval_sec\":9223372037\x7d" }

end Sample

open Sample in
/-- One routine of an org stops the due routine of another. -/
theorem routines_stopped :
    ¬ Spared {} "org_b" neighbours (Runs.exec (make {} "org_b") neighbours [.create "usr_b" "owner" centuries]) := by
  intro h
  have hbefore : ∃ q ∈ (neighbours.db .routine).rows, q.orgId ≠ "org_b" ∧ q.due 0 = true := by decide +kernel
  have hfits : ¬ Jammed neighbours.now neighbours.db := by
    rw [Jammed]
    decide +kernel
  have hafter : Jammed 0 (make {} "org_b" neighbours (.create "usr_b" "owner" centuries)).db := by
    rw [Jammed]
    decide +kernel
  have hnow : (make {} "org_b" neighbours (.create "usr_b" "owner" centuries)).now = 0 := by decide +kernel
  obtain ⟨q, hq, ho, hd⟩ := hbefore
  rw [Runs.exec_cons, Runs.exec_nil] at h
  rw [Spared, hnow] at h
  have hret := (h q hq ho hd (returned_of_due hfits hq hd)).1.not_jammed
  rw [hnow] at hret
  exact hret hafter

end Apifor
