import Apifor.Lemmas.Books
import Apifor.Lib.Runs

/-!
# Leases, workers and usage events

The goroutines that call `tryGrant` and the reaper, statement by statement. Whenever no grant and no
revocation is between its first and its last write, every lease agrees with its worker and with its usage
events.
-/

namespace Apifor

/-! ## Grants and the reaper at work -/

/-- A goroutine, and how many usage events it owes since it hired a worker or ended a lease. -/
structure Clerk where
  prog : Cmd Unit
  owed : Nat := 0

/-- What is owed after a step. -/
def owedAfter (n : Option String) (owed : Nat) : Nat :=
  if n = some "GrantLease (worker_instance)" ∨ n = some "EndLease" then 2
  else if n = some "RecordUsage" then owed - 1
  else owed

def Clerk.turn (t : Clerk) (w : World) : Clerk :=
  { prog := (t.prog.tick w).2, owed := owedAfter t.prog.upcoming t.owed }

structure Desk where
  world : World
  reaper : Clerk := { prog := .done () }
  grants : List Clerk := []

inductive DeskEvent
  | elapse (d : Nat)
  | request (org wsp : Id)
  | pass
  | grantTurn (i : Nat)
  | reaperTurn

namespace Desk

def next (sv : Server) (s : Desk) : DeskEvent → Desk
  | .elapse d => { s with world := { s.world with now := s.world.now + d } }
  | .request org wsp => { s with grants := s.grants ++ [{ prog := (sv.tryGrant org wsp).bind fun _ => .done () }] }
  -- the ticker drops its ticks while a pass runs
  | .pass => if s.reaper.prog.ended then { s with reaper := { prog := sv.reapOnce } } else s
  | .grantTurn i =>
      match s.grants[i]? with
      | some t => { s with world := (t.prog.tick s.world).1, grants := s.grants.set i (t.turn s.world) }
      | none => s
  | .reaperTurn => { s with world := (s.reaper.prog.tick s.world).1, reaper := s.reaper.turn s.world }

/-- The statement that the event executes, if it is one, succeeds. -/
def succeeds (s : Desk) : DeskEvent → Bool
  | .grantTurn i => (s.grants[i]?.map fun t => t.prog.succeeds DbErr.lost s.world).getD true
  | .reaperTurn => s.reaper.prog.succeeds DbErr.lost s.world
  | _ => true

/-- No grant and no revocation is in progress. -/
def Quiet (s : Desk) : Prop := s.reaper.owed = 0 ∧ ∀ t ∈ s.grants, t.owed = 0

end Desk

/-! ## Agreement -/

def workersOf (s : Store) (l : Lease) : List WorkerInstance :=
  (s .workerInstance).rows.filter fun x => decide (x.id = l.workerInstanceId)

def eventsOf (s : Store) (l : Lease) (type : UsageEventType) : List UsageEvent :=
  (s .usageEvent).rows.filter fun u => decide (Notes u l.id type)

/-- A lease, its worker and its usage events. -/
structure Agrees (s : Store) (l : Lease) : Prop where
  reasoned : Reasoned l
  worker : (workersOf s l).length = 1
  running : ∀ x ∈ workersOf s l, x.status = .running ↔ l.endedAt = none
  paused : ∀ x ∈ workersOf s l, x.status = .paused ↔ l.endedAt ≠ none ∧ l.endReason = some .expired
  halted : ∀ x ∈ workersOf s l, x.status = .stopped ↔
    l.endedAt ≠ none ∧ (l.endReason = some .killed ∨ l.endReason = some .hours_cap)
  started : (eventsOf s l .worker_started).length = 1
  issued : (eventsOf s l .lease_issued).length = 1
  expired : (eventsOf s l .lease_expired).length = if l.endedAt.isSome then 1 else 0
  stopped : (eventsOf s l .worker_stopped).length = if l.endedAt.isSome then 1 else 0

/-- Every lease agrees with its worker and its events, no two leases have one worker, and no event is
that of an unknown lease. -/
structure Settled (s : Store) : Prop where
  named : ∀ l ∈ (s .lease).rows, l.id ≠ ""
  agrees : ∀ l ∈ (s .lease).rows, Agrees s l
  apart : ((s .lease).rows.map (·.workerInstanceId)).Nodup
  known : ∀ u ∈ (s .usageEvent).rows, u.type ≠ .task_dispatched → ∀ i, u.leaseId = some i →
    ∃ l ∈ (s .lease).rows, l.id = i

/-! ## The books and the agreement -/

theorem length_eventsOf (s : Store) (l : Lease) (ty : UsageEventType) :
    (eventsOf s l ty).length = entries (s .usageEvent).rows l.id ty := by
  rw [entries, List.countP_eq_length_filter]
  rfl

theorem worker_keys (w : World) : ((standing w).map (·.1)).Nodup := by
  have hpk := (w.db .workerInstance).pk
  have hkeys : (w.db .workerInstance).rows.map (key .workerInstance) =
      ((standing w).map (·.1)).map fun i => (i, (0 : Int)) := by
    simp only [standing, List.map_map]
    rfl
  rw [hkeys] at hpk
  exact hpk.of_map _

/-- The worker of a lease is the row of its id. -/
theorem workersOf_of_mem {w : World} {l : Lease} {st : WorkerStatus} (h : (l.workerInstanceId, st) ∈ standing w) :
    ∃ x, workersOf w.db l = [x] ∧ x.status = st := by
  obtain ⟨x, hx, heq⟩ := List.mem_map.1 h
  rw [Prod.mk.injEq] at heq
  have hids : ((w.db .workerInstance).rows.map (·.id)).Nodup := by
    have := worker_keys w
    rwa [standing, List.map_map] at this
  refine ⟨x, ?_, heq.2⟩
  unfold workersOf
  generalize (w.db .workerInstance).rows = rows at hx hids
  induction rows with
  | nil => cases hx
  | cons r rs ih =>
      rw [List.map_cons, List.nodup_cons] at hids
      rw [List.filter_cons]
      rcases List.mem_cons.1 hx with rfl | hx
      · have hnone : rs.filter (fun y => decide (y.id = l.workerInstanceId)) = [] :=
          List.filter_eq_nil_iff.2 fun y hy hid =>
            hids.1 (List.mem_map.2 ⟨y, hy, (decide_eq_true_eq.mp hid).trans heq.1.symm⟩)
        simp [heq.1, hnone]
      · have hne : r.id ≠ l.workerInstanceId := fun h => hids.1 (List.mem_map.2 ⟨x, hx, heq.1.trans h.symm⟩)
        simp only [hne, decide_false, Bool.false_eq_true, if_false]
        exact ih hx hids.2

theorem entries_pos {U : List UsageEvent} {u : UsageEvent} {i : Id} {ty : UsageEventType} (hu : u ∈ U)
    (h : Notes u i ty) : 0 < entries U i ty := List.countP_pos_iff.2 ⟨u, hu, by simpa using h⟩

theorem hits_pos {L : List Lease} {i : Id} {q : Lease → Bool} (h : 0 < hits L i q) : ∃ l ∈ L, l.id = i := by
  obtain ⟨l, hl, hq⟩ := List.countP_pos_iff.1 h
  simp only [Bool.and_eq_true, decide_eq_true_eq] at hq
  exact ⟨l, hl, hq.1⟩

theorem statusOf_iff {l : Lease} (h : Reasoned l) :
    (statusOf l = .running ↔ l.endedAt = none) ∧
      (statusOf l = .paused ↔ l.endedAt ≠ none ∧ l.endReason = some .expired) ∧
      (statusOf l = .stopped ↔ l.endedAt ≠ none ∧ (l.endReason = some .killed ∨ l.endReason = some .hours_cap)) := by
  have hboth := h.both
  cases hr : l.endReason with
  | none =>
      have hend : l.endedAt = none := by simpa [hr] using hboth
      simp [statusOf, hr, hend]
  | some r =>
      have hend : l.endedAt ≠ none := by
        intro hnone
        simp [hr, hnone] at hboth
      rcases h.known r hr with rfl | rfl | rfl <;> simp [statusOf, hr, hend]

theorem sum_asking {gs : List GrantStage} {f : GrantStage → Nat} (h : ∀ g ∈ gs, g = .asking) (hf : f .asking = 0) :
    (gs.map f).sum = 0 := by
  induction gs with
  | nil => rfl
  | cons g gs ih =>
      rw [List.map_cons, List.sum_cons, h g List.mem_cons_self, hf, ih fun x hx => h x (List.mem_cons_of_mem _ hx)]

/-- Where nothing is owed, the books are the agreement. -/
theorem Books.settled {w : World} {rc : ReaperStage} {gs : List GrantStage}
    (h : Books (leasesOf w) (usageOf w) (standing w) rc gs) (hrc : rc.owed = 0) (hgs : ∀ g ∈ gs, g.owed = 0) :
    Settled w.db := by
  have hasking : ∀ g ∈ gs, g = .asking := fun g hg => by
    have := hgs g hg
    cases g <;> first | rfl | cases this
  obtain ⟨since, ls, rfl⟩ : ∃ since ls, rc = .reaping since ls := by
    cases rc with
    | reaping since ls => exact ⟨since, ls, rfl⟩
    | ended => cases hrc
    | stopped => cases hrc
    | noted => cases hrc
  have hstarted : ∀ i, entries (usageOf w) i .worker_started = hits (leasesOf w) i fun _ => true := fun i => by
    have hsum : (gs.map (·.owesStart i)).sum = 0 := sum_asking hasking rfl
    rw [← h.started i, hsum, Nat.add_zero]
  have hissued : ∀ i, entries (usageOf w) i .lease_issued = hits (leasesOf w) i fun _ => true := fun i => by
    have hsum : (gs.map (·.owesIssue i)).sum = 0 := sum_asking hasking rfl
    rw [← h.issued i, hsum, Nat.add_zero]
  have hexpired : ∀ i, entries (usageOf w) i .lease_expired = hits (leasesOf w) i (·.endedAt.isSome) := h.expired
  have hstopped : ∀ i, entries (usageOf w) i .worker_stopped = hits (leasesOf w) i (·.endedAt.isSome) := h.stopped
  refine ⟨h.named, fun l hl => ?_, (List.nodup_append.1 h.apart).1, fun u hu hty i hi => ?_⟩
  · obtain ⟨x, hx, hst⟩ := workersOf_of_mem (h.staff l hl)
    have hr := h.reasoned l hl
    obtain ⟨hrunning, hpaused, hhalted⟩ := statusOf_iff hr
    have hone : ∀ {p : WorkerInstance → Prop}, p x → ∀ y ∈ workersOf w.db l, p y := fun hp y hy => by
      rw [hx] at hy
      exact List.mem_singleton.1 hy ▸ hp
    refine ⟨hr, by rw [hx]; rfl, hone (hst ▸ hrunning), hone (hst ▸ hpaused), hone (hst ▸ hhalted), ?_, ?_, ?_, ?_⟩
    · rw [length_eventsOf, hstarted, hits_of_mem h.ids hl]
      rfl
    · rw [length_eventsOf, hissued, hits_of_mem h.ids hl]
      rfl
    · rw [length_eventsOf, hexpired, hits_of_mem h.ids hl]
    · rw [length_eventsOf, hstopped, hits_of_mem h.ids hl]
  · have hpos : 0 < entries (usageOf w) i u.type := entries_pos hu ⟨hi, rfl⟩
    cases hu' : u.type with
    | worker_started => exact hits_pos (hstarted i ▸ hu' ▸ hpos)
    | lease_issued => exact hits_pos (hissued i ▸ hu' ▸ hpos)
    | lease_expired => exact hits_pos (hexpired i ▸ hu' ▸ hpos)
    | worker_stopped => exact hits_pos (hstopped i ▸ hu' ▸ hpos)
    | task_dispatched => exact absurd hu' hty

/-- At the start nothing is owed. -/
theorem Settled.books {w : World} (h : Settled w.db) (since : Time) :
    Books (leasesOf w) (usageOf w) (standing w) (.reaping since []) [] := by
  have hcount : ∀ i ty q, ty ≠ .task_dispatched →
      (∀ l ∈ leasesOf w, (eventsOf w.db l ty).length = if q l = true then 1 else 0) →
      entries (usageOf w) i ty = hits (leasesOf w) i q := by
    intro i ty q hty hq
    by_cases hi : ∃ l ∈ leasesOf w, l.id = i
    · obtain ⟨l, hl, rfl⟩ := hi
      rw [hits_of_mem (lease_ids w.db) hl, ← hq l hl, length_eventsOf]
    · rw [hits_eq_zero fun l hl hid => absurd ⟨l, hl, hid⟩ hi]
      refine List.countP_eq_zero.2 fun u hu hn => ?_
      have hn := of_decide_eq_true hn
      exact hi (h.known u hu (hn.2 ▸ hty) i hn.1)
  refine ⟨lease_ids w.db, h.named, worker_keys w, fun l hl => (h.agrees l hl).reasoned, fun i => ?_, fun i => ?_, fun i => ?_,
    fun i => ?_, fun l hl => ?_, nofun, ?_, List.nodup_nil, nofun, trivial⟩
  · exact hcount i _ _ nofun fun l hl => (h.agrees l hl).started
  · exact hcount i _ _ nofun fun l hl => (h.agrees l hl).issued
  · exact hcount i _ _ nofun fun l hl => (h.agrees l hl).expired
  · exact hcount i _ _ nofun fun l hl => (h.agrees l hl).stopped
  · obtain ⟨x, hx⟩ := List.length_eq_one_iff.1 (h.agrees l hl).worker
    have hmem : x ∈ workersOf w.db l := hx ▸ List.mem_singleton_self x
    obtain ⟨hrow, hid⟩ := List.mem_filter.1 hmem
    have hstatus : x.status = statusOf l := by
      obtain ⟨hrunning, hpaused, hstopped⟩ := statusOf_iff (h.agrees l hl).reasoned
      cases hst : statusOf l with
      | running => exact ((h.agrees l hl).running x hmem).2 (hrunning.1 hst)
      | paused => exact ((h.agrees l hl).paused x hmem).2 (hpaused.1 hst)
      | stopped => exact ((h.agrees l hl).halted x hmem).2 (hstopped.1 hst)
      | idle => unfold statusOf at hst; split at hst <;> cases hst
    exact List.mem_map.2 ⟨x, hrow, Prod.ext (of_decide_eq_true hid) hstatus⟩
  · simpa using h.apart

/-! ## What is owed follows the plans -/

theorem owedAfter_unmarked {n : Option String} (hn : Unmarked n) (k : Nat) : owedAfter n k = k := by
  cases n with
  | none => rfl
  | some n =>
      have hn : n ∉ marks := hn
      simp only [marks, List.mem_cons, List.not_mem_nil, or_false, not_or] at hn
      simp [owedAfter, hn]

theorem GrantStep.owed {w w' : World} {g g' : GrantStage} {n : Option String} (hs : GrantStep w w' g n g') :
    g'.owed = owedAfter n g.owed := by
  cases hs with
  | same hn _ => exact (owedAfter_unmarked hn _).symm
  | hire => rfl
  | lease => rfl
  | start => rfl
  | issue => rfl

theorem ReaperStep.owed {w w' : World} {rc rc' : ReaperStage} {n : Option String} (hs : ReaperStep w w' rc n rc') :
    rc'.owed = owedAfter n rc.owed := by
  cases hs with
  | same hn _ => exact (owedAfter_unmarked hn _).symm
  | clock => rfl
  | snapshot => rfl
  | renew => rfl
  | endLease => rfl
  | dismiss hn _ => exact (owedAfter_unmarked hn _).symm
  | expire => rfl
  | stop => rfl

/-! ## Runs -/

/-- A grant at its stage. -/
structure Clerk.At (t : Clerk) (g : GrantStage) : Prop where
  owed : t.owed = g.owed
  follows : Keeps GrantStep GrantStage.idle g t.prog

/-- Every goroutine keeps to its plan. -/
structure Desk.Plans (s : Desk) (rc : ReaperStage) (ps : List (Clerk × GrantStage)) : Prop where
  owed : s.reaper.owed = rc.owed
  reaper : Keeps ReaperStep (Waiting []) rc s.reaper.prog
  clerks : s.grants = ps.map (·.1)
  grants : ∀ p ∈ ps, p.1.At p.2

/-- What an event does to the stages: a step of one plan, or none. -/
inductive Move (w w' : World) : ReaperStage → List GrantStage → ReaperStage → List GrantStage → Prop
  | wait {rc : ReaperStage} {gs : List GrantStage} (d : Nat) (h : w' = { w with now := w.now + d }) : Move w w' rc gs rc gs
  | ask {rc : ReaperStage} {gs : List GrantStage} (h : w' = w) : Move w w' rc gs rc (gs ++ [.asking])
  | grant {rc : ReaperStage} {xs ys : List GrantStage} {g g' : GrantStage} {n : Option String}
      (h : GrantStep w w' g n g') : Move w w' rc (xs ++ g :: ys) rc (xs ++ g' :: ys)
  | reap {rc rc' : ReaperStage} {gs : List GrantStage} {n : Option String} (h : ReaperStep w w' rc n rc') :
      Move w w' rc gs rc' gs

theorem Move.refl {w : World} {rc : ReaperStage} {gs : List GrantStage} : Move w w rc gs rc gs := .wait 0 (by simp)

theorem Move.books {w w' : World} {rc rc' : ReaperStage} {gs gs' : List GrantStage} (hm : Move w w' rc gs rc' gs')
    (h : Books (leasesOf w) (usageOf w) (standing w) rc gs) :
    Books (leasesOf w') (usageOf w') (standing w') rc' gs' := by
  cases hm with
  | wait d hw => subst hw; exact h
  | ask hw => subst hw; exact h.ask
  | grant hs => exact hs.books h
  | reap hs => exact hs.books h

namespace Desk

variable {s : Desk} {rc : ReaperStage} {ps : List (Clerk × GrantStage)}

/-- A turn of a program that has stopped changes nothing. -/
theorem turn_stopped {t : Clerk} {w : World} (h : t.prog.tick w = (w, t.prog) ∧ t.prog.upcoming = none) : t.turn w = t := by
  simp only [Clerk.turn, h.1, h.2]
  rfl

theorem Plans.reaperTurn (h : s.Plans rc ps) (sv : Server) (hok : s.succeeds .reaperTurn = true) :
    ∃ rc', (s.next sv .reaperTurn).Plans rc' ps ∧
      Move s.world (s.next sv .reaperTurn).world rc (ps.map (·.2)) rc' (ps.map (·.2)) := by
  rcases h.reaper.tick hok with hstop | ⟨rc', hs, hnext⟩
  · refine ⟨rc, ?_⟩
    have hsame : s.next sv .reaperTurn = s := by simp only [Desk.next, turn_stopped hstop, hstop.1]
    rw [hsame]
    exact ⟨h, .refl⟩
  · refine ⟨rc', ⟨?_, hnext, h.clerks, h.grants⟩, .reap hs⟩
    rw [hs.owed, ← h.owed]
    rfl

theorem Plans.grantTurn (h : s.Plans rc ps) (sv : Server) (i : Nat) (hok : s.succeeds (.grantTurn i) = true) :
    ∃ ps', (s.next sv (.grantTurn i)).Plans rc ps' ∧
      Move s.world (s.next sv (.grantTurn i)).world rc (ps.map (·.2)) rc (ps'.map (·.2)) := by
  cases hi : ps[i]? with
  | none =>
      have hsame : s.next sv (.grantTurn i) = s := by simp only [Desk.next, h.clerks, List.getElem?_map, hi, Option.map_none]
      refine ⟨ps, ?_⟩
      rw [hsame]
      exact ⟨h, .refl⟩
  | some p =>
      obtain ⟨t, g⟩ := p
      have hget : s.grants[i]? = some t := by rw [h.clerks, List.getElem?_map, hi]; rfl
      have hat := h.grants _ (List.mem_of_getElem? hi)
      have hsucc : t.prog.succeeds DbErr.lost s.world = true := by simpa [Desk.succeeds, hget] using hok
      have hnext : s.next sv (.grantTurn i) =
          { s with world := (t.prog.tick s.world).1, grants := s.grants.set i (t.turn s.world) } := by
        simp only [Desk.next, hget]
      rcases hat.follows.tick hsucc with hstop | ⟨g', hs, hfollows⟩
      · have hset : s.grants.set i t = s.grants := by
          obtain ⟨hlt, rfl⟩ := List.getElem?_eq_some_iff.1 hget
          exact List.set_getElem_self hlt
        refine ⟨ps, ?_⟩
        rw [hnext, turn_stopped hstop, hstop.1, hset]
        exact ⟨h, .refl⟩
      · refine ⟨ps.set i (t.turn s.world, g'), ?_⟩
        rw [hnext]
        refine ⟨⟨h.owed, h.reaper, by rw [h.clerks, List.map_set], fun p hp => ?_⟩, ?_⟩
        · rcases List.mem_or_eq_of_mem_set hp with hold | rfl
          · exact h.grants p hold
          · exact ⟨by rw [hs.owed, ← hat.owed]; rfl, hfollows⟩
        · obtain ⟨hlt, hp⟩ := List.getElem?_eq_some_iff.1 hi
          obtain ⟨xs, ys, hlist, -, hset⟩ :
              ∃ xs ys, ps = xs ++ ps[i] :: ys ∧ xs.length = i ∧ ps.set i (t.turn s.world, g') = xs ++ (t.turn s.world, g') :: ys :=
            List.exists_of_set hlt
          have hold : ps.map (·.2) = xs.map (·.2) ++ g :: ys.map (·.2) := by
            rw [hlist, List.map_append, List.map_cons, hp]
          rw [hset, hold, List.map_append, List.map_cons]
          exact .grant hs

/-- An event in which the statement succeeds is a move of the plans. -/
theorem Plans.next (h : s.Plans rc ps) (sv : Server) {e : DeskEvent} (hok : s.succeeds e = true) :
    ∃ rc' ps', (s.next sv e).Plans rc' ps' ∧ Move s.world (s.next sv e).world rc (ps.map (·.2)) rc' (ps'.map (·.2)) := by
  cases e with
  | elapse d => exact ⟨rc, ps, ⟨h.owed, h.reaper, h.clerks, h.grants⟩, .wait d rfl⟩
  | request org wsp =>
      refine ⟨rc, ps ++ [({ prog := (sv.tryGrant org wsp).bind fun _ => .done () }, .asking)],
        ⟨h.owed, h.reaper, ?_, fun p hp => ?_⟩, ?_⟩
      · rw [List.map_append, ← h.clerks]
        rfl
      · rcases List.mem_append.1 hp with hold | hnew
        · exact h.grants p hold
        · rw [List.mem_singleton.1 hnew]
          exact ⟨rfl, (tryGrant_keeps sv org wsp).bind fun c _ hc => .done hc⟩
      · rw [List.map_append]
        exact .ask rfl
  | pass =>
      simp only [Desk.next]
      split
      · next hended =>
          obtain ⟨-, since, ls, rfl, -⟩ := h.reaper.ended hended
          exact ⟨_, ps, ⟨rfl, reapOnce_keeps sv, h.clerks, h.grants⟩, .refl⟩
      · exact ⟨rc, ps, h, .refl⟩
  | grantTurn i =>
      obtain ⟨ps', h'⟩ := h.grantTurn sv i hok
      exact ⟨rc, ps', h'⟩
  | reaperTurn =>
      obtain ⟨rc', h'⟩ := h.reaperTurn sv hok
      exact ⟨rc', ps, h'⟩

theorem plans_start (w : World) : Plans { world := w } (.reaping w.now []) [] :=
  ⟨rfl, .done ⟨w.now, [], rfl, List.suffix_rfl⟩, rfl, nofun⟩

theorem Plans.ended (h : s.Plans rc ps) {t : Clerk} (ht : t ∈ s.reaper :: s.grants) (hended : t.prog.ended = true) :
    t.owed = 0 := by
  rcases List.mem_cons.1 ht with rfl | ht
  · obtain ⟨-, since, ls, rfl, -⟩ := h.reaper.ended hended
    exact h.owed
  · rw [h.clerks] at ht
    obtain ⟨p, hp, rfl⟩ := List.mem_map.1 ht
    obtain ⟨_, hg⟩ := (h.grants p hp).follows.ended hended
    rw [(h.grants p hp).owed, hg]
    rfl

/-- The goroutines keep to their plans, and together they keep the books. -/
def Kept (s : Desk) : Prop :=
  ∃ rc ps, s.Plans rc ps ∧ Books (leasesOf s.world) (usageOf s.world) (standing s.world) rc (ps.map (·.2))

theorem Kept.next (h : s.Kept) (sv : Server) {e : DeskEvent} (hok : s.succeeds e = true) : (s.next sv e).Kept := by
  obtain ⟨rc, ps, hp, hb⟩ := h
  obtain ⟨rc', ps', hp', hm⟩ := hp.next sv hok
  exact ⟨rc', ps', hp', hm.books hb⟩

theorem Kept.settled (h : s.Kept) (hq : s.Quiet) : Settled s.world.db := by
  obtain ⟨rc, ps, hp, hb⟩ := h
  refine hb.settled (hp.owed ▸ hq.1) fun g hg => ?_
  obtain ⟨p, hpm, rfl⟩ := List.mem_map.1 hg
  rw [← (hp.grants p hpm).owed]
  exact hq.2 _ (hp.clerks ▸ List.mem_map_of_mem hpm)

end Desk

/-- In every run of grants and of one reaper in which the statements succeed, every lease agrees with its
worker and with its usage events whenever no grant and no revocation is in progress; a goroutine that has
ended has none in progress. -/
theorem lease_ledger (sv : Server) (w : World) (es : List DeskEvent) (hstart : Settled w.db)
    (hok : Runs.Meets (Desk.next sv) (fun s e => s.succeeds e = true) { world := w } es) :
    Runs.Always (Desk.next sv)
      (fun s => (s.Quiet → Settled s.world.db) ∧ ∀ t ∈ s.reaper :: s.grants, t.prog.ended = true → t.owed = 0)
      { world := w } es := by
  have hall : Runs.Always (Desk.next sv) Desk.Kept { world := w } es :=
    Runs.always_of_meets (fun s e h hc => h.next sv hc) ⟨_, _, Desk.plans_start w, hstart.books w.now⟩ hok
  refine hall.mono fun s h => ⟨h.settled, fun t ht => ?_⟩
  obtain ⟨rc, ps, hp, -⟩ := h
  exact hp.ended ht

/-- Without leases and usage events there is nothing to disagree. -/
theorem settled_of_empty {s : Store} (hl : (s .lease).rows = []) (hu : (s .usageEvent).rows = []) : Settled s where
  named l hmem := by rw [hl] at hmem; cases hmem
  agrees l hmem := by rw [hl] at hmem; cases hmem
  apart := by rw [hl]; exact List.nodup_nil
  known u hmem := by rw [hu] at hmem; cases hmem

namespace Sample

/-- Two grants at once, and a pass after their leases have expired. -/
def shift : List DeskEvent :=
  [.request "org_a" "wsp_a", .request "org_a" "wsp_a"] ++ (List.replicate 18 [.grantTurn 0, .grantTurn 1]).flatten ++
    [.elapse (15000 * 1000000000), .pass] ++ List.replicate 48 .reaperTurn

end Sample

theorem lease_ledger_sample :
    Runs.Always (Desk.next {})
      (fun s => (s.Quiet → Settled s.world.db) ∧ ∀ t ∈ s.reaper :: s.grants, t.prog.ended = true → t.owed = 0)
      { world := Sample.world } Sample.shift :=
  lease_ledger {} Sample.world Sample.shift (settled_of_empty (by decide +kernel) (by decide +kernel)) (by decide +kernel)

end Apifor
