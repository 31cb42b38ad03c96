import Apifor.Theorems.Dunning
import Apifor.Lib.Interleave
import Apifor.Lib.Runs

/-!
# Payments during a pass of the reaper

The reaper reads the orgs whose grace is over, and then downgrades them one after the other. Between
its statements the other goroutines take their turns. An org that they bring out of its arrears in the
meantime is downgraded nevertheless.
-/

namespace Apifor

variable {o : Id} {orgs : List Id} {s s' : Store} {w w' : World}

/-! ## The reaper among other goroutines -/

/-- How far a pass is: it first reads, and then downgrades each org it has listed by two statements.
`mid` says that the first org that is left has lost its plan already. -/
inductive Progress
  | unread
  | left (orgs : List Id) (mid : Bool)

namespace Progress

def next (w : World) : Progress → Progress
  | .unread => .left (expired w.now w.db) false
  | .left [] mid => .left [] mid
  | .left (o :: orgs) false => .left (o :: orgs) true
  | .left (_ :: orgs) true => .left orgs false

def listed : Progress → List Id
  | .unread => []
  | .left orgs _ => orgs

/-- The org is in the middle of a downgrade, and is listed once more. -/
def Again (o : Id) (g : Progress) : Prop := ∃ orgs, g = .left (o :: orgs) true ∧ o ∈ orgs

end Progress

/-- The reaper's pass among other goroutines. -/
structure Passing where
  pool : Pool World DbErr
  reaper : Cmd Unit := .done ()
  progress : Progress := .left [] false

inductive Turn
  | tick (d : Nat)
  | spawn (c : Cmd Unit)
  | run (i : Nat)
  | start
  | reap

/-- The org is on the free plan, if it exists. -/
def OnFree (s : Store) (o : Id) : Prop := ∀ p, DB.planOf s o = some p → p = .free

/-- The org is on the free plan, and its subscriptions have ended. -/
structure Downgraded (s : Store) (o : Id) : Prop where
  plan : OnFree s o
  subs : ∀ b ∈ subsOf s o, b.plan = .free ∧ b.status = .canceled ∧ b.graceUntil = none

/-- A downgrade of the org is due, or is no news. -/
def Due (w : World) (o : Id) : Prop := Overdue w.now w.db o ∨ Downgraded w.db o

namespace Passing

abbrev world (p : Passing) : World := p.pool.shared

def next (sv : Server) (p : Passing) : Turn → Passing
  | .tick d => { p with pool := { p.pool with shared := { p.world with now := p.world.now + d } } }
  | .spawn c => { p with pool := p.pool.spawn c }
  | .run i => { p with pool := p.pool.turn i }
  | .start => if p.reaper.ended then { p with reaper := sv.reapOnce, progress := .unread } else p
  | .reap =>
      { pool := { p.pool with shared := (p.reaper.tick p.world).1 }, reaper := (p.reaper.tick p.world).2,
        progress := p.progress.next p.world }

/-- A statement of the reaper changes the plan and the subscriptions of overdue orgs only. -/
def Rightful (sv : Server) (p : Passing) (t : Turn) : Prop :=
  t = .reap → ∀ o, Overdue p.world.now p.world.db o ∨ SameBill o p.world.db (p.next sv t).world.db

/-- A turn of another goroutine takes no listed org out of its arrears, and gives no new plan to one
that is in the middle of a downgrade and will be downgraded once more. -/
structure Careful (sv : Server) (p : Passing) (t : Turn) : Prop where
  due : ∀ i, t = .run i → ∀ o ∈ p.progress.listed, Due p.world o → Due (p.next sv t).world o
  again : ∀ i, t = .run i → ∀ o, p.progress.Again o → OnFree p.world.db o → OnFree (p.next sv t).world.db o

end Passing

/-! ## Statements -/

theorem key_canceled (b : Subscription) :
    key .subscription { b with plan := .free, status := .canceled, graceUntil := none } = key .subscription b := rfl

theorem id_canceled (b : Subscription) :
    ({ b with plan := .free, status := .canceled, graceUntil := none } : Subscription).id = b.id := rfl

/-- The second statement of `DowngradeToFree`. -/
def cancelSubs (org : Id) : Cmd (Except DbErr Unit) :=
  exec "DowngradeToFree (subscription)" fun _ s =>
    (update .all .subscription (fun b => decide (b.orgId = org))
      (fun b => { b with plan := .free, status := .canceled, graceUntil := none }) s key_canceled).map
      fun r => (r.1, ())

/-- The store after `cancelSubs`. -/
def Store.cancelSubs (s : Store) (org : Id) : Store :=
  s.setSubs org (fun b => { b with plan := .free, status := .canceled, graceUntil := none }) id_canceled

/-- The rest of a pass, from its first org on. -/
def downgrades (orgs : List Id) (k : Unit → Cmd Unit) : Cmd Unit := (Server.downgradeAll orgs).bind k

/-- The rest of a pass that has taken the plan from an org. -/
def cancels (org : Id) (orgs : List Id) (k : Unit → Cmd Unit) : Cmd Unit :=
  (cancelSubs org).bind fun _ => downgrades orgs k

variable {org : Id} {k : Unit → Cmd Unit}

theorem tick_exec_bind {α β : Type} {n : String} {f : Time → Store → Except DbErr (Store × α)} {x : α}
    (g : Except DbErr α → Cmd β) (h : f w.now w.db = .ok (s', x)) :
    ((exec n f).bind g).tick w = ({ w with db := s' }, g (.ok x)) := by
  rw [exec, Prog.tick_attempt_bind]
  simp only [Prog.settle, h, Except.map]

theorem downgrades_cons :
    downgrades (org :: orgs) k =
      (exec "DowngradeToFree (org)" fun _ s => (DB.setOrgPlan org .free s).map fun s => (s, ())).bind fun
        | .error _ => downgrades orgs k
        | .ok () => cancels org orgs k := by
  simp only [downgrades, Server.downgradeAll, DB.downgradeToFree, Prog.bind_def, Prog.bind_assoc]
  refine congrArg (Prog.bind _) (funext fun res => ?_)
  cases res <;> rfl

theorem tick_downgrades :
    (downgrades (org :: orgs) k).tick w = ({ w with db := w.db.setPlan org .free }, cancels org orgs k) := by
  rw [downgrades_cons]
  exact tick_exec_bind (x := ()) _ (by rw [setOrgPlan_eq]; rfl)

theorem tick_cancels :
    (cancels org orgs k).tick w =
      ({ w with db := w.db.cancelSubs org }, downgrades orgs k) := by
  have hsubs := @updateSubs_eq org w.db
    (fun b => { b with plan := .free, status := .canceled, graceUntil := none }) (fun _ => rfl) (fun _ => rfl) fun _ => rfl
  refine tick_exec_bind (x := ()) (fun _ => downgrades orgs k) ?_
  rw [hsubs]
  rfl

theorem tick_reapOnce (sv : Server) (w : World) :
    sv.reapOnce.tick w = (w, downgrades (expired w.now w.db) fun _ => leases sv) := rfl

/-! ## Downgrades that are due -/

theorem Due.congr (h : Due w o) (hn : w.now ≤ w'.now) (hp : DB.planOf w'.db o = DB.planOf w.db o)
    (hs : subsOf w'.db o = subsOf w.db o) : Due w' o := by
  rcases h with ⟨b, hb, hst, g, hg, hlt⟩ | ⟨hplan, hsubs⟩
  · exact .inl ⟨b, by rwa [hs], hst, g, hg, Int.lt_of_lt_of_le hlt hn⟩
  · exact .inr ⟨fun p hpl => hplan p (hp ▸ hpl), by rwa [hs]⟩

theorem OnFree.setPlan : OnFree (s.setPlan org .free) org := fun p hp => by
  rw [planOf_setPlan, if_pos rfl, Option.map_eq_some_iff] at hp
  obtain ⟨-, -, rfl⟩ := hp
  rfl

theorem Due.setPlan (h : Due w o) : Due { w with db := w.db.setPlan org .free } o := by
  by_cases ho : o = org
  · subst ho
    rcases h with ⟨b, hb, hd⟩ | ⟨-, hsubs⟩
    · exact .inl ⟨b, by rwa [subsOf_setPlan], hd⟩
    · exact .inr ⟨OnFree.setPlan, by rwa [subsOf_setPlan]⟩
  · exact h.congr (Int.le_refl _) (by rw [planOf_setPlan, if_neg ho]) (subsOf_setPlan _)

theorem planOf_cancelSubs : DB.planOf (s.cancelSubs org) o = DB.planOf s o := by rw [Store.cancelSubs, planOf_setSubs]

theorem subsOf_cancelSubs :
    subsOf (s.cancelSubs org) o = if o = org then
      (subsOf s o).map fun b => { b with plan := .free, status := .canceled, graceUntil := none } else subsOf s o := by
  rw [Store.cancelSubs, subsOf_setSubs]
  exact fun _ => rfl

theorem SameBill.cancelSubs (h : o ≠ org) : SameBill o s (s.cancelSubs org) :=
  ⟨fun p hp => by rwa [planOf_cancelSubs], by rw [subsOf_cancelSubs, if_neg h]⟩

theorem Downgraded.cancelSubs (h : OnFree s org) : Downgraded (s.cancelSubs org) org := by
  refine ⟨fun p hp => h p (by rwa [planOf_cancelSubs] at hp), fun b hb => ?_⟩
  rw [subsOf_cancelSubs, if_pos rfl] at hb
  obtain ⟨b', -, rfl⟩ := List.mem_map.1 hb
  exact ⟨rfl, rfl, rfl⟩

/-- A downgrade that is no news changes nothing. -/
theorem Downgraded.same_setPlan (h : Downgraded s org) : SameBill org s (s.setPlan org .free) :=
  ⟨fun p hp => by rw [planOf_setPlan, if_pos rfl, hp, h.plan p hp]; rfl, subsOf_setPlan _⟩

theorem Downgraded.same_cancelSubs (h : Downgraded s org) : SameBill org s (s.cancelSubs org) := by
  refine ⟨fun p hp => by rwa [planOf_cancelSubs], ?_⟩
  rw [subsOf_cancelSubs, if_pos rfl]
  refine (List.map_congr_left fun b hb => ?_).trans (List.map_id _)
  obtain ⟨hp, hst, hg⟩ := h.subs b hb
  cases b
  cases hp
  cases hst
  cases hg
  rfl

/-! ## The invariant -/

/-- What is left of a pass, by how far it is; the downgrades that it still makes are due. -/
inductive Stage (sv : Server) (w : World) : Cmd Unit → Progress → Prop
  | idle {c : Cmd Unit} {mid : Bool} (hc : ∀ o, Unbilled o c) : Stage sv w c (.left [] mid)
  | start : Stage sv w sv.reapOnce .unread
  | loop {orgs : List Id} (hdue : ∀ o ∈ orgs, Due w o) :
      Stage sv w (downgrades orgs fun _ => leases sv) (.left orgs false)
  | half {org : Id} {orgs : List Id} (hdue : ∀ o ∈ org :: orgs, Due w o) (hfree : org ∈ orgs → OnFree w.db org) :
      Stage sv w (cancels org orgs fun _ => leases sv) (.left (org :: orgs) true)

theorem Stage.mono {sv : Server} {c : Cmd Unit} {g : Progress} (h : Stage sv w c g)
    (hdue : ∀ o ∈ g.listed, Due w o → Due w' o) (hfree : ∀ o, g.Again o → OnFree w.db o → OnFree w'.db o) :
    Stage sv w' c g := by
  cases h with
  | idle hc => exact .idle hc
  | start => exact .start
  | loop hd => exact .loop fun o ho => hdue o ho (hd o ho)
  | half hd hf => exact .half (fun o ho => hdue o ho (hd o ho)) fun ho => hfree _ ⟨_, rfl, ho⟩ (hf ho)

/-- A turn of the reaper goes on to the next stage. -/
theorem Stage.tick {sv : Server} {c : Cmd Unit} {g : Progress} (h : Stage sv w c g) :
    Stage sv (c.tick w).1 (c.tick w).2 (g.next w) := by
  cases h with
  | idle hc => exact .idle fun o => (hc o).tick w
  | start =>
      rw [tick_reapOnce]
      exact .loop fun o ho => .inl (mem_expired.1 ho)
  | @loop orgs hd =>
      cases orgs with
      | nil => exact .idle fun o => (unbilled_leases sv).tick w
      | cons org orgs =>
          rw [tick_downgrades]
          exact .half (fun o ho => (hd o ho).setPlan) fun _ => OnFree.setPlan
  | @half org orgs hd hf =>
      rw [tick_cancels]
      refine .loop fun o ho => ?_
      by_cases heq : o = org
      · subst heq
        exact .inr (Downgraded.cancelSubs (hf ho))
      · refine (hd o (List.mem_cons_of_mem _ ho)).congr (Int.le_refl _) planOf_cancelSubs ?_
        rw [subsOf_cancelSubs, if_neg heq]

theorem Due.overdue_or (h : Due w o) (hsame : Downgraded w.db o → SameBill o w.db s') :
    Overdue w.now w.db o ∨ SameBill o w.db s' := h.imp id hsame

/-- A turn of the reaper changes the bill of overdue orgs only. -/
theorem Stage.rightful {sv : Server} {c : Cmd Unit} {g : Progress} (h : Stage sv w c g) (o : Id) :
    Overdue w.now w.db o ∨ SameBill o w.db (c.tick w).1.db := by
  have hunbilled : ∀ {c : Cmd Unit}, Unbilled o c → SameBill o w.db (c.tick w).1.db := fun hc =>
    hc.tick_rel (fun w => .refl o w.db) w
  cases h with
  | idle hc => exact .inr (hunbilled (hc o))
  | start =>
      rw [tick_reapOnce]
      exact .inr (.refl o w.db)
  | @loop orgs hd =>
      cases orgs with
      | nil => exact .inr (hunbilled (unbilled_leases sv))
      | cons org orgs =>
          rw [tick_downgrades]
          by_cases ho : o = org
          · subst ho
            exact (hd o List.mem_cons_self).overdue_or Downgraded.same_setPlan
          · exact .inr (.setPlan ho)
  | @half org orgs hd hf =>
      rw [tick_cancels]
      by_cases ho : o = org
      · subst ho
        exact (hd o List.mem_cons_self).overdue_or Downgraded.same_cancelSubs
      · exact .inr (.cancelSubs ho)

namespace Passing

variable {sv : Server} {p : Passing} {t : Turn}

def Staged (sv : Server) (p : Passing) : Prop := Stage sv p.world p.reaper p.progress

theorem Staged.next (h : Staged sv p) (hc : Careful sv p t) : Staged sv (p.next sv t) := by
  cases t with
  | tick d =>
      refine Stage.mono h (fun o _ hd => hd.congr ?_ rfl rfl) fun _ _ hf => hf
      exact Int.le_add_of_nonneg_right (Int.natCast_nonneg d)
  | spawn c => exact h
  | run i => exact Stage.mono h (hc.due i rfl) (hc.again i rfl)
  | start =>
      by_cases hend : p.reaper.ended = true
      · rw [Staged, Passing.next, if_pos hend]
        exact .start
      · rw [Passing.next, if_neg hend]
        exact h
  | reap => exact Stage.tick h

theorem Staged.rightful (h : Staged sv p) : Rightful sv p t := by
  rintro rfl o
  exact Stage.rightful h o

end Passing

/-! ## Runs -/

/-- In a run whose goroutines leave the listed orgs in their arrears until they are downgraded, the reaper
changes the plan and the subscriptions of overdue orgs only. -/
theorem payments_kept (sv : Server) (w : World) (ts : List Turn)
    (h : Runs.Meets (Passing.next sv) (Passing.Careful sv) { pool := ⟨w, []⟩ } ts) :
    Runs.Meets (Passing.next sv) (Passing.Rightful sv) { pool := ⟨w, []⟩ } ts :=
  Runs.meets_of_inv (P := Passing.Staged sv) (fun _ _ hs hc => hs.next hc) (fun _ _ hs _ => hs.rightful)
    (.idle fun _ => .done ()) h

/-! ## A payment that is lost -/

namespace Sample

/-- The grace of the sample org is over. -/
def overdue : World :=
  { db := (Store.ofRows (plans ++ rows ++
      [⟨.subscription, { id := "sub_a", orgId := "org_a", plan := .pro, status := .past_due, graceUntil := some 0 }⟩])).setPlan
        "org_a" .pro,
    now := 1 }

/-- The webhook handles the org's payment. -/
def payment : Cmd Unit :=
  (paying.webhook { method := "POST", path := "/v1/billing/webhook", signature := "t=0,v1=0a",
                    body := stripeBody "invoice.payment_succeeded" }).bind fun _ => .done ()

/-- The payment arrives after the reaper has listed the org. -/
def lostRun : List Turn := [.start, .reap, .spawn payment, .run 0, .run 0, .reap]

/-- The payment arrives once the org has been downgraded. -/
def lateRun : List Turn := [.start, .reap, .spawn payment, .run 0, .reap, .reap, .run 0]

end Sample

theorem Passing.not_rightful {sv : Server} {p : Passing} {q : OrgPlan}
    (h : o ∉ expired p.world.now p.world.db ∧ DB.planOf p.world.db o = some q ∧
      DB.planOf (p.next sv .reap).world.db o ≠ some q) : ¬ Rightful sv p .reap := by
  intro hright
  rcases hright rfl o with hdue | hsame
  · exact h.1 (mem_expired.2 hdue)
  · exact h.2.2 (hsame.plan q h.2.1)

theorem Passing.Careful.of_listed {sv : Server} {p : Passing} {t : Turn} (h : p.progress.listed = []) : Careful sv p t := by
  refine ⟨fun i _ o ho => ?_, fun i _ o ho => ?_⟩
  · rw [h] at ho
    cases ho
  · obtain ⟨orgs, hg, -⟩ := ho
    rw [hg] at h
    cases h

/-- The plan that has just been paid for is taken back. -/
theorem lost_payment :
    ¬ Runs.Meets (Passing.next {}) (Passing.Rightful {}) { pool := ⟨Sample.overdue, []⟩ } Sample.lostRun := by
  rintro ⟨-, -, -, -, -, hright, -⟩
  exact Passing.not_rightful (o := "org_a") (q := .pro) (by decide +kernel) hright

theorem payments_kept_sample :
    Runs.Meets (Passing.next {}) (Passing.Rightful {}) { pool := ⟨Sample.overdue, []⟩ } Sample.lateRun := by
  refine payments_kept {} Sample.overdue Sample.lateRun ⟨⟨nofun, nofun⟩, ⟨nofun, nofun⟩, ⟨nofun, nofun⟩, ⟨?_, ?_⟩,
    ⟨nofun, nofun⟩, ⟨nofun, nofun⟩, .of_listed (by decide +kernel), trivial⟩
  -- the webhook reads the clock first
  · intro i hi o _ hd
    cases hi
    exact hd
  · intro i hi o _ hf
    cases hi
    exact hf

end Apifor
