import Apifor.Lemmas.Handlers
import Apifor.Lib.Interleave
import Apifor.Lib.Runs

/-!
# The lease cap

`tryGrant` counts the active leases of the org, and inserts a new one some statements later. The cap
holds in the runs in which nobody else inserts a lease of the org between the two.
-/

namespace Apifor

variable {o : Id} {w w' : World} {α β : Type}

/-! ## The configuration of an org -/

/-- What `tryGrant` reads of the plan and the pool of an org. -/
structure Config where
  limits : Option DB.PlanLimits
  wsp : Id
  mode : Option String
  pinned : Int
  deriving DecidableEq

def configOf (s : Store) (o : Id) : Config :=
  let wsp := ((oldest (fun v => decide (v.orgId = o)) (s .workspace).rows).map (·.id)).getD demoWspID
  { limits := DB.planLimits s o
    wsp := wsp
    mode := (DB.poolRow s wsp).map DB.modeText
    pinned := (((s .pinnedWorker).rows.filter fun p =>
      decide (p.workspaceId = wsp) && p.settings.enabled.getD true).map (·.concurrency)).sum }

/-- The effective cap of `tryGrant`; `none` is no cap. -/
def Config.cap (C : Config) : Option Int :=
  C.limits.bind fun pl =>
    let capW :=
      if C.mode = some "pinned" then
        if Server.capWorkers pl < 0 ∨ C.pinned < Server.capWorkers pl then C.pinned else Server.capWorkers pl
      else Server.capWorkers pl
    if capW < 0 then none else some capW

/-! ## Lease requests among other goroutines -/

/-- A goroutine: the handler of a lease request of an org, or a pass of the reaper. `stale` says that
some other goroutine went on to insert a lease of the org since this one counted them. -/
structure Worker where
  org : Option Id
  prog : Cmd Unit
  stale : Bool := false

structure Granting where
  world : World
  workers : List Worker := []

inductive GrantTurn
  | tick (d : Nat)
  | request (st : Stream)
  | reap
  | run (i : Nat)

namespace Granting

/-- What a step of the `i`-th goroutine makes of the others. -/
def passed (t : Worker) (t' : Worker) : Worker :=
  { t' with stale := t'.stale || (decide (t'.org = t.org) && decide (t.prog.upcoming = some "GrantLease (lease)")) }

def ran (w : World) (t : Worker) : Worker :=
  { t with prog := (t.prog.tick w).2, stale := t.stale && !decide (t.prog.upcoming = some "ActiveLeaseCount") }

def next (sv : Server) (s : Granting) : GrantTurn → Granting
  | .tick d => { s with world := { s.world with now := s.world.now + d } }
  | .request st => { s with workers := s.workers ++ [{ org := some st.org, prog := sv.onLeaseRequest st }] }
  | .reap => { s with workers := s.workers ++ [{ org := none, prog := sv.reapOnce }] }
  | .run i =>
      match s.workers[i]? with
      | some t => { world := (t.prog.tick s.world).1, workers := (s.workers.map (passed t)).set i (ran s.world t) }
      | none => s

/-- The plan's limits and the pool's configuration of the org stay as they are. -/
def Fixed (sv : Server) (o : Id) (s : Granting) (e : GrantTurn) : Prop :=
  configOf (s.next sv e).world.db o = configOf s.world.db o

/-- A handler inserts a lease of the org only if nobody else did since it counted them. -/
def Timely (o : Id) (s : Granting) (e : GrantTurn) : Prop :=
  ∀ i t, e = .run i → s.workers[i]? = some t → t.org = some o → t.prog.upcoming = some "GrantLease (lease)" →
    t.stale = false

instance (sv : Server) (o : Id) (s : Granting) (e : GrantTurn) : Decidable (Fixed sv o s e) :=
  inferInstanceAs (Decidable (_ = _))

instance (o : Id) (s : Granting) : (e : GrantTurn) → Decidable (Timely o s e)
  | .run i =>
      match hi : s.workers[i]? with
      | none => .isTrue fun j t hj ht => by cases hj; rw [hi] at ht; cases ht
      | some t =>
          if h : t.org = some o ∧ t.prog.upcoming = some "GrantLease (lease)" ∧ t.stale = true then
            .isFalse fun hall => by
              have hfresh := hall i t rfl hi h.1 h.2.1
              rw [h.2.2] at hfresh
              cases hfresh
          else
            .isTrue fun j t' hj ht ho hup => by
              cases hj
              rw [hi] at ht
              cases ht
              exact Bool.eq_false_iff.2 fun hst => h ⟨ho, hup, hst⟩
  | .tick _ => .isTrue nofun
  | .request _ => .isTrue nofun
  | .reap => .isTrue nofun

def activeCount (w : World) (o : Id) : Int := (DB.activeLeases w.db o).length

end Granting

/-! ## What a step does to the active leases -/

/-- No lease of the org becomes active. -/
def NoGain (o : Id) (w w' : World) : Prop := Granting.activeCount w' o ≤ Granting.activeCount w o

theorem NoGain.refl (o : Id) (w : World) : NoGain o w w := Int.le_refl _

theorem NoGain.of_eq (h : w'.db .lease = w.db .lease) : NoGain o w w' := by
  have hcount : Granting.activeCount w' o = Granting.activeCount w o := by
    rw [Granting.activeCount, Granting.activeCount, DB.activeLeases, DB.activeLeases, h]
  exact Int.le_of_eq hcount

/-- No step of the program makes a lease of the org active. -/
abbrev Calm (o : Id) (c : Cmd α) : Prop := Prog.Each (NoGain o) c

theorem Calm.of_within {T : Tbl → Bool} {K : Id → Envelope → Prop} {c : Cmd α} (hT : T .lease = false)
    (h : Within T K c) : Calm o c :=
  Prog.Each.mono (fun _ _ hf => .of_eq (Table.ext (hf.foot.db.rows_eq hT fun _ => rfl))) h

theorem Calm.of_readOnly {c : Cmd α} (h : DB.ReadOnly c) : Calm o c := h.steps.mono fun _ _ heq => heq ▸ .refl o _

/-- An update that revives no lease. -/
theorem calm_update {n : String} {p : Time → Lease → Bool} {f : Time → Lease → Lease}
    {hf : ∀ now l, key .lease (f now l) = key .lease l}
    (h : ∀ now l, (f now l).orgId = l.orgId ∧ ((f now l).endedAt = none → l.endedAt = none)) :
    Calm o (exec n fun now s => (update .all .lease (p now) (f now) s (hf now)).map fun r => (r.1, ())) :=
  each_exec fun w s' a hs => by
    obtain ⟨⟨s'', n⟩, hu, heq⟩ := map_eq_ok hs
    cases heq
    simp only [update] at hu
    split_ifs at hu
    cases hu
    refine Int.ofNat_le.2 ?_
    dsimp only [DB.activeLeases]
    rw [Store.set_same]
    refine Table.length_filter_update_le fun l hl => ?_
    simp only [decide_eq_true_eq] at hl ⊢
    exact ⟨(h _ l).1 ▸ hl.1, (h _ l).2 hl.2⟩

theorem rounds_calm : Server.Rounds (NoGain o) where
  ledger hc := Calm.of_within rfl hc
  endLease id reason := calm_update (p := fun _ l => decide (l.id = id ∧ l.endedAt = none))
    (f := fun now l => { l with endedAt := some now, endReason := some reason }) fun _ _ => ⟨rfl, nofun⟩
  renewLease id ttl := Prog.Each.bind (Calm.of_within (T := fun _ => false) (K := fun _ _ => True) rfl .timeNow) fun now =>
    calm_update (p := fun _ l => decide (l.id = id)) (f := fun _ l => { l with expiresAt := some (now + ttl * second) })
      fun _ _ => ⟨rfl, fun h => h⟩

theorem reapOnce_calm (sv : Server) : Calm o sv.reapOnce :=
  rounds_calm.reapOnce (Calm.of_within (K := fun _ _ => True) rfl Server.dunning_within) sv

/-- A statement that inserts a lease makes at most one lease of the org active. -/
theorem activeCount_insert {sc : Scope} {l : Lease} {s' : Store} (h : insert sc .lease l w.db = .ok s') :
    Granting.activeCount { w with db := s' } o ≤ Granting.activeCount w o + 1 := by
  rw [Granting.activeCount, Granting.activeCount, DB.activeLeases, insert_rows h, List.filter_cons]
  split
  · exact Int.le_refl _
  · exact Int.le_add_of_nonneg_right (by decide)

/-! ## Phases of a lease request -/

/-- The program inserts at most one lease of the org, and does not count them again before. -/
inductive Armed (o : Id) : Cmd α → Prop
  | calm {p : Cmd α} (h : Calm o p) : Armed o p
  | act {γ : Type} {f : World → World × γ} {k : γ → Cmd α} (h : ∀ w, NoGain o w (f w).1) (hk : ∀ x, Armed o (k x)) :
      Armed o (.act f k)
  | stmt {γ : Type} {n : String} {f : World → Except DbErr (World × γ)} {k : Except DbErr γ → Cmd α}
      (hn : n ≠ "ActiveLeaseCount") (h : ∀ w w' x, f w = .ok (w', x) → NoGain o w w') (hk : ∀ x, Armed o (k x)) :
      Armed o (.stmt n f k)
  | grant {γ : Type} {f : World → Except DbErr (World × γ)} {k : Except DbErr γ → Cmd α}
      (h : ∀ w w' x, f w = .ok (w', x) → Granting.activeCount w' o ≤ Granting.activeCount w o + 1)
      (hk : ∀ x, Calm o (k x)) : Armed o (.stmt "GrantLease (lease)" f k)

/-- The program counts the leases of the org before it inserts one; under the cap `c` it inserts none
when it has counted `c` of them. -/
inductive Counting (C : Config) (o : Id) (c : Int) : Cmd α → Prop
  | calm {p : Cmd α} (h : Calm o p) : Counting C o c p
  | act {γ : Type} {f : World → World × γ} {k : γ → Cmd α} (h : ∀ w, (f w).1 = w) (hk : ∀ x, Counting C o c (k x)) :
      Counting C o c (.act f k)
  | read {γ : Type} {n : String} {f : World → Except DbErr (World × γ)} {k : Except DbErr γ → Cmd α}
      (h : ∀ w w' x, f w = .ok (w', x) → w' = w)
      (hk : ∀ w, configOf w.db o = C → Counting C o c (k (Prog.settle f w).2)) : Counting C o c (.stmt n f k)
  | count {f : World → Except DbErr (World × Int)} {k : Except DbErr Int → Cmd α}
      (h : ∀ w, f w = .ok (w, Granting.activeCount w o))
      (hroom : ∀ m, m < c → Armed o (k (.ok m))) (hfull : ∀ m, c ≤ m → Calm o (k (.ok m))) :
      Counting C o c (.stmt "ActiveLeaseCount" f k)

section Phases

variable {C : Config} {c : Int}

theorem Armed.bind_calm {p : Cmd α} {g : α → Cmd β} (h : Armed o p) (hg : ∀ x, Calm o (g x)) : Armed o (p.bind g) := by
  induction h with
  | calm h => exact .calm (h.bind hg)
  | act h _ ih => exact .act h ih
  | stmt hn h _ ih => exact .stmt hn h ih
  | grant h hk => exact .grant h fun x => (hk x).bind hg

theorem Counting.bind_calm {p : Cmd α} {g : α → Cmd β} (h : Counting C o c p) (hg : ∀ x, Calm o (g x)) :
    Counting C o c (p.bind g) := by
  induction h with
  | calm h => exact .calm (h.bind hg)
  | act h _ ih => exact .act h ih
  | read h _ ih => exact .read h ih
  | count h hroom hfull => exact .count h (fun m hm => (hroom m hm).bind_calm hg) fun m hm => (hfull m hm).bind hg

theorem Counting.query {γ : Type} {n : String} {f : Time → Store → Except DbErr γ} {g : Except DbErr γ → Cmd α}
    (hg : ∀ w : World, configOf w.db o = C → Counting C o c (g (f w.now w.db))) : Counting C o c ((Apifor.query n f).bind g) := by
  refine .read (fun w w' x hx => ?_) fun w hw => ?_
  · obtain ⟨y, -, heq⟩ := map_eq_ok hx
    cases heq
    rfl
  · have hset : (Prog.settle (fun w => (f w.now w.db).map fun a => (w, a)) w).2 = f w.now w.db := by
      unfold Prog.settle
      cases hf : f w.now w.db <;> simp [hf, Except.map]
    rw [hset]
    exact hg w hw

theorem Counting.firstWorkspace {g : Id → Cmd α} (hg : Counting C o c (g C.wsp)) :
    Counting C o c ((DB.firstWorkspace o).bind g) := by
  rw [DB.firstWorkspace, Prog.bind_def, Prog.bind_assoc]
  refine Counting.query fun w hw => ?_
  subst hw
  cases hx : (oldest (fun v => decide (v.orgId = o)) (w.db .workspace).rows).map (·.id) with
  | none =>
      have hwsp : (configOf w.db o).wsp = demoWspID := by simp [configOf, hx]
      rwa [hwsp] at hg
  | some id =>
      have hwsp : (configOf w.db o).wsp = id := by simp [configOf, hx]
      rwa [hwsp] at hg

theorem Counting.poolMode {g : String → Cmd α} (hg : ∀ m, (m = "pinned" ↔ C.mode = some "pinned") → Counting C o c (g m)) :
    Counting C o c ((DB.poolMode o).bind g) := by
  simp only [DB.poolMode, Prog.bind_def, Prog.bind_assoc]
  refine Counting.firstWorkspace (Counting.query fun w hw => ?_)
  have hmode : C.mode = (DB.poolRow w.db C.wsp).map DB.modeText := by rw [← hw]; rfl
  cases hx : DB.poolRow w.db C.wsp with
  | none =>
      rw [hx] at hmode
      exact hg "pool" (by simp [hmode])
  | some r =>
      rw [hx] at hmode
      refine hg (if DB.modeText r = "" then "pool" else DB.modeText r) ?_
      rw [hmode]
      by_cases hm : DB.modeText r = ""
      · simp [hm]
      · simp [hm]

theorem Counting.pinnedConcurrency {g : Int → Cmd α} (hg : Counting C o c (g C.pinned)) :
    Counting C o c ((DB.pinnedConcurrency o).bind g) := by
  simp only [DB.pinnedConcurrency, Prog.bind_def, Prog.bind_assoc]
  refine Counting.firstWorkspace (Counting.query fun w hw => ?_)
  subst hw
  exact hg

theorem Counting.of_each {p : Cmd β} {g : β → Cmd α} (hp : Prog.Each Eq p) (hg : ∀ x, Counting C o c (g x)) :
    Counting C o c (p.bind g) := by
  induction hp with
  | done x => exact hg x
  | crash => exact .calm .crash
  | act h _ ih => exact .act (fun w => (h w).symm) ih
  | stmt h _ ih => exact .read (fun w w' x hx => (h w w' x hx).symm) fun w _ => ih _

theorem armed_newID {pre : String} {g : Id → Cmd α} (hg : ∀ i, Armed o (g i)) : Armed o ((newID pre).bind g) :=
  .act (fun _ => .of_eq rfl) hg

theorem armed_timeNow {g : Time → Cmd α} (hg : ∀ t, Armed o (g t)) : Armed o (timeNow.bind g) :=
  .act (fun _ => .of_eq rfl) hg

theorem armed_query {γ : Type} {n : String} {f : Time → Store → Except DbErr γ} {g : Except DbErr γ → Cmd α}
    (hn : n ≠ "ActiveLeaseCount") (hg : ∀ r, Armed o (g r)) : Armed o ((query n f).bind g) := by
  refine .stmt hn (fun w w' x hx => ?_) hg
  obtain ⟨y, -, heq⟩ := map_eq_ok hx
  cases heq
  exact .refl o w

theorem armed_insert {n : String} {t : Tbl} {r : Time → Row t} {g : Except DbErr Unit → Cmd α}
    (hn : n ≠ "ActiveLeaseCount") (ht : Tbl.lease ≠ t) (hg : ∀ x, Armed o (g x)) :
    Armed o ((DB.insertRow n t r).bind g) := by
  refine .stmt hn (fun w w' x hx => ?_) hg
  obtain ⟨y, hy, heq⟩ := map_eq_ok hx
  cases heq
  obtain ⟨s', hi, heq⟩ := map_eq_ok hy
  cases heq
  exact .of_eq (insert_other hi ht)

theorem armed_lease {l : Time → Lease} {g : Except DbErr Unit → Cmd α} (hg : ∀ x, Calm o (g x)) :
    Armed o ((DB.insertRow "GrantLease (lease)" .lease l).bind g) := by
  refine .grant (fun w w' x hx => ?_) hg
  obtain ⟨y, hy, heq⟩ := map_eq_ok hx
  cases heq
  obtain ⟨s', hi, heq⟩ := map_eq_ok hy
  cases heq
  exact activeCount_insert hi

theorem armed_grantLease (wsp : Id) (ttl : Int) (auto : Bool) : Armed o (DB.grantLease o wsp ttl auto) := by
  refine armed_newID fun worker => armed_insert (by decide) (by decide) fun r => ?_
  cases r with
  | error e => exact .calm (.done _)
  | ok _ =>
      refine armed_newID fun lease => armed_timeNow fun now => armed_lease fun r => ?_
      cases r with
      | error e => exact .done _
      | ok _ =>
          refine Prog.Each.bind (Calm.of_within (T := fun t => t == .workerInstance) (K := fun _ _ => True) rfl <|
            Within.execUpdate (t := .workerInstance) (p := fun _ w => decide (w.id = worker))
              (f := fun _ w => { w with leaseId := some lease }) (fun _ _ => rfl) rfl) fun r => ?_
          cases r <;> exact .done _

theorem armed_grant (sv : Server) (wsp : Id) (pl : DB.PlanLimits) : Armed o (sv.grant o wsp pl) := by
  refine Armed.bind_calm (armed_grantLease _ _ _) fun r => ?_
  cases r with
  | error e => exact .done _
  | ok g =>
      exact Calm.of_within (T := fun t => t == .usageEvent) (K := fun _ _ => True) rfl <|
        Within.bind (DB.recordUsage_within rfl) fun _ => Within.bind (DB.recordUsage_within rfl) fun _ => .done _

theorem armed_grantInHours (sv : Server) (wsp : Id) (pl : DB.PlanLimits) : Armed o (sv.grantInHours o wsp pl) := by
  unfold Server.grantInHours
  dsimp only
  split
  · simp only [DB.weekSecondsUsed, Prog.bind_def, Prog.bind_assoc]
    refine armed_query (by decide) fun r => ?_
    have htail : ∀ n : Int, Armed o (if n ≥ sv.cfg.capSec (some pl) then .done (.error "hours_cap") else sv.grant o wsp pl) := by
      intro n
      split
      · exact .calm (.done _)
      · exact armed_grant sv wsp pl
    cases r <;> exact htail _
  · exact armed_grant sv wsp pl

theorem Config.cap_eq {pl : DB.PlanLimits} (hpl : C.limits = some pl) (hc : C.cap = some c) :
    0 ≤ c ∧ c = if C.mode = some "pinned" then
      if Server.capWorkers pl < 0 ∨ C.pinned < Server.capWorkers pl then C.pinned else Server.capWorkers pl
      else Server.capWorkers pl := by
  rw [Config.cap, hpl, Option.bind_some] at hc
  dsimp only at hc
  generalize (if C.mode = some "pinned" then
    if Server.capWorkers pl < 0 ∨ C.pinned < Server.capWorkers pl then C.pinned else Server.capWorkers pl
    else Server.capWorkers pl) = capW at hc ⊢
  split at hc
  · cases hc
  · next hneg =>
      cases hc
      exact ⟨Int.not_lt.1 hneg, rfl⟩

theorem Counting.effectiveCap {pl : DB.PlanLimits} {g : Int → Cmd α} (hpl : C.limits = some pl) (hc : C.cap = some c)
    (hg : Counting C o c (g c)) : Counting C o c ((Server.effectiveCap o pl).bind g) := by
  have hcap := (Config.cap_eq hpl hc).2
  simp only [Server.effectiveCap, Prog.bind_def, Prog.bind_assoc]
  refine Counting.poolMode fun m hm => ?_
  by_cases hp : m = "pinned"
  · rw [if_pos (hm.1 hp)] at hcap
    rw [if_pos hp, Prog.bind_assoc]
    refine Counting.pinnedConcurrency ?_
    rwa [← hcap]
  · rw [if_neg fun h => hp (hm.2 h)] at hcap
    rw [if_neg hp, ← hcap]
    exact hg

theorem Counting.activeLeaseCount {g : Int → Cmd α} (hroom : ∀ m, m < c → Armed o (g m))
    (hfull : ∀ m, c ≤ m → Calm o (g m)) : Counting C o c ((DB.activeLeaseCount o).bind g) :=
  .count (fun _ => rfl) hroom hfull

theorem Counting.tryGrant (sv : Server) (wsp : Id) (hc : C.cap = some c) : Counting C o c (sv.tryGrant o wsp) := by
  refine Counting.of_each (DB.readOnly_poolFlag _ _).steps fun paused => ?_
  split
  · exact .calm (.done _)
  · refine Counting.query (f := fun _ s => .ok (DB.planLimits s o)) fun w hw => ?_
    have hlim : DB.planLimits w.db o = C.limits := by rw [← hw]; rfl
    rw [hlim]
    cases hpl : C.limits with
    | none => exact .calm (.done _)
    | some pl =>
        refine Counting.effectiveCap hpl hc ?_
        rw [if_pos (Config.cap_eq hpl hc).1]
        refine Counting.activeLeaseCount (fun m hm => ?_) fun m hm => ?_
        · rw [if_neg (Int.not_le.2 hm)]
          exact armed_grantInHours sv wsp pl
        · rw [if_pos hm]
          exact .done _

theorem calm_streamSend (st : Stream) (env : Envelope) : Calm o (streamSend st env) :=
  Calm.of_within (T := fun _ => false) (K := fun _ _ => True) rfl (.streamSend trivial)

theorem Counting.onLeaseRequest (sv : Server) {st : Stream} (ho : st.org = o) (hc : C.cap = some c) :
    Counting C o c (sv.onLeaseRequest st) := by
  refine Counting.bind_calm (ho ▸ Counting.tryGrant sv _ hc) fun r => ?_
  cases r <;> exact calm_streamSend _ _

/-- A request of another org inserts no lease of this one. -/
theorem calm_grantLease {org wsp : Id} {ttl : Int} {auto : Bool} (h : org ≠ o) : Calm o (DB.grantLease org wsp ttl auto) := by
  have hquiet : ∀ {γ : Type} {p : Cmd γ}, Within (fun t => t == .workerInstance) (fun _ _ => True) p → Calm o p :=
    fun hp => Calm.of_within rfl hp
  refine Prog.Each.bind (hquiet (.newID _)) fun worker => Prog.Each.bind (hquiet (DB.insertRow_within rfl)) fun r => ?_
  cases r with
  | error e => exact .done _
  | ok _ =>
      refine Prog.Each.bind (hquiet (.newID _)) fun lease => Prog.Each.bind (hquiet .timeNow) fun now => ?_
      refine Prog.Each.bind (each_exec fun w s' x hs => ?_) fun r => ?_
      · obtain ⟨s1, hi, heq⟩ := map_eq_ok hs
        cases heq
        have hcount : Granting.activeCount { w with db := s' } o = Granting.activeCount w o := by
          rw [Granting.activeCount, DB.activeLeases, insert_rows hi, List.filter_cons, decide_eq_false fun hl => h hl.1]
          rfl
        exact Int.le_of_eq hcount
      · cases r with
        | error e => exact .done _
        | ok _ =>
            refine Prog.Each.bind (hquiet <| Within.execUpdate (t := .workerInstance) (p := fun _ w => decide (w.id = worker))
              (f := fun _ w => { w with leaseId := some lease }) (fun _ _ => rfl) rfl) fun r => ?_
            cases r <;> exact .done _

theorem calm_grantInHours (sv : Server) {org wsp : Id} {pl : DB.PlanLimits} (h : org ≠ o) :
    Calm o (sv.grantInHours org wsp pl) := by
  have hgrant : Calm o (sv.grant org wsp pl) := by
    refine Prog.Each.bind (calm_grantLease h) fun r => ?_
    cases r with
    | error e => exact .done _
    | ok g =>
        exact Calm.of_within (T := fun t => t == .usageEvent) (K := fun _ _ => True) rfl <|
          Within.bind (DB.recordUsage_within rfl) fun _ => Within.bind (DB.recordUsage_within rfl) fun _ => .done _
  unfold Server.grantInHours
  dsimp only
  split
  · refine Prog.Each.bind (Calm.of_readOnly (Server.readOnly_weekSecondsUsed _)) fun n => ?_
    split
    · exact .done _
    · exact hgrant
  · exact hgrant

theorem calm_tryGrant (sv : Server) {org wsp : Id} (h : org ≠ o) : Calm o (sv.tryGrant org wsp) := by
  refine Prog.Each.bind (Calm.of_readOnly (DB.readOnly_poolFlag _ _)) fun paused => ?_
  split
  · exact .done _
  · refine Prog.Each.bind (Calm.of_readOnly (Server.readOnly_getPlanLimits _)) fun pl => ?_
    rcases pl with e | pl
    · exact .done _
    · cases pl with
      | none => exact .done _
      | some pl =>
          refine Prog.Each.bind (Calm.of_readOnly (Server.readOnly_effectiveCap _ _)) fun cap => ?_
          split
          · refine Prog.Each.bind (Calm.of_readOnly (Server.readOnly_activeLeaseCount _)) fun n => ?_
            split
            · exact .done _
            · exact calm_grantInHours sv h
          · exact calm_grantInHours sv h

theorem calm_onLeaseRequest (sv : Server) {st : Stream} (h : st.org ≠ o) : Calm o (sv.onLeaseRequest st) :=
  Prog.Each.bind (calm_tryGrant sv h) fun r => by cases r <;> exact calm_streamSend _ _

end Phases

/-! ## The invariant -/

namespace Granting

variable {C : Config} {c : Int} {s : Granting} {e : GrantTurn} {sv : Server} {t : Worker}

/-- A goroutine that may insert a lease of the org either has still to count them, or has counted less
than the cap, and there is still room unless it is stale. -/
def Sound (C : Config) (o : Id) (c : Int) (w : World) (t : Worker) : Prop :=
  Calm o t.prog ∨ t.org = some o ∧
    (Counting C o c t.prog ∨ Armed o t.prog ∧ (t.stale = false → activeCount w o < c))

structure Capped (C : Config) (o : Id) (c : Int) (s : Granting) : Prop where
  config : configOf s.world.db o = C
  count : activeCount s.world o ≤ c
  workers : ∀ t ∈ s.workers, Sound C o c s.world t

/-- The others keep their phase. -/
theorem Sound.passed {t' : Worker} (h : Sound C o c w t')
    (hw : NoGain o w w' ∨ t.org = some o ∧ t.prog.upcoming = some "GrantLease (lease)") :
    Sound C o c w' (passed t t') := by
  rcases h with hcalm | ⟨ho, hcount | ⟨harmed, hroom⟩⟩
  · exact .inl hcalm
  · exact .inr ⟨ho, .inl hcount⟩
  · refine .inr ⟨ho, .inr ⟨harmed, fun hst => ?_⟩⟩
    simp only [Granting.passed, Bool.or_eq_false_iff, Bool.and_eq_false_iff, decide_eq_false_iff_not] at hst
    obtain ⟨hst, hother⟩ := hst
    rcases hw with hno | ⟨hto, hup⟩
    · exact Int.lt_of_le_of_lt hno (hroom hst)
    · rcases hother with hne | hne
      · exact absurd (ho.trans hto.symm) hne
      · exact absurd hup hne

/-- What a step of a goroutine leaves: it is in one of its phases, the cap holds, and a lease of the org
has become active only by the statement that inserts one. -/
structure Stepped (C : Config) (o : Id) (c : Int) (w : World) (t : Worker) : Prop where
  sound : Sound C o c (t.prog.tick w).1 (ran w t)
  count : activeCount (t.prog.tick w).1 o ≤ c
  gain : NoGain o w (t.prog.tick w).1 ∨ t.org = some o ∧ t.prog.upcoming = some "GrantLease (lease)"

theorem Stepped.calm (h : Calm o t.prog) (hc : activeCount w o ≤ c) : Stepped C o c w t := by
  have hno : NoGain o w (t.prog.tick w).1 := h.tick_rel (NoGain.refl o) w
  exact ⟨.inl (h.tick w), Int.le_trans hno hc, .inl hno⟩

/-- A step that leaves the world as it is. -/
theorem Stepped.of_eq {p : Cmd Unit} {b : Bool} (hw : (p.tick w).1 = w) (hc : activeCount w o ≤ c)
    (h : Sound C o c w (ran w ⟨some o, p, b⟩)) : Stepped C o c w ⟨some o, p, b⟩ := by
  refine ⟨?_, ?_, .inl ?_⟩
  · rw [hw]
    exact h
  · rw [hw]
    exact hc
  · rw [hw]
    exact .refl o w

theorem Stepped.counting {p : Cmd Unit} {b : Bool} (h : Counting C o c p) (hw : configOf w.db o = C)
    (hc : activeCount w o ≤ c) : Stepped C o c w ⟨some o, p, b⟩ := by
  cases h with
  | calm h => exact .calm h hc
  | act h hk => exact .of_eq (h w) hc (.inr ⟨rfl, .inl (hk _)⟩)
  | read h hk =>
      exact .of_eq (Prog.settle_rel (R := fun s s' => s' = s) (fun _ => rfl) h w) hc (.inr ⟨rfl, .inl (hk w hw)⟩)
  | @count f k h hroom hfull =>
      have hset : Prog.settle f w = (w, .ok (activeCount w o)) := by
        unfold Prog.settle
        rw [h w]
      refine .of_eq (congrArg Prod.fst hset) hc ?_
      have hprog : (ran w ⟨some o, .stmt "ActiveLeaseCount" f k, b⟩).prog = k (.ok (activeCount w o)) :=
        congrArg k (congrArg Prod.snd hset)
      by_cases hlt : activeCount w o < c
      · refine .inr ⟨rfl, .inr ⟨?_, fun _ => hlt⟩⟩
        rw [hprog]
        exact hroom _ hlt
      · refine .inl ?_
        rw [hprog]
        exact hfull _ (Int.not_lt.1 hlt)

theorem Stepped.armed {p : Cmd Unit} {b : Bool} (h : Armed o p) (hroom : b = false → activeCount w o < c)
    (hc : activeCount w o ≤ c) (ht : p.upcoming = some "GrantLease (lease)" → b = false) :
    Stepped C o c w ⟨some o, p, b⟩ := by
  cases h with
  | calm h => exact .calm h hc
  | act h hk =>
      have hno : NoGain o w _ := h w
      refine ⟨.inr ⟨rfl, .inr ⟨hk _, fun hb => Int.lt_of_le_of_lt hno (hroom ?_)⟩⟩, Int.le_trans hno hc, .inl hno⟩
      simpa [ran, Prog.upcoming] using hb
  | @stmt γ n f k hn h hk =>
      have hno : NoGain o w (Prog.settle f w).1 := Prog.settle_rel (NoGain.refl o) h w
      refine ⟨.inr ⟨rfl, .inr ⟨hk _, fun hb => Int.lt_of_le_of_lt hno (hroom ?_)⟩⟩, Int.le_trans hno hc, .inl hno⟩
      simpa [ran, Prog.upcoming, hn] using hb
  | @grant γ f k h hk =>
      have hlt := hroom (ht rfl)
      have hadd : activeCount (Prog.settle f w).1 o ≤ activeCount w o + 1 :=
        Prog.settle_rel (R := fun w w' => activeCount w' o ≤ activeCount w o + 1)
          (fun w => Int.le_add_of_nonneg_right (by decide)) h w
      exact ⟨.inl (hk _), Int.le_trans hadd hlt, .inr ⟨rfl, rfl⟩⟩

theorem Sound.stepped (h : Sound C o c w t) (hw : configOf w.db o = C) (hc : activeCount w o ≤ c)
    (ht : t.org = some o → t.prog.upcoming = some "GrantLease (lease)" → t.stale = false) : Stepped C o c w t := by
  obtain ⟨org, p, b⟩ := t
  rcases h with hcalm | ⟨rfl, hcount | ⟨harmed, hroom⟩⟩
  · exact .calm hcalm hc
  · exact .counting hcount hw hc
  · exact .armed harmed hroom hc (ht rfl)

theorem Sound.same {w' : World} (h : Sound C o c w t) (hw : w'.db = w.db) : Sound C o c w' t :=
  h.imp id fun hs => ⟨hs.1, hs.2.imp id fun ha => ⟨ha.1, fun hst => by rw [activeCount, hw]; exact ha.2 hst⟩⟩

theorem Capped.next (h : Capped C o c s) (hcap : C.cap = some c) (hf : Fixed sv o s e) (ht : Timely o s e) :
    Capped C o c (s.next sv e) := by
  have hconfig : configOf (s.next sv e).world.db o = C := hf.trans h.config
  cases e with
  | tick d => exact ⟨h.config, h.count, fun t ht => (h.workers t ht).same rfl⟩
  | request st =>
      refine ⟨h.config, h.count, fun t ht => ?_⟩
      rcases List.mem_append.1 ht with hold | hnew
      · exact h.workers t hold
      · rw [List.mem_singleton.1 hnew]
        by_cases ho : st.org = o
        · exact .inr ⟨congrArg some ho, .inl (Counting.onLeaseRequest sv ho hcap)⟩
        · exact .inl (calm_onLeaseRequest sv ho)
  | reap =>
      refine ⟨h.config, h.count, fun t ht => ?_⟩
      rcases List.mem_append.1 ht with hold | hnew
      · exact h.workers t hold
      · rw [List.mem_singleton.1 hnew]
        exact .inl (reapOnce_calm sv)
  | run i =>
      cases hi : s.workers[i]? with
      | none =>
          have hsame : s.next sv (.run i) = s := by simp only [Granting.next, hi]
          rw [hsame]
          exact h
      | some t =>
          have hnext : s.next sv (.run i) =
              { world := (t.prog.tick s.world).1, workers := (s.workers.map (passed t)).set i (ran s.world t) } := by
            simp only [Granting.next, hi]
          have hst := (h.workers t (List.mem_of_getElem? hi)).stepped h.config h.count (ht i t rfl hi)
          rw [hnext] at hconfig ⊢
          refine ⟨hconfig, hst.count, fun t' ht' => ?_⟩
          rcases List.mem_or_eq_of_mem_set ht' with hold | rfl
          · obtain ⟨t'', ht'', rfl⟩ := List.mem_map.1 hold
            exact (h.workers t'' ht'').passed hst.gain
          · exact hst.sound

end Granting

/-! ## Runs -/

/-- While the plan's limits and the pool's configuration of an org stay as they are, the org never has
more active leases than its cap, in every run in which no handler inserts a lease of the org after
another one did since it counted them. -/
theorem lease_cap (sv : Server) (o : Id) (c : Int) (w : World) (es : List GrantTurn)
    (hcap : (configOf w.db o).cap = some c) (hcount : Granting.activeCount w o ≤ c)
    (hfixed : Runs.Meets (Granting.next sv) (Granting.Fixed sv o) { world := w } es)
    (htimely : Runs.Meets (Granting.next sv) (fun s e => Granting.Timely o s e) { world := w } es) :
    Runs.Always (Granting.next sv) (fun s => Granting.activeCount s.world o ≤ c) { world := w } es := by
  have hstart : Granting.Capped (configOf w.db o) o c { world := w } := ⟨rfl, hcount, nofun⟩
  have hall : Runs.Always (Granting.next sv) (Granting.Capped (configOf w.db o) o c) { world := w } es :=
    Runs.always_of_meets (fun s e h hc => h.next hcap hc.1 hc.2) hstart (hfixed.and htimely)
  exact hall.mono fun s h => h.count

/-! ## Two requests at once -/

namespace Sample

/-- The installation with the workspace of the seeds, from which leases are granted. -/
def seeded : World :=
  { db := Store.ofRows (plans ++ rows ++
      [⟨.org, { id := "org_demo", name := "Demo", ownerUserId := "usr_a", createdAt := 0 }⟩,
        ⟨.workspace, { id := "wsp_demo", orgId := "org_demo", name := "Demo" }⟩]) }

def stream (n : Nat) : Stream := { device := "dev_a", org := "org_a", out := n }

/-- Both handlers count before either of them inserts. -/
def racing : List GrantTurn :=
  [.request (stream 0), .request (stream 1)] ++ List.replicate 6 (.run 0) ++ List.replicate 12 (.run 1) ++
    List.replicate 6 (.run 0)

/-- One handler is done before the other one counts. -/
def inTurn : List GrantTurn :=
  [.request (stream 0), .request (stream 1), .run 1] ++ List.replicate 12 (.run 0) ++ List.replicate 6 (.run 1)

end Sample

/-- Two handlers that count at the same time both grant the only lease of the free plan. -/
theorem racing_leases :
    (configOf Sample.seeded.db "org_a").cap = some 1 ∧ Granting.activeCount Sample.seeded "org_a" ≤ 1 ∧
      Runs.Meets (Granting.next {}) (Granting.Fixed {} "org_a") { world := Sample.seeded } Sample.racing ∧
        ¬ Runs.Always (Granting.next {}) (fun s => Granting.activeCount s.world "org_a" ≤ 1) { world := Sample.seeded }
          Sample.racing := by
  decide +kernel

theorem lease_cap_sample :
    Runs.Always (Granting.next {}) (fun s => Granting.activeCount s.world "org_a" ≤ 1) { world := Sample.seeded }
      Sample.inTurn :=
  lease_cap {} "org_a" 1 Sample.seeded Sample.inTurn (by decide +kernel) (by decide +kernel) (by decide +kernel)
    (by decide +kernel)

end Apifor
