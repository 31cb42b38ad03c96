import Apifor.Http.Connections
import Apifor.Lib.Follows
import Apifor.Lib.Runs

/-!
# The status of a device flow

The flows of one org share one slot of memory, and every goroutine that polls GitHub writes its outcome there.
What the slot shows belongs to the flow started last just when no other poller writes anything else into it.
-/

namespace Apifor

namespace DeviceFlow

open API

variable {a : API} {o : Id} {p : GhPoll} {token account : Reply} {w w' : World}

/-! ## Outcomes -/

/-- What `githubDeviceStatus` reports of a flow. -/
structure Outcome where
  status : String
  login : String
  errMsg : String
  deriving DecidableEq

def Outcome.of (f : GhFlow) : Outcome := ⟨f.status, f.login, f.errMsg⟩

def pending : Outcome := ⟨"pending", "", ""⟩

/-- What a round of polling comes to, from its reading of the clock and GitHub's answers. -/
def verdict (p : GhPoll) (now : Time) (token account : Reply) : Option Outcome :=
  if p.deadline ≤ now then some ⟨"expired", "", "tempo esgotado — tente de novo"⟩
  else
    match token with
    | .failed _ => none
    | .answer _ body =>
        let tok := (Json.decodeFirst tokenFields body {}).1
        if tok.accessToken ≠ "" then
          match validateGitToken "github" "" account with
          | .ok (login, _) => some ⟨"authorized", login, ""⟩
          | .error _ => some ⟨"error", "", "token recebido mas inválido"⟩
        else if tok.error = "expired_token" then some ⟨"expired", "", "código expirou — tente de novo"⟩
        else if tok.error = "access_denied" then some ⟨"denied", "", "autorização negada"⟩
        else none

def reported (o : Id) (w : World) : Option Outcome := (w.http.ghFlows o).map .of

/-! ## A round -/

inductive Stage
  | fresh
  | decided (now : Time)
  | written (now : Time)

/-- The slot shows an outcome, if there is a flow in it. -/
def overwritten (w : World) (o : Id) (x : Outcome) : World :=
  { w with
    http := { w.http with
      ghFlows := Function.update w.http.ghFlows o
        ((w.http.ghFlows o).map fun f => { f with status := x.status, login := x.login, errMsg := x.errMsg }) } }

/-- The clock and the flows are as they were. -/
structure Aside (w w' : World) : Prop where
  now : w'.now = w.now
  flows : w'.http.ghFlows = w.http.ghFlows
  polls : w'.http.ghPolls = w.http.ghPolls

theorem Aside.refl (w : World) : Aside w w := ⟨rfl, rfl, rfl⟩

/-- What a step of a round does. -/
inductive Move (p : GhPoll) (token account : Reply) (w : World) : World → Stage → Stage → Prop
  | clock : Move p token account w w .fresh (.decided w.now)
  | aside {w' : World} {t : Time} (h : Aside w w') : Move p token account w w' (.decided t) (.decided t)
  | wrote {t : Time} (x : Outcome) (h : verdict p t token account = some x) :
      Move p token account w (overwritten w p.org x) (.decided t) (.written t)

/-- A round ends the polling just when it has written its verdict. -/
inductive Ends (p : GhPoll) (token account : Reply) : Stage → Bool → Prop
  | waits {t : Time} (h : verdict p t token account = none) : Ends p token account (.decided t) false
  | over {t : Time} : Ends p token account (.written t) true

abbrev Rounds (p : GhPoll) (token account : Reply) : Stage → Cmd Bool → Prop :=
  Prog.Follows (fun _ => false) (fun w w' c _ c' => Move p token account w w' c c') (Ends p token account)

theorem aside_tx {T : Tbl → Bool} {B : Id} {α : Type} (n : String) (x : Tx T B α) (rls : Bool) :
    Prog.Each Aside ((OrgM.tx n x).cmd rls) := each_exec fun _ _ _ _ => ⟨rfl, rfl, rfl⟩

theorem aside_replaceConnection {B : Id} {n : String} {old : Connection → Bool} {type : ConnectionType} {x l : String}
    {st : ConnectionSettings} (rls : Bool) :
    Prog.Each Aside ((DB.replaceConnection (B := B) n old type x l st).cmd rls) :=
  Prog.Each.bind (.lift fun _ => ⟨rfl, rfl, rfl⟩) fun _ => aside_tx _ _ rls

theorem aside_storeGitHubConn {B : Id} (purpose login token : String) (rls : Bool) :
    Prog.Each Aside ((storeGitHubConn (B := B) purpose login token).cmd rls) := by
  refine Prog.Each.bind ?_ fun _ => .done ()
  split_ifs
  · exact aside_replaceConnection rls
  · exact aside_replaceConnection rls
  · exact aside_replaceConnection rls
  · exact aside_replaceConnection rls

/-- `set`, as the last step of a round. -/
theorem rounds_set (rls : Bool) {t : Time} {x : Outcome} (h : verdict p t token account = some x) :
    Rounds p token account (.decided t)
      (((setFlowStatus (B := p.org) x.status x.login x.errMsg).cmd rls).bind fun _ => .done true) :=
  .act (fun _ => .written t) (fun _ => .wrote x h) fun _ => .done .over

/-- A round reads the clock, and is then bound to its verdict. -/
theorem rounds_poll (p : GhPoll) (token account : Reply) (rls : Bool) :
    Rounds p token account .fresh ((pollGitHubDevice p token account).cmd rls) := by
  refine .act (fun w => .decided w.now) (fun w => .clock) fun w => ?_
  dsimp only [Prog.bind]
  by_cases hdead : p.deadline ≤ w.now
  · rw [if_pos hdead]
    have hlate : verdict p w.now token account = some ⟨"expired", "", "tempo esgotado — tente de novo"⟩ :=
      if_pos hdead
    exact rounds_set rls hlate
  · rw [if_neg hdead]
    cases token with
    | failed msg => exact .done (.waits (by rw [verdict, if_neg hdead]))
    | answer st body =>
        have hopen : verdict p w.now (.answer st body) account = _ := if_neg hdead
        dsimp only at hopen ⊢
        split at hopen
        · next htoken =>
            rw [if_pos htoken]
            cases haccount : validateGitToken "github" "" account with
            | error msg =>
                rw [haccount] at hopen
                exact rounds_set rls hopen
            | ok r =>
                rw [haccount] at hopen
                refine Prog.Follows.bind (Prog.Follows.of_each Aside.refl (fun _ _ _ h => .aside h)
                  (aside_storeGitHubConn _ _ _ rls)) fun c _ hc => ?_
                subst hc
                exact rounds_set rls hopen
        · next htoken =>
            rw [if_neg htoken]
            split at hopen
            · next hexpired =>
                rw [if_pos hexpired]
                exact rounds_set rls hopen
            · next hexpired =>
                rw [if_neg hexpired]
                split at hopen
                · next hdenied =>
                    rw [if_pos hdenied]
                    exact rounds_set rls hopen
                · next hdenied =>
                    rw [if_neg hdenied]
                    exact .done (.waits hopen)

/-- The program does not crash. -/
abbrev Safe {α : Type} (c : Cmd α) : Prop := Prog.Sees (fun _ _ => False) c

theorem safe_replaceConnection {B : Id} {n : String} {old : Connection → Bool} {type : ConnectionType} {x l : String}
    {st : ConnectionSettings} (rls : Bool) : Safe ((DB.replaceConnection (B := B) n old type x l st).cmd rls) :=
  Prog.Sees.bind (.lift nofun) fun _ => .stmt nofun .done

theorem safe_storeGitHubConn {B : Id} (purpose login token : String) (rls : Bool) :
    Safe ((storeGitHubConn (B := B) purpose login token).cmd rls) := by
  refine Prog.Sees.bind ?_ fun _ => .done ()
  split_ifs
  · exact safe_replaceConnection rls
  · exact safe_replaceConnection rls
  · exact safe_replaceConnection rls
  · exact safe_replaceConnection rls

theorem safe_set {B : Id} (status login errMsg : String) (rls : Bool) :
    Safe (((setFlowStatus (B := B) status login errMsg).cmd rls).bind fun _ => .done true) :=
  .act nofun fun _ => .done _

theorem safe_poll (p : GhPoll) (token account : Reply) (rls : Bool) :
    Safe ((pollGitHubDevice p token account).cmd rls) := by
  refine .act nofun fun now => ?_
  dsimp only [Prog.bind]
  split
  · exact safe_set _ _ _ rls
  · cases token with
    | failed msg => exact .done _
    | answer st body =>
        dsimp only
        split
        · cases validateGitToken "github" "" account with
          | error msg => exact safe_set _ _ _ rls
          | ok r => exact Prog.Sees.bind (safe_storeGitHubConn _ _ _ rls) fun _ => safe_set _ _ _ rls
        · split
          · exact safe_set _ _ _ rls
          · split
            · exact safe_set _ _ _ rls
            · exact .done _

/-! ## A start -/

inductive Kind | device | web

/-- The number of the step that makes the slot show the new flow. -/
def Kind.opening : Kind → Nat
  | .device => 0
  | .web => 3

/-- The number of the step that sets the poller going. -/
def Kind.launch : Kind → Option Nat
  | .device => some 2
  | .web => none

/-- What the step of a start with a number does. -/
structure Opens (k : Kind) (o : Id) (n : Nat) (w w' : World) : Prop where
  now : w'.now = w.now
  flows : if n = k.opening then reported o w' = some pending else w'.http.ghFlows = w.http.ghFlows
  polls : if k.launch = some n then ∃ p : GhPoll, p.org = o ∧ w'.http.ghPolls = w.http.ghPolls ++ [p]
    else w'.http.ghPolls = w.http.ghPolls

/-- The program is a start that has made `n` steps. -/
abbrev Starts (k : Kind) (o : Id) : Nat → Cmd Response → Prop :=
  Prog.Follows (fun _ => false) (fun w w' n _ n' => n' = n + 1 ∧ Opens k o n w w') fun _ _ => True

theorem reported_setFlow (w : World) (o : Id) (f : GhFlow) :
    reported o { w with http := { w.http with ghFlows := Function.update w.http.ghFlows o (some f) } } =
      some (.of f) := by
  dsimp only [reported]
  rw [Function.update_self, Option.map_some]

theorem starts_device (u : Caller) (r : Request) (rls : Bool) :
    Starts .device u.orgID 0 ((githubDeviceStart u r).cmd rls) := by
  unfold githubDeviceStart guarded
  split
  · exact .done trivial
  · split
    · cases r.reply 0 with
      | failed msg => exact .done trivial
      | answer st body =>
          dsimp only
          split
          · exact .done trivial
          · refine .act (fun _ => 1) (fun w => ⟨rfl, rfl, ?_, rfl⟩) fun w => ?_
            · exact reported_setFlow w u.orgID _
            · refine .act (fun _ => 2) (fun w => ⟨rfl, rfl, rfl, rfl⟩) fun w => ?_
              exact .act (fun _ => 3) (fun w => ⟨rfl, rfl, rfl, _, rfl, rfl⟩) fun w => .done trivial
    · exact .done trivial

theorem starts_web (a : API) (u : Caller) (r : Request) (rls : Bool) :
    Starts .web u.orgID 0 ((a.githubOAuthStart u r).cmd rls) := by
  unfold githubOAuthStart guarded
  split
  · exact .done trivial
  · split
    · split
      · exact .done trivial
      · refine .act (fun _ => 1) (fun w => ⟨rfl, rfl, rfl, rfl⟩) fun w => ?_
        refine .act (fun _ => 2) (fun w => ⟨rfl, rfl, rfl, rfl⟩) fun w => ?_
        refine .act (fun _ => 3) (fun w => ⟨rfl, rfl, rfl, rfl⟩) fun w => ?_
        refine .act (fun _ => 4) (fun w => ⟨rfl, rfl, ?_, rfl⟩) fun w => .done trivial
        exact reported_setFlow w u.orgID _
    · exact .done trivial

/-! ## Runs -/

structure Round where
  token : Reply
  account : Reply
  prog : Cmd Bool
  clock : Option Time := none

/-- A flow: its start, its poller, and the rounds of it that have ended, each with its reading of the clock and
GitHub's answers. -/
structure Flow where
  kind : Kind
  start : Cmd Response
  made : Nat := 0
  poll : Option GhPoll := none
  round : Option Round := none
  heard : List (Time × Reply × Reply) := []

/-- What GitHub's answers to the flow's own device code and its own deadline come to. -/
def Flow.told (f : Flow) : Outcome :=
  (f.poll.bind fun p => f.heard.findSome? fun h => verdict p h.1 h.2.1 h.2.2).getD pending

/-- The poller has returned. -/
def Flow.over (f : Flow) : Bool :=
  (f.poll.bind fun p => f.heard.findSome? fun h => verdict p h.1 h.2.1 h.2.2).isSome

/-- The flows of an org, in the order of their requests, and the one whose start has come last to the slot. -/
structure State where
  world : World
  flows : List Flow := []
  newest : Option Nat := none

inductive Event
  | tick (d : Nat)
  | device (userID role : String) (r : Request)
  | web (userID role : String) (r : Request)
  | turn (i : Nat)
  | round (i : Nat) (token account : Reply)
  | poll (i : Nat)

/-- A step of a start. -/
def State.turn (s : State) (i : Nat) (f : Flow) : State :=
  if f.start.halted then s
  else
    let r := f.start.tick s.world
    let poll := if f.kind.launch = some f.made then r.1.http.ghPolls.getLast? else f.poll
    { world := r.1
      flows := s.flows.set i { f with start := r.2, made := f.made + 1, poll := poll }
      newest := if f.made = f.kind.opening then some i else s.newest }

/-- A step of a round. -/
def State.advance (s : State) (i : Nat) (f : Flow) (q : Round) : State :=
  if q.prog.halted then s
  else
    let r := q.prog.tick s.world
    let clock := q.clock.getD s.world.now
    let f' : Flow := match r.2.result? with
      | none => { f with round := some { q with prog := r.2, clock := some clock } }
      | some _ => { f with round := none, heard := f.heard ++ [(clock, q.token, q.account)] }
    { s with world := r.1, flows := s.flows.set i f' }

def step (a : API) (o : Id) (s : State) : Event → State
  | .tick d => { s with world := { s.world with now := s.world.now + d } }
  | .device userID role r =>
      let start := (githubDeviceStart ⟨userID, o, role⟩ r).cmd a.server.rls
      { s with flows := s.flows ++ [{ kind := .device, start := start }] }
  | .web userID role r =>
      let start := (a.githubOAuthStart ⟨userID, o, role⟩ r).cmd a.server.rls
      { s with flows := s.flows ++ [{ kind := .web, start := start }] }
  | .turn i =>
      match s.flows[i]? with
      | some f => s.turn i f
      | none => s
  | .round i token account =>
      match s.flows[i]? with
      | some f =>
          match f.poll, f.round with
          | some p, none =>
              if f.over then s
              else
                let prog := (pollGitHubDevice p token account).cmd a.server.rls
                let q : Round := { token := token, account := account, prog := prog }
                { s with flows := s.flows.set i { f with round := some q } }
          | _, _ => s
      | none => s
  | .poll i =>
      match s.flows[i]? with
      | some f =>
          match f.round with
          | some q => s.advance i f q
          | none => s
      | none => s

/-! ## The invariant -/

variable {s : State} {f : Flow} {q : Round} {i j : Nat}

/-- The stage of a round, from what it has read of the clock. -/
def Clocked (q : Round) (c : Stage) : Prop :=
  (c = .fresh ∧ q.clock = none) ∨ ∃ t, c = .decided t ∧ q.clock = some t

structure FlowOK (o : Id) (f : Flow) : Prop where
  start : Starts f.kind o f.made f.start
  poll : ∀ p, f.poll = some p → p.org = o ∧ ∃ n, f.kind.launch = some n ∧ n < f.made
  idle : f.poll = none → f.heard = [] ∧ f.round = none
  round : ∀ q, f.round = some q → f.over = false ∧ Safe q.prog ∧ q.prog.result? = none ∧
    ∃ p c, f.poll = some p ∧ Clocked q c ∧ Rounds p q.token q.account c q.prog

structure Inv (o : Id) (s : State) : Prop where
  flows : ∀ f ∈ s.flows, FlowOK o f
  opened : ∀ f ∈ s.flows, f.kind.opening < f.made → s.newest.isSome
  valid : ∀ i, s.newest = some i → i < s.flows.length

theorem told_of_idle (h : f.heard = []) : f.told = pending := by
  unfold Flow.told
  rw [h]
  cases f.poll <;> rfl

theorem mem_set {l : List Flow} {x : Flow} (h : (l.set i x)[j]? = some f) :
    (j = i ∧ f = x) ∨ (j ≠ i ∧ l[j]? = some f) := by
  by_cases hij : j = i
  · subst hij
    obtain ⟨hlt, -⟩ := List.getElem?_eq_some_iff.1 h
    rw [List.length_set] at hlt
    rw [List.getElem?_set_self hlt] at h
    exact .inl ⟨rfl, (Option.some.inj h).symm⟩
  · rw [List.getElem?_set_ne (Ne.symm hij)] at h
    exact .inr ⟨hij, h⟩

theorem Inv.set (h : Inv o s) {w' : World} {f' : Flow} (hf' : FlowOK o f')
    (hopen : f'.kind.opening < f'.made → s.newest.isSome) :
    Inv o { s with world := w', flows := s.flows.set i f' } where
  flows := fun g hg => (List.mem_or_eq_of_mem_set hg).elim (h.flows g) fun heq => heq ▸ hf'
  opened := fun g hg => (List.mem_or_eq_of_mem_set hg).elim (h.opened g) fun heq => heq ▸ hopen
  valid := fun j hj => by
    rw [List.length_set]
    exact h.valid j hj

theorem opening_lt_launch {k : Kind} {n : Nat} (h : k.launch = some n) : k.opening < n := by
  cases k with
  | device => cases h; decide
  | web => cases h

theorem FlowOK.not_launched (h : FlowOK o f) {n : Nat} (hn : f.kind.launch = some n) (hle : f.made ≤ n) :
    f.poll = none := by
  cases hp : f.poll with
  | none => rfl
  | some p =>
      obtain ⟨-, m, hm, hlt⟩ := h.poll p hp
      rw [hn] at hm
      cases hm
      omega

/-- The slot shows the outcome of the newest flow's own rounds. -/
def Belongs (o : Id) (s : State) : Prop :=
  ∀ i, s.newest = some i → ∀ f, s.flows[i]? = some f → reported o s.world = some f.told

theorem getLast?_append (l : List GhPoll) (p : GhPoll) : (l ++ [p]).getLast? = some p := by simp

/-- A step of a start: what becomes of its flow. -/
theorem turn_flow (hok : FlowOK o f) (hh : f.start.halted = false) (w : World) :
    let r := f.start.tick w
    let poll := if f.kind.launch = some f.made then r.1.http.ghPolls.getLast? else f.poll
    let f' : Flow := { f with start := r.2, made := f.made + 1, poll := poll }
    FlowOK o f' ∧ f'.told = f.told ∧ Opens f.kind o f.made w r.1 := by
  obtain ⟨n', ⟨rfl, hopens⟩, hstart⟩ := hok.start.next hh w
  dsimp only
  by_cases hl : f.kind.launch = some f.made
  · have hnone := hok.not_launched hl (Nat.le_refl _)
    obtain ⟨hheard, hround⟩ := hok.idle hnone
    have hpolls := hopens.polls
    rw [if_pos hl] at hpolls ⊢
    obtain ⟨p, hp, heq⟩ := hpolls
    rw [heq, getLast?_append]
    refine ⟨⟨hstart, ?_, nofun, ?_⟩, ?_, hopens⟩
    · intro p' hp'
      cases hp'
      exact ⟨hp, f.made, hl, Nat.lt_succ_self _⟩
    · intro q hq
      rw [hround] at hq
      cases hq
    · rw [told_of_idle hheard]
      exact told_of_idle hheard
  · rw [if_neg hl]
    refine ⟨⟨hstart, fun p hp => ?_, hok.idle, hok.round⟩, rfl, hopens⟩
    obtain ⟨horg, n, hn, hlt⟩ := hok.poll p hp
    exact ⟨horg, n, hn, Nat.lt_succ_of_lt hlt⟩

theorem Inv.turn (h : Inv o s) (hi : s.flows[i]? = some f) :
    Inv o (s.turn i f) ∧ (Belongs o s → Belongs o (s.turn i f)) := by
  have hmem := List.mem_of_getElem? hi
  have hok := h.flows f hmem
  unfold State.turn
  split
  · exact ⟨h, fun hb => hb⟩
  · next hh =>
      obtain ⟨hok', htold, hopens⟩ := turn_flow hok (Bool.not_eq_true _ ▸ hh) s.world
      obtain ⟨hlt, -⟩ := List.getElem?_eq_some_iff.1 hi
      by_cases hopen : f.made = f.kind.opening
      · have hflows := hopens.flows
        rw [if_pos hopen] at hflows
        dsimp only
        rw [if_pos hopen]
        refine ⟨⟨?_, fun _ _ _ => rfl, fun j hj => ?_⟩, fun _ j hj g hg => ?_⟩
        · exact fun g hg => (List.mem_or_eq_of_mem_set hg).elim (h.flows g) fun heq => heq ▸ hok'
        · cases hj
          rwa [List.length_set]
        · cases hj
          obtain ⟨-, rfl⟩ | ⟨hne, -⟩ := mem_set hg
          · refine hflows.trans (congrArg some (Eq.trans ?_ htold.symm))
            refine (told_of_idle (hok.idle ?_).1).symm
            cases hp : f.poll with
            | none => rfl
            | some p =>
                obtain ⟨-, n, hn, hlt⟩ := hok.poll p hp
                have := opening_lt_launch hn
                omega
          · exact (hne rfl).elim
      · have hflows := hopens.flows
        rw [if_neg hopen] at hflows
        dsimp only
        rw [if_neg hopen]
        have hsome : f.kind.opening < f.made + 1 → s.newest.isSome := fun hlt => h.opened f hmem (by omega)
        refine ⟨h.set hok' hsome, fun hb j hj g hg => ?_⟩
        have hreported : reported o (f.start.tick s.world).1 = reported o s.world := by
          unfold reported
          rw [hflows]
        refine hreported.trans ?_
        obtain ⟨rfl, rfl⟩ | ⟨-, hg⟩ := mem_set hg
        · rw [htold]
          exact hb j hj f hi
        · exact hb j hj g hg

/-! ## A round in progress -/

theorem Move.not_written {t : Time} {c : Stage} (h : Move p token account w w' (.written t) c) : False := by
  cases h

theorem Rounds.written {t : Time} {c : Cmd Bool} (h : Rounds p token account (.written t) c) (hs : Safe c) (w : World) :
    c = .done true := by
  cases h with
  | done hq => cases hq; rfl
  | crash => cases hs
  | act next hm _ => exact (hm w).not_written.elim
  | stmt next hm _ => exact (hm w (Prog.executes_of_none_lost _ w)).not_written.elim

theorem told_append {h : Time × Reply × Reply} (hp : f.poll = some p) (hover : f.over = false) (q : Option Round) :
    ({ f with round := q, heard := f.heard ++ [h] } : Flow).told = (verdict p h.1 h.2.1 h.2.2).getD f.told := by
  have hnone : (f.heard.findSome? fun h => verdict p h.1 h.2.1 h.2.2) = none := by
    simpa [Flow.over, hp] using hover
  simp [Flow.told, hp, List.findSome?_append, hnone]

/-- A round that goes on. -/
def Round.goes (q : Round) (w : World) (c : Cmd Bool) : Round :=
  { q with prog := c, clock := some (q.clock.getD w.now) }

/-- A step of a round: it goes on; or it ends without a verdict; or it ends with one, and the slot shows it. -/
theorem round_step (hs : Safe q.prog) (hr : q.prog.result? = none) {c : Stage} (hc : Clocked q c)
    (h : Rounds p q.token q.account c q.prog) (w : World) :
    (∃ c', Aside w (q.prog.tick w).1 ∧ (q.prog.tick w).2.result? = none ∧
        Clocked (q.goes w (q.prog.tick w).2) c' ∧ Rounds p q.token q.account c' (q.prog.tick w).2) ∨
      (Aside w (q.prog.tick w).1 ∧ (q.prog.tick w).2.result? = some false ∧
        verdict p (q.clock.getD w.now) q.token q.account = none) ∨
      ∃ t x, q.clock = some t ∧ (q.prog.tick w).2.result? = some true ∧ verdict p t q.token q.account = some x ∧
        (q.prog.tick w).1 = overwritten w p.org x := by
  obtain ⟨c', hmove, hnext⟩ := h.next (hs.going hr) w
  have hsafe := hs.next w
  have hdone : ∀ b, (q.prog.tick w).2.result? = some b → Ends p q.token q.account c' b := fun b hb => by
    cases hprog : (q.prog.tick w).2 with
    | done b' =>
        rw [hprog] at hb hnext
        cases hb
        cases hnext with
        | done hq => exact hq
    | crash => rw [hprog] at hb; cases hb
    | act f k => rw [hprog] at hb; cases hb
    | stmt n f k => rw [hprog] at hb; cases hb
  generalize q.prog.tick w = r at hmove hnext hsafe hdone ⊢
  obtain ⟨w', prog'⟩ := r
  dsimp only at hmove hnext hsafe hdone ⊢
  cases hmove with
  | clock =>
      have hclock : q.clock = none := hc.elim (fun h => h.2) fun ⟨t, ht, _⟩ => by cases ht
      cases hres : prog'.result? with
      | none => exact .inl ⟨_, Aside.refl w, rfl, .inr ⟨_, rfl, by rw [Round.goes, hclock]; rfl⟩, hnext⟩
      | some b =>
          cases hdone b hres with
          | waits hv => exact .inr (.inl ⟨Aside.refl w, rfl, by rw [hclock]; exact hv⟩)
  | aside haside =>
      obtain ⟨hfresh, -⟩ | ⟨t, ht, hclock⟩ := hc
      · cases hfresh
      · cases ht
        cases hres : prog'.result? with
        | none => exact .inl ⟨_, haside, rfl, .inr ⟨_, rfl, by rw [Round.goes, hclock]; rfl⟩, hnext⟩
        | some b =>
            cases hdone b hres with
            | waits hv => exact .inr (.inl ⟨haside, rfl, by rw [hclock]; exact hv⟩)
  | wrote x hx =>
      obtain ⟨hfresh, -⟩ | ⟨t, ht, hclock⟩ := hc
      · cases hfresh
      · cases ht
        rw [Rounds.written hnext hsafe w]
        exact .inr (.inr ⟨_, x, hclock, rfl, hx, rfl⟩)

theorem reported_overwritten (w : World) (o : Id) (x : Outcome) :
    reported o (overwritten w o x) = (reported o w).map fun _ => x := by
  dsimp only [reported, overwritten]
  rw [Function.update_self, Option.map_map, Option.map_map]
  rfl

theorem Aside.reported (h : Aside w w') : reported o w' = reported o w := by
  rw [DeviceFlow.reported, DeviceFlow.reported, h.flows]

/-- The poller that ends writes what the slot shows already, or it is the newest flow's. -/
def Current (o : Id) (s : State) : Event → Prop
  | .poll i => ∀ f ∈ s.flows[i]?, ∀ p ∈ f.poll, ∀ q ∈ f.round, ∀ t ∈ q.clock,
      ∀ x ∈ verdict p t q.token q.account,
      (q.prog.tick s.world).2.result?.isSome = true → s.newest = some i ∨ reported o s.world = some x
  | _ => True

theorem Inv.advance (h : Inv o s) (hi : s.flows[i]? = some f) (hq : f.round = some q) :
    Inv o (s.advance i f q) ∧ (Belongs o s → (Belongs o (s.advance i f q) ↔ Current o s (.poll i))) := by
  have hmem := List.mem_of_getElem? hi
  have hok := h.flows f hmem
  obtain ⟨hover, hsafe, hres, p, c, hp, hclocked, hrounds⟩ := hok.round q hq
  obtain ⟨horg, n, hn, hlt⟩ := hok.poll p hp
  have hopened : f.kind.opening < f.made := Nat.lt_trans (opening_lt_launch hn) hlt
  have hsome := h.opened f hmem hopened
  have hidle : ∀ {f' : Flow} {w' : World}, f'.told = f.told → Aside s.world w' → Belongs o s →
      Belongs o { s with world := w', flows := s.flows.set i f' } := fun htold haside hb j hj g hg => by
    refine haside.reported.trans ?_
    obtain ⟨rfl, rfl⟩ | ⟨-, hg⟩ := mem_set hg
    · rw [htold]
      exact hb j hj f hi
    · exact hb j hj g hg
  unfold State.advance
  rw [if_neg (by rw [hsafe.going hres]; exact Bool.false_ne_true)]
  dsimp only
  obtain ⟨c', haside, hnone, hclocked', hrounds'⟩ | ⟨haside, hfalse, hv⟩ | ⟨t, x, hclock, htrue, hv, hworld⟩ :=
    round_step hsafe hres hclocked hrounds s.world
  · rw [hnone]
    refine ⟨h.set ⟨hok.start, hok.poll, fun hno => ?_, fun q' hq' => ?_⟩ fun _ => hsome, fun hb => ?_⟩
    · rw [hp] at hno
      cases hno
    · cases hq'
      exact ⟨hover, hsafe.next s.world, hnone, p, c', hp, hclocked', hrounds'⟩
    · refine iff_of_true (hidle rfl haside hb) fun f' hf' p' _ q' hq' t ht x hx hsome' => ?_
      cases hi.symm.trans hf'
      cases hq.symm.trans hq'
      rw [hnone] at hsome'
      cases hsome'
  · rw [hfalse]
    refine ⟨h.set ⟨hok.start, hok.poll, fun hno => ?_, nofun⟩ fun _ => hsome, fun hb => ?_⟩
    · rw [hp] at hno
      cases hno
    · have htold := told_append (h := (q.clock.getD s.world.now, q.token, q.account)) hp hover none
      rw [hv] at htold
      refine iff_of_true (hidle htold haside hb) fun f' hf' p' hp' q' hq' t ht x hx _ => ?_
      cases hi.symm.trans hf'
      cases hq.symm.trans hq'
      cases hp.symm.trans hp'
      rw [show q.clock = some t from ht, Option.getD_some] at hv
      rw [hv] at hx
      cases hx
  · rw [htrue]
    refine ⟨h.set ⟨hok.start, hok.poll, fun hno => ?_, nofun⟩ fun _ => hsome, fun hb => ?_⟩
    · rw [hp] at hno
      cases hno
    · have htold := told_append (h := (q.clock.getD s.world.now, q.token, q.account)) hp hover none
      have hv' : verdict p (q.clock.getD s.world.now) q.token q.account = some x := by rw [hclock]; exact hv
      rw [hv', Option.getD_some] at htold
      obtain ⟨j, hj⟩ := Option.isSome_iff_exists.1 hsome
      obtain ⟨g, hg⟩ : ∃ g, s.flows[j]? = some g := ⟨_, List.getElem?_eq_getElem (h.valid j hj)⟩
      have hshown := hb j hj g hg
      have hreported : reported o (q.prog.tick s.world).1 = some x := by
        rw [hworld, horg, reported_overwritten, hshown, Option.map_some]
      by_cases hij : j = i
      · subst hij
        refine iff_of_true (fun k hk g' hg' => ?_) fun _ _ _ _ _ _ _ _ _ _ _ => .inl hj
        cases hj.symm.trans hk
        obtain ⟨-, rfl⟩ | ⟨hne, -⟩ := mem_set hg'
        · rw [htold]
          exact hreported
        · exact (hne rfl).elim
      · have hg' : ∀ x, (s.flows.set i x)[j]? = some g := fun x => by rw [List.getElem?_set_ne (Ne.symm hij), hg]
        constructor
        · intro hb' f' hf' p' hp' q' hq' t' ht' x' hx' _
          cases hi.symm.trans hf'
          cases hq.symm.trans hq'
          cases hp.symm.trans hp'
          cases hclock.symm.trans ht'
          cases hv.symm.trans hx'
          have hx := hb' j hj g (hg' _)
          exact .inr (hshown.trans (hx.symm.trans hreported))
        · intro hcur k hk g' hgk
          cases hj.symm.trans hk
          cases (hg' _).symm.trans hgk
          have hx := hcur f hi p hp q hq t hclock x hv (by rw [htrue]; rfl)
          obtain hnew | hx := hx
          · rw [hj] at hnew
            cases hnew
            exact (hij rfl).elim
          · exact hreported.trans (hx.symm.trans hshown)

theorem Inv.begin (h : Inv o s) {f' : Flow} (hf' : FlowOK o f') (hmade : f'.made = 0) :
    Inv o { s with flows := s.flows ++ [f'] } ∧ (Belongs o s → Belongs o { s with flows := s.flows ++ [f'] }) := by
  refine ⟨⟨fun g hg => ?_, fun g hg hlt => ?_, fun j hj => ?_⟩, fun hb j hj g hg => hb j hj g ?_⟩
  · cases List.mem_append.1 hg with
    | inl hg => exact h.flows g hg
    | inr hg => rw [List.mem_singleton.1 hg]; exact hf'
  · cases List.mem_append.1 hg with
    | inl hg => exact h.opened g hg hlt
    | inr hg =>
        rw [List.mem_singleton.1 hg, hmade] at hlt
        cases hlt
  · rw [List.length_append]
    exact Nat.lt_add_right _ (h.valid j hj)
  · rwa [List.getElem?_append_left (h.valid j hj)] at hg

theorem Inv.ask (h : Inv o s) (hi : s.flows[i]? = some f) (hp : f.poll = some p) (hover : f.over = false)
    (token account : Reply) (rls : Bool) :
    let q : Round := { token := token, account := account, prog := (pollGitHubDevice p token account).cmd rls }
    let s' : State := { s with flows := s.flows.set i { f with round := some q } }
    Inv o s' ∧ (Belongs o s → Belongs o s') := by
  have hmem := List.mem_of_getElem? hi
  have hok := h.flows f hmem
  refine ⟨h.set ⟨hok.start, hok.poll, fun hno => ?_, fun q hq => ?_⟩ (h.opened f hmem), fun hb j hj g hg => ?_⟩
  · rw [hp] at hno
    cases hno
  · cases hq
    refine ⟨hover, safe_poll p token account rls, rfl, p, .fresh, hp, .inl ⟨rfl, rfl⟩, ?_⟩
    exact rounds_poll p token account rls
  · obtain ⟨rfl, rfl⟩ | ⟨-, hg⟩ := mem_set hg
    · exact hb j hj f hi
    · exact hb j hj g hg

/-- What each step keeps, and when it keeps what is shown. -/
theorem Inv.step (h : Inv o s) (e : Event) :
    Inv o (step a o s e) ∧ (Belongs o s → (Belongs o (step a o s e) ↔ Current o s e)) := by
  have hquiet : ∀ {s' : State}, Inv o s' ∧ (Belongs o s → Belongs o s') → Current o s e →
      Inv o s' ∧ (Belongs o s → (Belongs o s' ↔ Current o s e)) :=
    fun h' hc => ⟨h'.1, fun hb => iff_of_true (h'.2 hb) hc⟩
  cases e with
  | tick d => exact hquiet ⟨⟨h.flows, h.opened, h.valid⟩, fun hb => hb⟩ trivial
  | device userID role r =>
      have hok := starts_device ⟨userID, o, role⟩ r a.server.rls
      exact hquiet (h.begin ⟨hok, nofun, fun _ => ⟨rfl, rfl⟩, nofun⟩ rfl) trivial
  | web userID role r =>
      have hok := starts_web a ⟨userID, o, role⟩ r a.server.rls
      exact hquiet (h.begin ⟨hok, nofun, fun _ => ⟨rfl, rfl⟩, nofun⟩ rfl) trivial
  | turn i =>
      cases hi : s.flows[i]? with
      | none => simpa only [DeviceFlow.step, hi] using hquiet ⟨h, fun hb => hb⟩ trivial
      | some f => simpa only [DeviceFlow.step, hi] using hquiet (h.turn hi) trivial
  | round i token account =>
      simp only [DeviceFlow.step]
      split
      · next f hi =>
          split
          · next p hp _ =>
              split
              · exact hquiet ⟨h, fun hb => hb⟩ trivial
              · next hover => exact hquiet (h.ask hi hp (Bool.not_eq_true _ ▸ hover) token account _) trivial
          · exact hquiet ⟨h, fun hb => hb⟩ trivial
      · exact hquiet ⟨h, fun hb => hb⟩ trivial
  | poll i =>
      simp only [DeviceFlow.step]
      split
      · next f hi =>
          split
          · next q hq => exact h.advance hi hq
          · next hq =>
              refine hquiet ⟨h, fun hb => hb⟩ fun f' hf' _ _ q hq' => ?_
              cases hi.symm.trans hf'
              rw [hq] at hq'
              cases hq'
      · next hi =>
          refine hquiet ⟨h, fun hb => hb⟩ fun f' hf' => ?_
          rw [hi] at hf'
          cases hf'

/-! ## What the status shows -/

/-- The status of the newest flow, once it is not pending, does not change before another start. -/
def Lasting (a : API) (o : Id) (s : State) (e : Event) : Prop :=
  s.newest.isSome → (step a o s e).newest = s.newest → ∀ x, x ≠ pending → reported o s.world = some x →
    reported o (step a o s e).world = some x

theorem over_of_told (h : f.told ≠ pending) : f.over = true := by
  unfold Flow.told at h
  unfold Flow.over
  cases hs : f.poll.bind fun p => f.heard.findSome? fun h => verdict p h.1 h.2.1 h.2.2 with
  | none => rw [hs] at h; exact (h rfl).elim
  | some x => rfl

/-- No step changes what the rounds of a flow that is over came to. -/
theorem told_step (h : Inv o s) (e : Event) (hi : s.flows[i]? = some f) (hover : f.over = true) :
    ∃ f', (step a o s e).flows[i]? = some f' ∧ f'.told = f.told := by
  have hlt := (List.getElem?_eq_some_iff.1 hi).1
  have happend : ∀ g, (s.flows ++ [g])[i]? = some f := fun g => by rw [List.getElem?_append_left hlt, hi]
  have hset : ∀ {j : Nat} {g g' : Flow}, s.flows[j]? = some g → (j = i → g'.told = f.told) →
      ∃ f', (s.flows.set j g')[i]? = some f' ∧ f'.told = f.told := fun {j g g'} hj htold => by
    by_cases hij : j = i
    · subst hij
      exact ⟨g', List.getElem?_set_self hlt, htold rfl⟩
    · exact ⟨f, by rw [List.getElem?_set_ne hij, hi], rfl⟩
  cases e with
  | tick d => exact ⟨f, hi, rfl⟩
  | device userID role r => exact ⟨f, happend _, rfl⟩
  | web userID role r => exact ⟨f, happend _, rfl⟩
  | turn j =>
      simp only [DeviceFlow.step]
      split
      · next g hj =>
          unfold State.turn
          split
          · exact ⟨f, hi, rfl⟩
          · next hh =>
              refine hset hj fun hij => ?_
              subst hij
              cases hi.symm.trans hj
              exact (turn_flow (h.flows f (List.mem_of_getElem? hi)) (Bool.not_eq_true _ ▸ hh) s.world).2.1
      · exact ⟨f, hi, rfl⟩
  | round j token account =>
      simp only [DeviceFlow.step]
      split
      · next g hj =>
          split
          · split
            · exact ⟨f, hi, rfl⟩
            · refine hset hj fun hij => ?_
              subst hij
              cases hi.symm.trans hj
              rfl
          · exact ⟨f, hi, rfl⟩
      · exact ⟨f, hi, rfl⟩
  | poll j =>
      simp only [DeviceFlow.step]
      split
      · next g hj =>
          split
          · next q hq =>
              unfold State.advance
              split
              · exact ⟨f, hi, rfl⟩
              · refine hset hj fun hij => ?_
                subst hij
                cases hi.symm.trans hj
                have hgoing := ((h.flows f (List.mem_of_getElem? hi)).round q hq).1
                rw [hover] at hgoing
                cases hgoing
          · exact ⟨f, hi, rfl⟩
      · exact ⟨f, hi, rfl⟩

theorem lasting_step (h : Inv o s) (hb : Belongs o s) (e : Event) (hb' : Belongs o (step a o s e)) :
    Lasting a o s e := by
  intro hsome hsame x hx hshown
  obtain ⟨i, hi⟩ := Option.isSome_iff_exists.1 hsome
  obtain ⟨f, hf⟩ : ∃ f, s.flows[i]? = some f := ⟨_, List.getElem?_eq_getElem (h.valid i hi)⟩
  have htold := (hb i hi f hf).symm.trans hshown
  have hover := over_of_told fun hp => hx ((Option.some.inj htold).symm.trans hp)
  obtain ⟨f', hf', heq⟩ := told_step (a := a) h e hf hover
  rw [hb' i (hsame.trans hi) f' hf', heq]
  exact htold

theorem inv_start (o : Id) (w : World) : Inv o { world := w } :=
  ⟨List.forall_mem_nil _, List.forall_mem_nil _, fun _ h => by cases h⟩

/-- What is shown is at all times the outcome of the newest flow's own rounds, just when no other poller writes
anything else; and then it lasts until another start. -/
theorem shown_iff (a : API) (o : Id) (w : World) (es : List Event) :
    (Runs.Always (step a o) (Belongs o) { world := w } es ↔
        Runs.Meets (step a o) (Current o) { world := w } es) ∧
      (Runs.Meets (step a o) (Current o) { world := w } es →
        Runs.Meets (step a o) (Lasting a o) { world := w } es) := by
  have hinv := inv_start o w
  have hbelongs : Belongs o { world := w } := nofun
  have hkeep : ∀ s e, Inv o s ∧ Belongs o s → Current o s e →
      Inv o (step a o s e) ∧ Belongs o (step a o s e) := fun s e hs hc => by
    exact ⟨(hs.1.step e).1, ((hs.1.step e).2 hs.2).2 hc⟩
  have halways := fun hes : Runs.Meets (step a o) (Current o) { world := w } es =>
    Runs.always_of_meets (P := fun s => Inv o s ∧ Belongs o s) hkeep ⟨hinv, hbelongs⟩ hes
  refine ⟨⟨fun h => ?_, fun h => (halways h).mono fun s hs => hs.2⟩, fun h => ?_⟩
  · have hinvs : Runs.Always (step a o) (Inv o) { world := w } es :=
      Runs.always_of_meets (fun s e hs _ => (hs.step e).1) hinv
        (.of_forall (C := fun _ _ => True) (fun _ _ => trivial) _ es)
    exact Runs.meets_of_always (fun s e hs hs' => ((hs.1.step e).2 hs.2).1 hs'.2) (hinvs.and h)
  · refine Runs.meets_of_always (P := fun s => Inv o s ∧ Belongs o s) (fun s e hs hs' => ?_) (halways h)
    exact lasting_step hs.1 hs.2 e hs'.2

/-- `githubDeviceStatus` reports what the slot shows. -/
theorem run_githubDeviceStatus (u : Caller) (rls : Bool) (w : World) (f : GhFlow) (hu : can u.role "manage" = true)
    (hf : w.http.ghFlows u.orgID = some f) :
    ((githubDeviceStatus u).cmd rls).run w = (w, some (writeJSON 200 (.obj [("status", .str (Outcome.of f).status),
      ("login", .str (Outcome.of f).login), ("error", .str (Outcome.of f).errMsg), ("user_code", .str f.userCode),
      ("verification_uri", .str f.verifyURI)]))) := by
  unfold githubDeviceStatus guarded
  rw [if_pos hu]
  refine (Prog.run_bind_of_eq (Prog.run_lift _ _)).trans ?_
  dsimp only
  rw [hf]
  rfl

namespace Sample

def deviceCode (code : String) : Request :=
  { method := "POST", path := "/v1/connections/git/github/device",
    replies := [.answer 200 ("\x7b\"device_code\":\"" ++ code ++ "\"\x7d")] }

def refusal : Reply := .answer 200 "\x7b\"error\":\"access_denied\"\x7d"

/-- A flow is started anew, and the user refuses the first one. -/
def restarted : List Event :=
  [.device "usr_a" "owner" (deviceCode "A"), .turn 0, .turn 0, .turn 0,
    .device "usr_a" "owner" (deviceCode "B"), .turn 1, .turn 1, .turn 1, .round 0 refusal refusal, .poll 0, .poll 0]

end Sample

/-- The newest flow shows `denied`, which is the outcome of the one before. -/
theorem foreign_outcome : ¬ Runs.Always (step {} "org_a") (Belongs "org_a") { world := {} } Sample.restarted := by
  intro h
  have hshown : reported "org_a" (Runs.exec (step {} "org_a") { world := {} } Sample.restarted).world =
      some ⟨"denied", "", "autorização negada"⟩ := by decide +kernel
  have htold : (Runs.exec (step {} "org_a") { world := {} } Sample.restarted).flows[1]?.map Flow.told =
      some pending := by decide +kernel
  obtain ⟨f, hf, hpending⟩ := Option.map_eq_some_iff.1 htold
  have hbelongs := h.last 1 (by decide +kernel) f hf
  rw [hshown, hpending] at hbelongs
  exact absurd hbelongs (by decide)

end DeviceFlow

end Apifor
