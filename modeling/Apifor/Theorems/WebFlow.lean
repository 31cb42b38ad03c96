import Apifor.Lemmas.Requests
import Apifor.Theorems.Connections
import Apifor.Lib.Follows
import Apifor.Lib.Runs

/-!
# The web flow

Starts and callbacks of the web flow through the whole chain of the server, in any order of their steps. A state
is good for one callback and for ten minutes. The callback of a browser carries no bearer, and is turned away by a
server that asks for one.
-/

namespace Apifor

namespace WebFlow

open API

variable {a : API} {u : Caller} {r : Request} {w w' : World}

/-! ## Starts and callbacks -/

inductive Kind | start | callback
  deriving DecidableEq

def Kind.path : Kind → String
  | .start => "/v1/connections/git/github/oauth/start"
  | .callback => "/v1/connections/git/github/oauth/callback"

/-- A state that a start has put into memory: by whom, what for, and the clock that the start had read. -/
structure Issue where
  state : String
  caller : Caller
  purpose : String
  read : Time

inductive Entry
  | issued (i : Issue)
  | consumed (state : String)

/-- The last issue of a state that no callback has consumed since; the newest entry comes first. -/
def standing (state : String) : List Entry → Option Issue
  | [] => none
  | .issued i :: es => if i.state = state then some i else standing state es
  | .consumed s :: es => if s = state then none else standing state es

def tenMinutes : Int := 600 * second

def Issue.young (i : Issue) (now : Time) : Bool := decide (now - i.read < tenMinutes)

def purposeOfType : ConnectionType → String
  | .code => "code"
  | .tasks => "tasks"
  | .ci => "ci"
  | .docs => "docs"
  | .observability | .ai_engine => ""

/-- The connections that a step has stored: the orgs and the purposes of the new rows. -/
def added (w w' : World) : List (Id × String) :=
  ((w'.db .connection).rows.filter fun c => !w.db.has .connection c.id).map fun c => (c.orgId, purposeOfType c.type)

/-- Where a request stands in `serve`: before its handler, in it, or after it. -/
inductive Phase
  | front (p : Cmd (Option Response))
  | handler (made : Nat) (p : Cmd Response)
  | answer (p : Cmd Unit)

/-- A request, and what it has come to: what a start has drawn and read, what a callback found of its state when it
consumed it or when it was turned away, and the connections that it has stored. -/
structure Thread where
  kind : Kind
  request : Request
  phase : Phase
  nonce : String := ""
  row : Id := ""
  clock : Time := 0
  decided : Bool := false
  due : Option Issue := none
  stored : List (Id × String) := []

def Thread.state (t : Thread) : String := t.request.get "state"

structure State where
  world : World
  ledger : List Entry := []
  threads : List Thread := []

/-- Time passes, other requests change the store, a request comes in, or one takes a step. -/
inductive Event
  | tick (d : Nat)
  | change (db : Store)
  | request (kind : Kind) (r : Request)
  | turn (i : Nat)

/-- The middleware. -/
def front (a : API) (r : Request) : Cmd (Option Response) :=
  (countMetric fun k => { k with requests := k.requests + 1 }).bind fun _ => a.refuse (a.authz r) r

theorem serve_front (a : API) (r : Request) : a.serve r = (front a r).bind (a.pass r) := by
  rw [serve_eq, front, Prog.bind_assoc]

/-- The request has its response; a callback that has not consumed its state leaves it standing. -/
def Thread.close (t : Thread) (ledger : List Entry) (now : Time) (resp : Response) : Thread :=
  let t := { t with phase := .answer (recordStatus resp.code) }
  if t.decided then t else { t with decided := true, due := standing t.state ledger, clock := now }

/-- What a step of the handler adds to what is known of a request. -/
def Thread.note (t : Thread) (made : Nat) (w w' : World) (ledger : List Entry) : Thread :=
  match t.kind, made with
  | .start, 0 => { t with nonce := w.nonce w.drawn }
  | .start, 1 => { t with clock := w.now }
  | .callback, 0 => { t with decided := true, due := standing t.state ledger }
  | .callback, 1 => { t with clock := w.now }
  | .callback, 2 => { t with row := "con_" ++ w.ulid w.drawn }
  | .callback, _ => { t with stored := t.stored ++ added w w' }
  | _, _ => t

/-- A start issues its state with the third step of its handler, a callback consumes its state with the first. -/
def Thread.entries (a : API) (t : Thread) (made : Nat) : List Entry :=
  match t.kind, made with
  | .start, 2 => [.issued ⟨t.nonce, a.authz t.request, purposeOf t.request, t.clock⟩]
  | .callback, 0 => [.consumed t.state]
  | _, _ => []

def State.turn (a : API) (s : State) (i : Nat) (t : Thread) : State :=
  match t.phase with
  | .front p =>
      let q := p.tick s.world
      let t' := match q.2.result? with
        | some (some resp) => t.close s.ledger s.world.now resp
        | some none => { t with phase := .handler 0 (a.cors (a.authz t.request) t.request) }
        | none => { t with phase := .front q.2 }
      { s with world := q.1, threads := s.threads.set i t' }
  | .handler n p =>
      match p.result? with
      | some resp => { s with threads := s.threads.set i (t.close s.ledger s.world.now resp) }
      | none =>
          if p.halted then s
          else
            let q := p.tick s.world
            let t' := t.note n s.world q.1 s.ledger
            { world := q.1
              ledger := t.entries a n ++ s.ledger
              threads := s.threads.set i { t' with phase := .handler (n + 1) q.2 } }
  | .answer p =>
      let q := p.tick s.world
      { s with world := q.1, threads := s.threads.set i { t with phase := .answer q.2 } }

def step (a : API) (s : State) : Event → State
  | .tick d => { s with world := { s.world with now := s.world.now + d } }
  | .change db => { s with world := { s.world with db := db } }
  | .request kind r =>
      let r := { r with path := kind.path }
      { s with threads := s.threads ++ [{ kind := kind, request := r, phase := .front (front a r) }] }
  | .turn i =>
      match s.threads[i]? with
      | some t => s.turn a i t
      | none => s

/-! ## Right callbacks -/

/-- GitHub gives a token for the code. -/
def granted (r : Request) : Bool :=
  match r.reply 0 with
  | .failed _ => false
  | .answer _ body => decide ((Json.decodeFirst tokenFields body {}).1.accessToken ≠ "")

/-- A callback without a bearer and with a code that GitHub accepts, for a token that is valid. -/
def accepted (r : Request) : Bool :=
  r.claims.isNone && decide (r.get "code" ≠ "") && granted r && (validateGitToken "github" "" (r.reply 1)).isOk

/-- The callback's state was issued for the org and the purpose by a caller who may manage, less than ten minutes
before, and stood. -/
def Thread.Deserves (t : Thread) (o : Id) (purpose : String) : Prop :=
  ∃ i, t.due = some i ∧ i.caller.orgID = o ∧ i.purpose = purpose ∧ can i.caller.role "manage" = true ∧
    i.young t.clock = true

def Thread.answered (t : Thread) : Bool :=
  match t.phase with
  | .answer _ => true
  | _ => false

/-- The connections that it has stored are those that it deserves. -/
def Thread.Right (t : Thread) : Prop :=
  t.kind = .callback → accepted t.request = true → ∀ o purpose,
    ((o, purpose) ∈ t.stored → t.Deserves o purpose) ∧
      (t.answered = true → t.Deserves o purpose → (o, purpose) ∈ t.stored)

/-- A connection of the org can be stored under the id. -/
def storable (a : API) (s : Store) (org id : Id) : Bool :=
  s.has .org org && !s.has .connection id && (!a.server.rls || decide (org ≠ ""))

/-- The middleware asks for a bearer, which the request does not carry. -/
def unauthorized (a : API) (r : Request) : Bool :=
  a.requireAuth && decide (r.method ≠ "OPTIONS") && !publicPath r.path && decide ((a.authz r).userID = "")

/-- The rate limit of the request's org is used up, and the next step says so. -/
def limited (p : Cmd (Option Response)) (w : World) : Bool :=
  match (p.tick w).2.result? with
  | some (some resp) => decide (resp.code = 429)
  | _ => false

/-- The callback's handler answers without a look at the state. -/
def dismissed (r : Request) : Bool := decide (r.method = "OPTIONS") || decide (r.get "error" ≠ "")

/-- No callback that GitHub accepts is answered before it has consumed its state, while that is good: by the
middleware, for want of a bearer or for the rate limit, or by the handler, as an `OPTIONS` request or for an `error`
parameter. None reads the clock when the state is ten minutes old to the nanosecond, or finds that the connection
cannot be stored. -/
def passes (a : API) (s : State) : Event → Bool
  | .turn i =>
      match s.threads[i]? with
      | some t =>
          if t.kind = .callback ∧ accepted t.request = true then
            let spent := (standing t.state s.ledger).all fun i => !i.young s.world.now
            match t.phase with
            | .front p => !(unauthorized a t.request || limited p s.world) || spent
            | .handler 0 _ => !dismissed t.request || spent
            | .handler 1 _ => t.due.all fun i => decide (s.world.now - i.read ≠ tenMinutes)
            | .handler 3 _ => t.due.all fun i => storable a s.world.db i.caller.orgID t.row
            | _ => true
          else true
      | none => true
  | _ => true

/-! ## The middleware -/

/-- The states in memory and the clock are as they were. -/
structure Quiet (w w' : World) : Prop where
  states : w'.http.ghStates = w.http.ghStates
  now : w'.now = w.now

theorem Quiet.refl (w : World) : Quiet w w := ⟨rfl, rfl⟩

theorem quiet_httpStep {α : Type} {f : Time → HttpMemory → HttpMemory × α}
    (h : ∀ now m, (f now m).1.ghStates = m.ghStates) : Prog.Each Quiet (httpStep f) :=
  .lift fun w => ⟨h w.now w.http, rfl⟩

theorem quiet_recordStatus (code : Nat) : Prog.Each Quiet (recordStatus code) := quiet_httpStep fun _ _ => rfl

theorem quiet_unixNow : Prog.Each Quiet unixNow := .lift fun w => .refl w

theorem quiet_query {α : Type} (n : String) (f : Time → Store → Except DbErr α) : Prog.Each Quiet (query n f) :=
  .attempt fun w w' x h => by
    obtain ⟨y, -, heq⟩ := map_eq_ok h
    cases heq
    exact .refl w

theorem quiet_rpm (org : Id) : Prog.Each Quiet (rpm org) := by
  refine .bind quiet_unixNow fun unix => .bind (quiet_httpStep fun _ _ => rfl) fun cached => ?_
  cases cached with
  | some n => exact .done n
  | none =>
      refine .bind (.bind (quiet_query _ _) fun plan => ?_) fun plan => quiet_httpStep fun _ _ => rfl
      cases plan with
      | ok p => exact .done p
      | error e => exact .done _

theorem quiet_allow (org : Id) : Prog.Each Quiet (allow org) := by
  refine .bind (quiet_rpm _) fun limit => ?_
  split
  · exact .done _
  · exact .bind quiet_unixNow fun unix => quiet_httpStep fun _ _ => rfl

/-- The program is quiet, and refuses the request only for want of a bearer or for the rate limit. -/
abbrev Fronts (a : API) (r : Request) : Cmd (Option Response) → Prop :=
  Prog.Follows (fun _ => false) (fun w w' _ _ _ => Quiet w w')
    (fun (_ : Unit) x => ∀ resp, x = some resp → unauthorized a r = true ∨ resp.code = 429) ()

/-- A quiet program before the rest of the middleware. -/
theorem fronts_bind {α : Type} {c : Cmd α} {g : α → Cmd (Option Response)} (hc : Prog.Each Quiet c)
    (hg : ∀ x, Fronts a r (g x)) : Fronts a r (c.bind g) :=
  (Prog.Follows.of_each Quiet.refl (fun _ _ _ h => h) hc).bind fun _ x _ => hg x

theorem fronts_front (a : API) (r : Request) : Fronts a r (front a r) := by
  refine fronts_bind (quiet_httpStep fun _ _ => rfl) fun _ => ?_
  unfold refuse
  split
  · next h =>
      obtain ⟨hasks, hm, hpublic, huser⟩ := h
      exact .done fun _ _ => .inl (by simp [unauthorized, hasks, hm, hpublic, huser])
  · split
    · refine fronts_bind (quiet_allow _) fun ok => ?_
      cases ok with
      | true => exact .done nofun
      | false =>
          refine fronts_bind (quiet_httpStep fun _ _ => rfl) fun _ => .done fun resp hresp => .inr ?_
          cases hresp
          rfl
    · exact .done nofun

/-! ## The routes -/

theorem cors_options (hm : r.method = "OPTIONS") : a.cors u r = .done ⟨204, .empty⟩ := if_pos hm

/-- What a route alone matches leads to its handler. -/
theorem cors_of_routes {e : String × Handler} (hm : r.method ≠ "OPTIONS") (hclean : cleanPath r.path = r.path)
    (hroutes : a.routes.filter (fun e => matchesPath r.path e.1) = [e]) : a.cors u r = e.2.run a u r := by
  unfold cors mux
  rw [if_neg hm]
  dsimp only
  rw [hclean, hroutes]
  exact if_pos rfl

theorem screens_callback : ∀ n ∈ a.screens.map (·.1), matchesPath Kind.callback.path n = false := by
  simp only [screens, List.map]
  decide +kernel

theorem cors_callback (hp : r.path = Kind.callback.path) (hm : r.method ≠ "OPTIONS") :
    a.cors u r = a.githubOAuthCallback r := by
  have hscreens : (a.screens.map fun e => (e.1, Handler.own settings e.2)).filter
      (fun e => matchesPath Kind.callback.path e.1) = [] := by
    refine List.filter_eq_nil_iff.2 fun e he => ?_
    obtain ⟨sc, hsc, rfl⟩ := List.mem_map.1 he
    rw [screens_callback _ (List.mem_map_of_mem hsc)]
    decide
  refine cors_of_routes (e := ("/v1/connections/git/github/oauth/callback", .free fun _ r => a.githubOAuthCallback r))
    hm (by rw [hp]; decide) ?_
  rw [hp, routes, List.filter_append, hscreens]
  simp +decide only [List.filter_cons, List.filter_nil, List.nil_append, if_true, if_false]

theorem cors_start (hp : r.path = Kind.start.path) (hm : r.method ≠ "OPTIONS") :
    a.cors u r = (a.githubOAuthStart u r).cmd a.server.rls := by
  refine cors_of_routes (e := ("/v1/connections/git/github/oauth/start", .own settings a.githubOAuthStart))
    hm (by rw [hp]; decide) ?_
  rw [hp, routes, List.filter_append]
  simp +decide only [screens, List.map_cons, List.map_nil, List.filter_cons, List.filter_nil, List.append_nil, if_true,
    if_false]

/-! ## A callback -/

inductive Stage
  | fresh
  | taken (st : Option GhState)
  | timed (st : Option GhState) (now : Time)
  | named (st : GhState) (id : Id)
  | tried
  | noted
  | failed

/-- What a step of a callback does. -/
inductive Moves (a : API) (r : Request) (w : World) : World → Stage → Stage → Prop
  | take : Moves a r w (takeState (r.get "state") w).1 .fresh (.taken (w.http.ghStates (r.get "state")))
  | clock {st : Option GhState} : Moves a r w w (.taken st) (.timed st w.now)
  | name {st : GhState} {t : Time} (h : t ≤ st.exp) :
      Moves a r w { w with drawn := w.drawn + 1 } (.timed (some st) t) (.named st ("con_" ++ w.ulid w.drawn))
  | store {st : GhState} {id : Id} {w' : World} (h : Quiet w w')
      (hadded : ∀ x ∈ added w w', x = (st.org, normalizePurpose st.purpose))
      (hok : storable a w.db st.org id = true → (st.org, normalizePurpose st.purpose) ∈ added w w') :
      Moves a r w w' (.named st id) .tried
  | note {w' : World} (h : Quiet w w') (hdb : w'.db = w.db) : Moves a r w w' .tried .noted
  | fail {st : Option GhState} {t : Time} {w' : World} (h : Quiet w w') (hno : accepted r = false) :
      Moves a r w w' (.timed st t) .failed

/-- Where a callback may end. -/
def Ends (r : Request) : Stage → Response → Prop
  | .fresh, _ => dismissed r = true
  | .timed st t, _ => accepted r = true → ∀ g, st = some g → g.exp < t
  | .noted, _ => True
  | .failed, _ => True
  | _, _ => False

abbrev Keeps (a : API) (r : Request) : Stage → Cmd Response → Prop :=
  Prog.Follows (fun _ => false) (fun w w' c _ c' => Moves a r w w' c c') (Ends r)

theorem added_self (w : World) : added w w = [] := by
  unfold added
  rw [List.map_eq_nil_iff, List.filter_eq_nil_iff]
  intro c hc
  have hhas : w.db.has .connection c.id = true := List.any_eq_true.2 ⟨c, hc, decide_eq_true rfl⟩
  rw [hhas]
  exact Bool.false_ne_true

theorem admissible_connection {rls : Bool} {s : Store} {B id : Id} {now : Time} {type : ConnectionType}
    {provider label : String} {st : ConnectionSettings} (hB : !rls || decide (B ≠ "")) (horg : s.has .org B = true) :
    admissible (withOrg rls B) s .connection (Slots.connection B id now type provider label st) = .ok () := by
  have hwrites : (withOrg rls B).writes s .connection (Slots.connection B id now type provider label st) = true := by
    cases rls with
    | false => rfl
    | true => simpa [withOrg, Scope.writes, Tbl.isGlobal, owns, Slots.connection] using hB
  have hrefs : (refs .connection (Slots.connection B id now type provider label st)).all (fun q => s.has q.1 q.2) =
      true := by simpa [refs, Slots.connection] using horg
  rw [admissible, if_neg (by simp [inRange]), hwrites, hrefs]
  simp

theorem insert_connection {rls : Bool} {s : Store} {B id : Id} {now : Time} {type : ConnectionType}
    {provider label : String} {st : ConnectionSettings} (hB : !rls || decide (B ≠ "")) (horg : s.has .org B = true)
    (hid : s.has .connection id = false) :
    ∃ s', Apifor.insert (withOrg rls B) .connection (Slots.connection B id now type provider label st) s = .ok s' := by
  have hclash : (s .connection).rows.any (clash .connection (Slots.connection B id now type provider label st)) =
      false := List.any_eq_false.2 fun c _ => Bool.false_ne_true
  unfold Apifor.insert
  rw [admissible_connection hB horg, hclash]
  dsimp only
  rw [if_neg Bool.false_ne_true]
  cases hins : (s .connection).insert? (Slots.connection B id now type provider label st) with
  | none =>
      obtain ⟨c, hc, hkey⟩ := Table.insert?_eq_none.1 hins
      have hhas : s.has .connection id = true :=
        List.any_eq_true.2 ⟨c, hc, decide_eq_true (congrArg Prod.fst hkey)⟩
      rw [hid] at hhas
      cases hhas
  | some x => exact ⟨_, rfl⟩

/-- The transaction that stores a connection. -/
theorem moves_tx {st : GhState} {id : Id} {old : Connection → Bool} {type : ConnectionType} {provider label : String}
    {x : ConnectionSettings} (htype : purposeOfType type = normalizePurpose st.purpose) (w : World) :
    let f := fun w : World => ((do
      let _ ← Tx.delete .connection old
      let now ← Tx.now
      Tx.insert .connection (Slots.connection st.org id now type provider label x)
      pure id : Tx settings st.org Id).run (withOrg a.server.rls st.org) w.now w.db).map fun r =>
        ({ w with db := r.1 }, r.2)
    Moves a r w (Prog.settle f w).1 (.named st id) .tried := by
  intro f
  have hrun := Slots.run_body (B := st.org) (withOrg a.server.rls st.org) w.now w.db old id type provider label x
  obtain ⟨s₁, hs₁⟩ : ∃ s₁, s₁ = (Apifor.delete (withOrg a.server.rls st.org) .connection old w.db).1 := ⟨_, rfl⟩
  rw [← hs₁] at hrun
  have hsub : ∀ c ∈ (s₁ .connection).rows, w.db.has .connection c.id = true := fun c hc => by
    rw [hs₁] at hc
    exact List.any_eq_true.2 ⟨c, (List.mem_filter.1 hc).1, decide_eq_true rfl⟩
  have hins' : storable a w.db st.org id = true → ∃ s', Apifor.insert (withOrg a.server.rls st.org) .connection
      (Slots.connection st.org id w.now type provider label x) s₁ = .ok s' := fun hstorable => by
    simp only [storable, Bool.and_eq_true, Bool.not_eq_true'] at hstorable
    obtain ⟨⟨horg, hid⟩, hB⟩ := hstorable
    refine insert_connection hB (by rw [hs₁]; exact horg) ?_
    cases hhas : s₁.has .connection id with
    | false => rfl
    | true =>
        obtain ⟨c, hc, hkey⟩ := List.any_eq_true.1 hhas
        rw [← hid, ← hsub c hc, show c.id = id from of_decide_eq_true hkey]
  cases hins : Apifor.insert (withOrg a.server.rls st.org) .connection
      (Slots.connection st.org id w.now type provider label x) s₁ with
  | error e =>
      have hf : f w = .error e := by
        show Except.map _ _ = _
        rw [hrun, hins]
        rfl
      have hsettle : (Prog.settle f w).1 = w := by rw [Prog.settle, hf]
      rw [hsettle]
      refine .store (.refl w) (fun y hy => ?_) fun hstorable => ?_
      · rw [added_self] at hy
        cases hy
      · obtain ⟨s', hs'⟩ := hins' hstorable
        rw [hins] at hs'
        cases hs'
  | ok s₂ =>
      have hf : f w = .ok ({ w with db := s₂ }, id) := by
        show Except.map _ _ = _
        rw [hrun, hins]
        rfl
      have hsettle : (Prog.settle f w).1 = { w with db := s₂ } := by rw [Prog.settle, hf]
      rw [hsettle]
      have hrows := insert_rows hins
      have hadded : added w { w with db := s₂ } =
          if w.db.has .connection id then [] else [(st.org, normalizePurpose st.purpose)] := by
        unfold added
        dsimp only
        rw [hrows, List.filter_cons, List.filter_eq_nil_iff.2 fun c hc => by rw [hsub c hc]; exact Bool.false_ne_true]
        cases hid : w.db.has .connection id with
        | true =>
            rw [if_neg (by rw [show w.db.has .connection (Slots.connection _ id _ _ _ _ _).id = true from hid]; simp)]
            rfl
        | false =>
            rw [if_pos (by rw [show w.db.has .connection (Slots.connection _ id _ _ _ _ _).id = false from hid]; simp)]
            rw [← htype]
            rfl
      refine .store ⟨rfl, rfl⟩ (fun y hy => ?_) fun hstorable => ?_
      · rw [hadded] at hy
        split at hy
        · cases hy
        · exact List.mem_singleton.1 hy
      · simp only [storable, Bool.and_eq_true, Bool.not_eq_true'] at hstorable
        rw [hadded, hstorable.1.2]
        exact List.mem_singleton_self _

theorem moves_replace {st : GhState} {t : Time} (h : t ≤ st.exp) {n : String} {old : Connection → Bool}
    {type : ConnectionType} {provider label : String} {x : ConnectionSettings}
    (htype : purposeOfType type = normalizePurpose st.purpose) :
    Prog.Follows (fun _ => false) (fun w w' c _ c' => Moves a r w w' c c') (fun c _ => c = .tried)
      (.timed (some st) t) ((DB.replaceConnection (B := st.org) n old type provider label x).cmd a.server.rls) := by
  refine .act (fun w => .named st ("con_" ++ w.ulid w.drawn)) (fun w => .name h) fun w => ?_
  exact .stmt (fun _ => .tried) (fun w' _ => moves_tx htype w') fun w' _ => .done rfl

theorem moves_storeGitHubConn {st : GhState} {t : Time} (h : t ≤ st.exp) (login token : String) :
    Prog.Follows (fun _ => false) (fun w w' c _ c' => Moves a r w w' c c') (fun c _ => c = .tried)
      (.timed (some st) t) ((storeGitHubConn (B := st.org) st.purpose login token).cmd a.server.rls) := by
  refine Prog.Follows.bind (Q := fun c _ => c = Stage.tried) ?_ fun c x hc => .done hc
  split_ifs with htasks hci hdocs
  · exact moves_replace h (by rw [htasks]; rfl)
  · exact moves_replace h (by rw [hci]; rfl)
  · exact moves_replace h (by rw [hdocs]; rfl)
  · refine moves_replace h ?_
    rw [normalizePurpose, if_neg (by simp [htasks, hci, hdocs])]
    rfl

theorem moves_failFlow (st : GhState) (t : Time) (hno : accepted r = false) (msg : String) :
    Keeps a r (.timed (some st) t) ((a.failFlow (B := st.org) st.purpose msg).cmd a.server.rls) :=
  .act (fun _ => .failed) (fun _ => .fail ⟨rfl, rfl⟩ hno) fun _ => .done trivial

theorem moves_finish (st : GhState) (t : Time) (h : t ≤ st.exp) :
    Keeps a r (.timed (some st) t) ((a.finishOAuth r st).cmd a.server.rls) := by
  unfold finishOAuth
  cases hreply : r.reply 0 with
  | failed msg => exact moves_failFlow st t (by simp [accepted, granted, hreply]) _
  | answer code body =>
      dsimp only
      split
      · next htoken => exact moves_failFlow st t (by simp [accepted, granted, hreply, htoken]) _
      · cases hvalid : validateGitToken "github" "" (r.reply 1) with
        | error msg => exact moves_failFlow st t (by simp [accepted, hvalid, Except.isOk, Except.toBool]) _
        | ok x =>
            refine Prog.Follows.bind (moves_storeGitHubConn h _ _) fun c _ hc => ?_
            subst hc
            exact .act (fun _ => .noted) (fun w => .note ⟨rfl, rfl⟩ rfl) fun _ => .done trivial

theorem moves_callback (a : API) (r : Request) : Keeps a r .fresh (a.githubOAuthCallback r) := by
  unfold githubOAuthCallback
  split
  · next herror => exact .done (show dismissed r = true by simp [dismissed, herror])
  · refine .act (fun w => .taken (w.http.ghStates (r.get "state"))) (fun w => .take) fun w => ?_
    refine .act (fun w' => .timed (w.http.ghStates (r.get "state")) w'.now) (fun w' => .clock) fun w' => ?_
    dsimp only [takeState]
    cases w.http.ghStates (r.get "state") with
    | none => exact .done fun _ g hg => nomatch hg
    | some st =>
        dsimp only [Prog.bind]
        split
        · next hbad =>
            refine .done fun hacc g hg => ?_
            cases hg
            obtain hcode | hlate := hbad
            · simp [accepted, hcode] at hacc
            · exact hlate
        · next hgood =>
            rw [not_or] at hgood
            exact moves_finish st _ (Int.not_lt.1 hgood.2)

/-! ## A start -/

inductive Opening
  | fresh
  | drawn (state : String)
  | read (state : String) (now : Time)
  | registered
  | shown

/-- The states that a start keeps. -/
def live (now : Time) (w : World) (k : String) : Option GhState :=
  (w.http.ghStates k).bind fun st => if now > st.exp then none else some st

/-- What a step of a start does. -/
inductive Opens (u : Caller) (r : Request) (w : World) : World → Opening → Opening → Prop
  | draw : Opens u r w { w with drawn := w.drawn + 1 } .fresh (.drawn (w.nonce w.drawn))
  | clock {state : String} : Opens u r w w (.drawn state) (.read state w.now)
  | register {state : String} {t : Time} (h : can u.role "manage" = true) :
      Opens u r w
        { w with http := { w.http with
            ghStates := Function.update (live t w) state (some ⟨u.orgID, purposeOf r, t + 600 * second⟩) } }
        (.read state t) .registered
  | flow {w' : World} (h : Quiet w w') : Opens u r w w' .registered .shown

abbrev Starts (u : Caller) (r : Request) : Opening → Cmd Response → Prop :=
  Prog.Follows (fun _ => false) (fun w w' c _ c' => Opens u r w w' c c') fun _ _ => True

theorem starts_web (a : API) (u : Caller) (r : Request) (rls : Bool) :
    Starts u r .fresh ((a.githubOAuthStart u r).cmd rls) := by
  unfold githubOAuthStart guarded
  split
  · exact .done trivial
  · split
    · next hcan =>
        split
        · exact .done trivial
        · refine .act (fun w => .drawn (w.nonce w.drawn)) (fun w => .draw) fun w => ?_
          refine .act (fun w' => .read (w.nonce w.drawn) w'.now) (fun w' => .clock) fun w' => ?_
          refine .act (fun _ => .registered) (fun w'' => .register hcan) fun w'' => ?_
          exact .act (fun _ => .shown) (fun w'' => .flow ⟨rfl, rfl⟩) fun _ => .done trivial
    · exact .done trivial

/-! ## The invariant -/

variable {s : State} {t : Thread} {ledger : List Entry} {now : Time}

def Issue.gh (i : Issue) : GhState := ⟨i.caller.orgID, i.purpose, i.read + tenMinutes⟩

structure Lawful (i : Issue) : Prop where
  manage : can i.caller.role "manage" = true
  purpose : normalizePurpose i.purpose = i.purpose

/-- Memory holds what stands, if that has not expired. -/
def Found (due : Option Issue) (st : Option GhState) (now : Time) : Prop :=
  (st = due.map Issue.gh ∧ ∀ i, due = some i → Lawful i) ∨
    st = none ∧ ∃ i, due = some i ∧ i.read + tenMinutes < now

theorem Found.mono {due : Option Issue} {st : Option GhState} {now' : Time} (h : Found due st now) (hle : now ≤ now') :
    Found due st now' :=
  h.imp_right fun ⟨hst, i, hi, hlt⟩ => ⟨hst, i, hi, Int.lt_of_lt_of_le hlt hle⟩

theorem not_young {i : Issue} (h : i.read + tenMinutes < now) : i.young now = false := by
  have hlt : tenMinutes < now - i.read := Int.lt_sub_left_of_add_lt h
  exact decide_eq_false (Int.lt_asymm hlt)

/-- The callback has consumed the state, which was good. -/
structure Held (t : Thread) (i : Issue) : Prop where
  decided : t.decided = true
  due : t.due = some i
  lawful : Lawful i
  young : accepted t.request = true → i.young t.clock = true

/-- What is known of a callback that has made some steps. -/
inductive At (now : Time) (t : Thread) : Nat → Stage → Prop
  | fresh (hd : t.decided = false) (hs : t.stored = []) : At now t 0 .fresh
  | taken {st : Option GhState} (hd : t.decided = true) (hs : t.stored = []) (hf : Found t.due st now) :
      At now t 1 (.taken st)
  | timed {st : Option GhState} (hd : t.decided = true) (hs : t.stored = []) (hf : Found t.due st t.clock)
      (hsharp : accepted t.request = true → ∀ i, t.due = some i → t.clock - i.read ≠ tenMinutes) :
      At now t 2 (.timed st t.clock)
  | named {i : Issue} (h : Held t i) (hs : t.stored = []) : At now t 3 (.named i.gh t.row)
  | tried {i : Issue} (h : Held t i)
      (hs : accepted t.request = true → ∀ x, x ∈ t.stored ↔ x = (i.caller.orgID, i.purpose)) : At now t 4 .tried
  | noted {i : Issue} (h : Held t i)
      (hs : accepted t.request = true → ∀ x, x ∈ t.stored ↔ x = (i.caller.orgID, i.purpose)) : At now t 5 .noted
  | failed (hd : t.decided = true) (hno : accepted t.request = false) : At now t 3 .failed

theorem At.mono {n : Nat} {c : Stage} {now' : Time} (h : At now t n c) (hle : now ≤ now') : At now' t n c := by
  cases h with
  | fresh hd hs => exact .fresh hd hs
  | taken hd hs hf => exact .taken hd hs (hf.mono hle)
  | timed hd hs hf hsharp => exact .timed hd hs hf hsharp
  | named h hs => exact .named h hs
  | tried h hs => exact .tried h hs
  | noted h hs => exact .noted h hs
  | failed hd hno => exact .failed hd hno

theorem Held.phase {i : Issue} (h : Held t i) (ph : Phase) : Held { t with phase := ph } i :=
  ⟨h.decided, h.due, h.lawful, h.young⟩

theorem At.phase {n : Nat} {c : Stage} (h : At now t n c) (ph : Phase) : At now { t with phase := ph } n c := by
  cases h with
  | fresh hd hs => exact .fresh hd hs
  | taken hd hs hf => exact .taken hd hs hf
  | timed hd hs hf hsharp => exact .timed hd hs hf hsharp
  | named h hs => exact .named (h.phase ph) hs
  | tried h hs => exact .tried (h.phase ph) hs
  | noted h hs => exact .noted (h.phase ph) hs
  | failed hd hno => exact .failed hd hno

/-- What is known of a start that has made some steps. -/
inductive AtStart (now : Time) (t : Thread) : Nat → Opening → Prop
  | fresh : AtStart now t 0 .fresh
  | drawn : AtStart now t 1 (.drawn t.nonce)
  | read (h : t.clock ≤ now) : AtStart now t 2 (.read t.nonce t.clock)
  | registered : AtStart now t 3 .registered
  | shown : AtStart now t 4 .shown

theorem AtStart.mono {n : Nat} {c : Opening} {now' : Time} (h : AtStart now t n c) (hle : now ≤ now') :
    AtStart now' t n c := by
  cases h with
  | fresh => exact .fresh
  | drawn => exact .drawn
  | read h => exact .read (Int.le_trans h hle)
  | registered => exact .registered
  | shown => exact .shown

theorem AtStart.phase {n : Nat} {c : Opening} (h : AtStart now t n c) (ph : Phase) :
    AtStart now { t with phase := ph } n c := by
  cases h with
  | fresh => exact .fresh
  | drawn => exact .drawn
  | read h => exact .read h
  | registered => exact .registered
  | shown => exact .shown

/-- A request is where its phase says. -/
def Placed (a : API) (now : Time) (t : Thread) : Prop :=
  match t.phase, t.kind with
  | .front p, _ => Fronts a t.request p ∧ t.decided = false ∧ t.stored = []
  | .handler n p, .callback => ∃ c, At now t n c ∧ Keeps a t.request c p
  | .handler n p, .start => ∃ c, AtStart now t n c ∧ Starts (a.authz t.request) t.request c p
  | .answer p, _ => Prog.Each Quiet p ∧ t.Right

structure Inv (a : API) (s : State) : Prop where
  table : ∀ k, Found (standing k s.ledger) (s.world.http.ghStates k) s.world.now
  paths : ∀ t ∈ s.threads, t.request.path = t.kind.path
  threads : ∀ t ∈ s.threads, Placed a s.world.now t

theorem Placed.mono {now' : Time} (h : Placed a now t) (hle : now ≤ now') : Placed a now' t := by
  unfold Placed at h ⊢
  split at h
  · exact h
  · obtain ⟨c, hat, hp⟩ := h
    exact ⟨c, hat.mono hle, hp⟩
  · obtain ⟨c, hat, hp⟩ := h
    exact ⟨c, hat.mono hle, hp⟩
  · exact h

theorem right_of_unfinished (hs : t.stored = []) (hans : t.answered = false) : t.Right := by
  intro _ _ o purpose
  rw [hs, hans]
  exact ⟨nofun, nofun⟩

theorem Held.deserves {i : Issue} (h : Held t i) (hacc : accepted t.request = true) {o : Id} {purpose : String} :
    t.Deserves o purpose ↔ (o, purpose) = (i.caller.orgID, i.purpose) := by
  constructor
  · rintro ⟨j, hj, rfl, rfl, -⟩
    cases h.due.symm.trans hj
    rfl
  · intro heq
    cases heq
    exact ⟨i, h.due, rfl, rfl, h.lawful.manage, h.young hacc⟩

theorem right_of_held {i : Issue} (h : Held t i)
    (hs : accepted t.request = true → ∀ x, x ∈ t.stored ↔ x = (i.caller.orgID, i.purpose)) : t.Right := by
  intro _ hacc o purpose
  rw [hs hacc, h.deserves hacc]
  exact ⟨fun hx => hx, fun _ hx => hx⟩

theorem Placed.right (h : Placed a now t) : t.Right := by
  obtain ⟨kind, request, phase, nonce, row, clock, decided, due, stored⟩ := t
  cases phase with
  | front p => exact right_of_unfinished h.2.2 rfl
  | answer p => exact h.2
  | handler n p =>
      cases kind with
      | start => exact nofun
      | callback =>
          obtain ⟨c, hat, -⟩ := h
          cases hat with
          | fresh hd hs => exact right_of_unfinished hs rfl
          | taken hd hs hf => exact right_of_unfinished hs rfl
          | timed hd hs hf hsharp => exact right_of_unfinished hs rfl
          | named h hs => exact right_of_unfinished hs rfl
          | tried h hs => exact right_of_held h hs
          | noted h hs => exact right_of_held h hs
          | failed hd hno =>
              intro _ hacc
              rw [show accepted request = false from hno] at hacc
              cases hacc

/-! ## Steps -/

theorem standing_issued (i : Issue) (k : String) :
    standing k (.issued i :: ledger) = if i.state = k then some i else standing k ledger := rfl

theorem standing_consumed (state k : String) :
    standing k (.consumed state :: ledger) = if state = k then none else standing k ledger := rfl

theorem normalizePurpose_idem (p : String) : normalizePurpose (normalizePurpose p) = normalizePurpose p := by
  unfold normalizePurpose
  split_ifs <;> simp_all

theorem Found.none_none : Found none none now := .inl ⟨rfl, nofun⟩

/-- A start keeps what it finds, unless it has expired. -/
theorem Found.live {due : Option Issue} {st : Option GhState} {read : Time} (h : Found due st now) (hle : read ≤ now) :
    Found due (st.bind fun g => if read > g.exp then none else some g) now := by
  obtain ⟨rfl, hl⟩ | ⟨rfl, hexp⟩ := h
  · cases due with
    | none => exact .none_none
    | some i =>
        simp only [Option.map_some, Option.bind_some]
        split
        · next hlt => exact .inr ⟨rfl, i, rfl, Int.lt_of_lt_of_le hlt hle⟩
        · exact .inl ⟨rfl, hl⟩
  · exact .inr ⟨rfl, hexp⟩

/-- The response of a callback that has not consumed its state. -/
theorem close_right (hd : t.decided = false) (hs : t.stored = []) (resp : Response)
    (hspent : accepted t.request = true → (standing t.state ledger).all fun i => !i.young now) :
    (t.close ledger now resp).Right := by
  intro _ hacc o purpose
  unfold Thread.close at hacc ⊢
  dsimp only at hacc ⊢
  rw [hd] at hacc ⊢
  rw [if_neg Bool.false_ne_true] at hacc ⊢
  dsimp only at hacc ⊢
  rw [hs]
  refine ⟨nofun, fun _ hdes => ?_⟩
  obtain ⟨i, hi, -, -, -, hyoung⟩ := hdes
  have hall := hspent hacc
  rw [show standing t.state ledger = some i from hi, Option.all_some,
    show i.young now = true from hyoung] at hall
  cases hall

theorem close_decided (hd : t.decided = true) (resp : Response) :
    t.close ledger now resp = { t with phase := .answer (recordStatus resp.code) } := by
  unfold Thread.close
  dsimp only
  rw [hd, if_pos rfl]

/-- A callback may end where its plan ends. -/
theorem At.close {n : Nat} {c : Stage} {resp : Response} (h : At now t n c) (hends : Ends t.request c resp)
    (hspent : accepted t.request = true → n = 0 → dismissed t.request = true →
      (standing t.state ledger).all (fun i => !i.young now) = true) : (t.close ledger now resp).Right := by
  cases h with
  | fresh hd hs => exact close_right hd hs resp fun hacc => hspent hacc rfl hends
  | taken hd hs hf => exact hends.elim
  | @timed st hd hs hf hsharp =>
      rw [close_decided hd]
      intro _ hacc o purpose
      dsimp only at hacc ⊢
      rw [hs]
      refine ⟨nofun, fun _ hdes => ?_⟩
      obtain ⟨i, hi, -, -, -, hyoung⟩ := hdes
      have hexpired : i.read + tenMinutes < t.clock := by
        obtain ⟨rfl, -⟩ | ⟨-, j, hj, hlt⟩ := hf
        · exact hends hacc i.gh (by rw [show t.due = some i from hi]; rfl)
        · cases hj.symm.trans hi
          exact hlt
      have hold := not_young hexpired
      rw [show i.young t.clock = true from hyoung] at hold
      cases hold
  | named h hs => exact hends.elim
  | tried h hs => exact hends.elim
  | noted h hs =>
      rw [close_decided h.decided]
      exact right_of_held ⟨h.decided, h.due, h.lawful, h.young⟩ hs
  | failed hd hno =>
      rw [close_decided hd]
      intro _ hacc
      rw [show accepted t.request = false from hno] at hacc
      cases hacc

/-- A step of the handler of a callback. -/
theorem At.step {n : Nat} {c c' : Stage} (h : At w.now t n c) (hkind : t.kind = .callback)
    (hm : Moves a t.request w w' c c') (htable : Found (standing t.state ledger) (w.http.ghStates t.state) w.now)
    (hsharp : n = 1 → accepted t.request = true → ∀ i, t.due = some i → w.now - i.read ≠ tenMinutes)
    (hstore : n = 3 → accepted t.request = true → ∀ i, t.due = some i →
      storable a w.db i.caller.orgID t.row = true) :
    At w'.now (t.note n w w' ledger) (n + 1) c' := by
  unfold Thread.note
  rw [hkind]
  cases hm with
  | take =>
      cases h with
      | fresh hd hs => exact .taken rfl hs htable
  | clock =>
      cases h with
      | taken hd hs hf => exact .timed hd hs hf (hsharp rfl)
  | @name st τ hexp =>
      cases h with
      | @timed _ hd hs hf hne =>
          obtain ⟨heq, hl⟩ | ⟨heq, -⟩ := hf
          · obtain ⟨i, hi, rfl⟩ := Option.map_eq_some_iff.1 heq.symm
            refine .named ⟨hd, hi, hl i hi, fun hacc => decide_eq_true ?_⟩ hs
            exact Int.lt_iff_le_and_ne.2 ⟨Int.sub_left_le_of_le_add hexp, hne hacc i hi⟩
          · cases heq
  | @store st id w' hq hadded hok =>
      cases h with
      | @named i h hs =>
          refine .tried ⟨h.decided, h.due, h.lawful, h.young⟩ fun hacc x => ?_
          rw [show i.gh.org = i.caller.orgID from rfl, show i.gh.purpose = i.purpose from rfl, h.lawful.purpose] at *
          rw [hs, List.nil_append]
          constructor
          · exact hadded x
          · rintro rfl
            exact hok (hstore rfl hacc i h.due)
  | note hq hdb =>
      cases h with
      | @tried i h hs =>
          refine .noted ⟨h.decided, h.due, h.lawful, h.young⟩ fun hacc x => ?_
          have hnone : added w w' = [] := by
            rw [← added_self w]
            unfold added
            rw [hdb]
          rw [hnone, List.append_nil]
          exact hs hacc x
  | fail hq hno =>
      cases h with
      | timed hd hs hf hsharp => exact .failed hd hno

theorem AtStart.step {n : Nat} {c c' : Opening} (h : AtStart w.now t n c) (hkind : t.kind = .start)
    (hm : Opens u r w w' c c') : AtStart w'.now (t.note n w w' ledger) (n + 1) c' := by
  unfold Thread.note
  rw [hkind]
  cases hm with
  | draw =>
      cases h
      exact .drawn
  | clock =>
      cases h
      exact .read (Int.le_refl _)
  | register hcan =>
      cases h
      exact .registered
  | flow hq =>
      cases h
      exact .shown

/-- What a handler enters into the ledger is what it does to memory. -/
theorem table_callback {n : Nat} {c c' : Stage} (h : At w.now t n c) (hkind : t.kind = .callback)
    (hm : Moves a t.request w w' c c') (htable : ∀ k, Found (standing k ledger) (w.http.ghStates k) w.now) :
    (∀ k, Found (standing k (t.entries a n ++ ledger)) (w'.http.ghStates k) w'.now) ∧ w'.now = w.now := by
  have hquiet : ∀ m, m ≠ 0 → Quiet w w' →
      (∀ k, Found (standing k (t.entries a m ++ ledger)) (w'.http.ghStates k) w'.now) ∧ w'.now = w.now :=
    fun m hne hq => by
      have hnil : t.entries a m = [] := by
        unfold Thread.entries
        rw [hkind]
        split <;> first | rfl | exact absurd rfl hne | contradiction
      rw [hnil, hq.states, hq.now]
      exact ⟨htable, rfl⟩
  cases hm with
  | take =>
      cases h with
      | fresh hd hs =>
          have hentries : t.entries a 0 = [.consumed t.state] := by simp only [Thread.entries, hkind]
          rw [hentries]
          refine ⟨fun k => ?_, rfl⟩
          rw [List.singleton_append, standing_consumed]
          dsimp only [takeState]
          rw [show t.request.get "state" = t.state from rfl]
          by_cases hk : t.state = k
          · subst hk
            rw [if_pos rfl, Function.update_self]
            exact .none_none
          · rw [if_neg hk, Function.update_of_ne (Ne.symm hk)]
            exact htable k
  | clock =>
      cases h with
      | taken hd hs hf => exact hquiet 1 (by decide) (.refl w)
  | name hexp =>
      cases h with
      | timed hd hs hf hne => exact hquiet 2 (by decide) ⟨rfl, rfl⟩
  | store hq hadded hok =>
      cases h with
      | named h hs => exact hquiet 3 (by decide) hq
  | note hq hdb =>
      cases h with
      | tried h hs => exact hquiet 4 (by decide) hq
  | fail hq hno =>
      cases h with
      | timed hd hs hf hne => exact hquiet 2 (by decide) hq

theorem table_start {n : Nat} {c c' : Opening} (h : AtStart w.now t n c) (hkind : t.kind = .start)
    (hm : Opens (a.authz t.request) t.request w w' c c')
    (htable : ∀ k, Found (standing k ledger) (w.http.ghStates k) w.now) :
    (∀ k, Found (standing k (t.entries a n ++ ledger)) (w'.http.ghStates k) w'.now) ∧ w'.now = w.now := by
  have hquiet : ∀ m, m ≠ 2 → Quiet w w' →
      (∀ k, Found (standing k (t.entries a m ++ ledger)) (w'.http.ghStates k) w'.now) ∧ w'.now = w.now :=
    fun m hne hq => by
      have hnil : t.entries a m = [] := by
        unfold Thread.entries
        rw [hkind]
        split <;> first | rfl | exact absurd rfl hne | contradiction
      rw [hnil, hq.states, hq.now]
      exact ⟨htable, rfl⟩
  cases hm with
  | draw =>
      cases h
      exact hquiet 0 (by decide) ⟨rfl, rfl⟩
  | clock =>
      cases h
      exact hquiet 1 (by decide) (.refl w)
  | register hcan =>
      cases h with
      | read hle =>
          have hentries : t.entries a 2 = [.issued ⟨t.nonce, a.authz t.request, purposeOf t.request, t.clock⟩] := by
            simp only [Thread.entries, hkind]
          rw [hentries]
          refine ⟨fun k => ?_, rfl⟩
          rw [List.singleton_append, standing_issued]
          dsimp only
          by_cases hk : t.nonce = k
          · subst hk
            rw [if_pos rfl, Function.update_self]
            refine .inl ⟨rfl, fun i hi => ?_⟩
            cases hi
            exact ⟨hcan, normalizePurpose_idem _⟩
          · rw [if_neg hk, Function.update_of_ne (Ne.symm hk)]
            exact (htable k).live hle
  | flow hq =>
      cases h
      exact hquiet 3 (by decide) hq

theorem note_request {n : Nat} :
    (t.note n w w' ledger).request = t.request ∧ (t.note n w w' ledger).kind = t.kind := by
  unfold Thread.note
  split <;> exact ⟨rfl, rfl⟩

theorem close_phase (t : Thread) (ledger : List Entry) (now : Time) (resp : Response) :
    (t.close ledger now resp).phase = .answer (recordStatus resp.code) ∧
      (t.close ledger now resp).request = t.request ∧ (t.close ledger now resp).kind = t.kind := by
  unfold Thread.close
  dsimp only
  split <;> exact ⟨rfl, rfl, rfl⟩

theorem placed_answer {p : Cmd Unit} (hphase : t.phase = .answer p) (hp : Prog.Each Quiet p) (h : t.Right) :
    Placed a now t := by
  unfold Placed
  rw [hphase]
  exact ⟨hp, h⟩

theorem placed_callback {n : Nat} {p : Cmd Response} {c : Stage} (hphase : t.phase = .handler n p)
    (hkind : t.kind = .callback) (hat : At now t n c) (hkeeps : Keeps a t.request c p) : Placed a now t := by
  unfold Placed
  rw [hphase, hkind]
  exact ⟨c, hat, hkeeps⟩

theorem placed_start {n : Nat} {p : Cmd Response} {c : Opening} (hphase : t.phase = .handler n p)
    (hkind : t.kind = .start) (hat : AtStart now t n c) (hstarts : Starts (a.authz t.request) t.request c p) :
    Placed a now t := by
  unfold Placed
  rw [hphase, hkind]
  exact ⟨c, hat, hstarts⟩

theorem right_of_start (h : t.kind = .start) : t.Right := by
  intro hkind
  rw [h] at hkind
  cases hkind

/-- A request takes a step, and the others stay where they are. -/
theorem Inv.set (h : Inv a s) {i : Nat} (hi : s.threads[i]? = some t) {world : World} {ledger : List Entry}
    {t' : Thread} (hnow : world.now = s.world.now)
    (htable : ∀ k, Found (standing k ledger) (world.http.ghStates k) world.now)
    (hrequest : t'.request = t.request ∧ t'.kind = t.kind) (hplaced : Placed a world.now t') :
    Inv a ⟨world, ledger, s.threads.set i t'⟩ := by
  have hmem := List.mem_of_getElem? hi
  refine ⟨htable, fun x hx => ?_, fun x hx => ?_⟩
  · rcases List.mem_or_eq_of_mem_set hx with hx | rfl
    · exact h.paths x hx
    · rw [hrequest.1, hrequest.2]
      exact h.paths t hmem
  · rcases List.mem_or_eq_of_mem_set hx with hx | rfl
    · rw [hnow]
      exact h.threads x hx
    · exact hplaced

theorem Inv.table_quiet (h : Inv a s) (hq : Quiet s.world w) :
    ∀ k, Found (standing k s.ledger) (w.http.ghStates k) w.now := by
  rw [hq.states, hq.now]
  exact h.table

/-- Past the middleware a request is at its handler. -/
theorem placed_handler (hpath : t.request.path = t.kind.path) (hd : t.decided = false) (hs : t.stored = []) :
    Placed a now { t with phase := .handler 0 (a.cors (a.authz t.request) t.request) } := by
  unfold Placed
  dsimp only
  cases hkind : t.kind with
  | callback =>
      refine ⟨.fresh, .fresh hd hs, ?_⟩
      rw [hkind] at hpath
      by_cases hm : t.request.method = "OPTIONS"
      · rw [cors_options hm]
        exact .done (show dismissed t.request = true by simp [dismissed, hm])
      · rw [cors_callback hpath hm]
        exact moves_callback a t.request
  | start =>
      refine ⟨.fresh, .fresh, ?_⟩
      rw [hkind] at hpath
      by_cases hm : t.request.method = "OPTIONS"
      · rw [cors_options hm]
        exact .done trivial
      · rw [cors_start hpath hm]
        exact starts_web a _ t.request a.server.rls

theorem eq_done_of_result {α : Type} {p : Cmd α} {x : α} (h : p.result? = some x) : p = .done x := by
  cases p with
  | done y => exact congrArg _ (Option.some.inj h)
  | crash => cases h
  | act f k => cases h
  | stmt n f k => cases h

theorem ended_done {c : Stage} {resp : Response} (h : Keeps a r c (.done resp)) : Ends r c resp := by
  cases h with
  | done hq => exact hq

theorem passes_turn {i : Nat} (hi : s.threads[i]? = some t) (hkind : t.kind = .callback)
    (hacc : accepted t.request = true) (h : passes a s (.turn i) = true) :
    match t.phase with
    | .front p => (unauthorized a t.request || limited p s.world) = true →
        (standing t.state s.ledger).all (fun i => !i.young s.world.now) = true
    | .handler n _ =>
        (n = 0 → dismissed t.request = true → (standing t.state s.ledger).all (fun i => !i.young s.world.now) = true) ∧
          (n = 1 → ∀ i, t.due = some i → s.world.now - i.read ≠ tenMinutes) ∧
          (n = 3 → ∀ i, t.due = some i → storable a s.world.db i.caller.orgID t.row = true)
    | .answer _ => True := by
  simp only [passes, hi, hkind, hacc, and_self, if_true] at h
  cases hphase : t.phase with
  | front p =>
      intro hrefused
      simpa only [hphase, hrefused, Bool.not_true, Bool.false_or] using h
  | answer p => trivial
  | handler n p =>
      rw [hphase] at h
      refine ⟨?_, ?_, ?_⟩
      · rintro rfl hdismissed
        simpa only [hdismissed, Bool.not_true, Bool.false_or] using h
      · rintro rfl j hj
        rw [hj, Option.all_some] at h
        exact of_decide_eq_true h
      · rintro rfl j hj
        rw [hj, Option.all_some] at h
        exact h

/-- The middleware makes a quiet step; where that is its answer, it refuses for one of its two reasons. -/
theorem Fronts.tick {p : Cmd (Option Response)} (h : Fronts a r p) (w : World) :
    Quiet w (p.tick w).1 ∧ Fronts a r (p.tick w).2 ∧
      ∀ resp, (p.tick w).2.result? = some (some resp) → (unauthorized a r || limited p w) = true := by
  obtain ⟨hq, hnext⟩ : Quiet w (p.tick w).1 ∧ Fronts a r (p.tick w).2 := by
    rcases Prog.Follows.tick h (s := w) (Prog.succeeds_of_none_lost p w) with ⟨heq, -⟩ | ⟨_, hq, hnext⟩
    · rw [heq]
      exact ⟨.refl w, h⟩
    · exact ⟨hq, hnext⟩
  refine ⟨hq, hnext, fun resp hres => ?_⟩
  rw [eq_done_of_result hres] at hnext
  cases hnext with
  | done hreason =>
      rcases hreason resp rfl with hbearer | hlimit
      · rw [hbearer, Bool.true_or]
      · rw [Bool.or_eq_true]
        exact .inr (by rw [limited, hres]; exact decide_eq_true hlimit)

theorem Inv.turn (h : Inv a s) {i : Nat} (hi : s.threads[i]? = some t) (hpass : passes a s (.turn i) = true) :
    Inv a (s.turn a i t) := by
  have hmem := List.mem_of_getElem? hi
  have hplaced := h.threads t hmem
  have hpath := h.paths t hmem
  have hturn := fun hkind hacc => passes_turn hi hkind hacc hpass
  unfold State.turn
  cases hphase : t.phase with
  | answer p =>
      simp only [Placed, hphase] at hplaced
      obtain ⟨hp, hright⟩ := hplaced
      have hq := hp.tick_rel Quiet.refl s.world
      refine h.set hi hq.now (h.table_quiet hq) ⟨rfl, rfl⟩ ?_
      refine placed_answer rfl (hp.tick s.world) ?_
      intro hkind hacc o purpose
      have := hright hkind hacc o purpose
      refine ⟨this.1, fun _ => this.2 ?_⟩
      rw [Thread.answered, hphase]
  | front p =>
      simp only [Placed, hphase] at hplaced
      obtain ⟨hp, hd, hs⟩ := hplaced
      obtain ⟨hq, hnext, hreason⟩ := hp.tick s.world
      dsimp only
      cases hres : (p.tick s.world).2.result? with
      | none =>
          refine h.set hi hq.now (h.table_quiet hq) ⟨rfl, rfl⟩ ?_
          exact ⟨hnext, hd, hs⟩
      | some x =>
          cases x with
          | none =>
              refine h.set hi hq.now (h.table_quiet hq) ⟨rfl, rfl⟩ ?_
              exact placed_handler hpath hd hs
          | some resp =>
              refine h.set hi hq.now (h.table_quiet hq) (close_phase _ _ _ resp).2 ?_
              refine placed_answer (close_phase _ _ _ resp).1 (quiet_recordStatus _) ?_
              cases hkind : t.kind with
              | start => exact right_of_start ((close_phase _ _ _ resp).2.2.trans hkind)
              | callback =>
                  refine close_right hd hs resp fun hacc => ?_
                  have hspent := hturn hkind hacc
                  rw [hphase] at hspent
                  exact hspent (hreason resp hres)
  | handler n p =>
      dsimp only
      cases hres : p.result? with
      | some resp =>
          obtain rfl : p = .done resp := eq_done_of_result hres
          refine h.set hi rfl h.table (close_phase _ _ _ resp).2 ?_
          refine placed_answer (close_phase _ _ _ resp).1 (quiet_recordStatus _) ?_
          cases hkind : t.kind with
          | start => exact right_of_start ((close_phase _ _ _ resp).2.2.trans hkind)
          | callback =>
              simp only [Placed, hphase, hkind] at hplaced
              obtain ⟨c, hat, hkeeps⟩ := hplaced
              refine hat.close (ended_done hkeeps) fun hacc => ?_
              have hgood := hturn hkind hacc
              rw [hphase] at hgood
              exact hgood.1
      | none =>
          dsimp only
          cases hgoing : p.halted with
          | true => exact h
          | false =>
              rw [if_neg Bool.false_ne_true]
              cases hkind : t.kind with
              | callback =>
                  simp only [Placed, hphase, hkind] at hplaced
                  obtain ⟨c, hat, hkeeps⟩ := hplaced
                  obtain ⟨c', hm, hkeeps'⟩ := hkeeps.next hgoing s.world
                  obtain ⟨htable, hnow⟩ := table_callback (a := a) hat hkind hm h.table
                  refine h.set hi hnow htable note_request ?_
                  refine placed_callback rfl (note_request.2.trans hkind)
                    ((hat.step hkind hm (h.table _) (fun hn hacc => ?_) fun hn hacc => ?_).phase _)
                    (note_request.1.symm ▸ hkeeps')
                  · have hgood := hturn hkind hacc
                    rw [hphase] at hgood
                    exact hgood.2.1 hn
                  · have hgood := hturn hkind hacc
                    rw [hphase] at hgood
                    exact hgood.2.2 hn
              | start =>
                  simp only [Placed, hphase, hkind] at hplaced
                  obtain ⟨c, hat, hstarts⟩ := hplaced
                  obtain ⟨c', hm, hstarts'⟩ := hstarts.next hgoing s.world
                  obtain ⟨htable, hnow⟩ := table_start hat hkind hm h.table
                  refine h.set hi hnow htable note_request ?_
                  exact placed_start rfl (note_request.2.trans hkind) ((hat.step hkind hm).phase _)
                    (note_request.1.symm ▸ hstarts')

/-- What each step keeps. -/
theorem Inv.step (h : Inv a s) (e : Event) (hpass : passes a s e = true) : Inv a (step a s e) := by
  cases e with
  | tick d =>
      have hle : s.world.now ≤ s.world.now + d := Int.le_add_of_nonneg_right (Int.natCast_nonneg d)
      exact ⟨fun k => (h.table k).mono hle, h.paths, fun t ht => (h.threads t ht).mono hle⟩
  | change db => exact ⟨h.table, h.paths, h.threads⟩
  | request kind r =>
      refine ⟨h.table, fun t ht => ?_, fun t ht => ?_⟩
      · rcases List.mem_append.1 ht with ht | ht
        · exact h.paths t ht
        · rw [List.mem_singleton.1 ht]
      · rcases List.mem_append.1 ht with ht | ht
        · exact h.threads t ht
        · rw [List.mem_singleton.1 ht]
          exact ⟨fronts_front _ _, rfl, rfl⟩
  | turn i =>
      unfold WebFlow.step
      dsimp only
      split
      · next t hi => exact h.turn hi hpass
      · exact h

/-! ## Runs -/

/-- The server has just started. -/
def started (w : World) : State := { world := { w with http := {} } }

theorem inv_started (a : API) (w : World) : Inv a (started w) :=
  ⟨fun _ => .none_none, List.forall_mem_nil _, List.forall_mem_nil _⟩

/-- Whatever starts and callbacks come in, and in whatever order their steps are made: a callback stores the connection
that its state was issued for, and no other, in every run in which no callback is turned away while its state is
good. -/
theorem callbacks_right (a : API) (w : World) (es : List Event)
    (h : Runs.Meets (step a) (fun s e => passes a s e = true) (started w) es) :
    Runs.Always (step a) (fun s => ∀ t ∈ s.threads, t.Right) (started w) es := by
  have halways := Runs.always_of_meets (P := Inv a) (fun s e hs hc => hs.step e hc) (inv_started a w) h
  exact halways.mono fun s hs t ht => (hs.threads t ht).right

/-! ## A server that asks for a bearer -/

theorem result_front (ha : a.requireAuth = true) (hp : r.path = Kind.callback.path) (hclaims : r.claims = none)
    (hm : r.method ≠ "OPTIONS") (w : World) : ∃ resp, ((front a r).tick w).2.result? = some (some resp) := by
  have huser : (a.authz r).userID = "" := by
    unfold authz
    rw [hclaims, ha]
    rfl
  have hpublic : publicPath r.path = false := by
    rw [hp]
    decide
  refine ⟨fail 401 "unauthorized" "autenticação obrigatória", ?_⟩
  unfold front refuse
  rw [if_pos ⟨ha, hm, hpublic, huser⟩]
  rfl

/-- A callback that comes to no handler. -/
def Thread.Barred (a : API) (t : Thread) : Prop :=
  t.kind = .callback → t.request.claims = none → t.request.method ≠ "OPTIONS" →
    t.request.path = Kind.callback.path ∧ t.stored = [] ∧ (t.phase = .front (front a t.request) ∨ t.answered = true)

theorem barred_turn (ha : a.requireAuth = true) (h : ∀ t ∈ s.threads, t.Barred a) {i : Nat}
    (hi : s.threads[i]? = some t) : ∀ t' ∈ (s.turn a i t).threads, t'.Barred a := by
  have hset : ∀ x : Thread, x.Barred a → ∀ t' ∈ s.threads.set i x, t'.Barred a := fun x hx t' ht' => by
    rcases List.mem_or_eq_of_mem_set ht' with ht' | rfl
    · exact h t' ht'
    · exact hx
  have hbarred := h t (List.mem_of_getElem? hi)
  have hclose : ∀ resp, (t.close s.ledger s.world.now resp).Barred a := fun resp hkind hclaims hm => by
    obtain ⟨hphase, hrequest, hkind'⟩ := close_phase t s.ledger s.world.now resp
    rw [hkind'] at hkind
    rw [hrequest] at hclaims hm ⊢
    obtain ⟨hpath, hstored, -⟩ := hbarred hkind hclaims hm
    refine ⟨hpath, ?_, .inr ?_⟩
    · unfold Thread.close
      dsimp only
      split <;> exact hstored
    · rw [Thread.answered, hphase]
  unfold State.turn
  cases hphase : t.phase with
  | answer p =>
      refine hset _ fun hkind hclaims hm => ?_
      obtain ⟨hpath, hstored, -⟩ := hbarred hkind hclaims hm
      exact ⟨hpath, hstored, .inr rfl⟩
  | front p =>
      dsimp only
      have hresult : t.kind = .callback → t.request.claims = none → t.request.method ≠ "OPTIONS" →
          ∃ resp, (p.tick s.world).2.result? = some (some resp) := fun hkind hclaims hm => by
        obtain ⟨hpath, -, hfront | hans⟩ := hbarred hkind hclaims hm
        · cases hphase.symm.trans hfront
          exact result_front ha hpath hclaims hm s.world
        · rw [Thread.answered, hphase] at hans
          cases hans
      cases hres : (p.tick s.world).2.result? with
      | none =>
          refine hset _ fun hkind hclaims hm => ?_
          obtain ⟨resp, hresp⟩ := hresult hkind hclaims hm
          rw [hres] at hresp
          cases hresp
      | some x =>
          cases x with
          | none =>
              refine hset _ fun hkind hclaims hm => ?_
              obtain ⟨resp, hresp⟩ := hresult hkind hclaims hm
              rw [hres] at hresp
              cases hresp
          | some resp => exact hset _ (hclose resp)
  | handler n p =>
      have hno : t.kind = .callback → t.request.claims = none → t.request.method ≠ "OPTIONS" → False :=
        fun hkind hclaims hm => by
          obtain ⟨-, -, hfront | hans⟩ := hbarred hkind hclaims hm
          · cases hphase.symm.trans hfront
          · rw [Thread.answered, hphase] at hans
            cases hans
      dsimp only
      split
      · next resp _ => exact hset _ (hclose resp)
      · split
        · exact h
        · refine hset _ fun hkind hclaims hm => (hno ?_ ?_ ?_).elim
          · exact note_request.2.symm.trans hkind
          · rw [← hclaims, note_request.1]
          · rwa [note_request.1] at hm

/-- No callback of a browser stores anything. -/
theorem barred (ha : a.requireAuth = true) (w : World) (es : List Event) :
    Runs.Always (step a) (fun s => ∀ t ∈ s.threads, t.kind = .callback → t.request.claims = none →
      t.request.method ≠ "OPTIONS" → t.stored = []) (started w) es := by
  have halways : Runs.Always (step a) (fun s => ∀ t ∈ s.threads, t.Barred a) (started w) es := by
    refine Runs.always_of_meets (C := fun _ _ => True) (fun s e hs _ => ?_) (List.forall_mem_nil _)
      (.of_forall (fun _ _ => trivial) _ es)
    cases e with
    | tick d => exact hs
    | change db => exact hs
    | request kind r =>
        intro t ht
        rcases List.mem_append.1 ht with ht | ht
        · exact hs t ht
        · rw [List.mem_singleton.1 ht]
          exact fun hkind _ _ => ⟨congrArg Kind.path hkind, rfl, .inl rfl⟩
    | turn i =>
        unfold WebFlow.step
        dsimp only
        split
        · next t hi => exact barred_turn ha hs hi
        · exact hs
  exact halways.mono fun s hs t ht hkind hclaims hm => (hs t ht hkind hclaims hm).2.1

namespace Sample

def ana : AppUser := { id := "usr_a", email := "ana@example.com" }

def orgA : Org := { id := "org_a", name := "A", ownerUserId := "usr_a" }

def orgs : World := { db := Store.ofRows [⟨.appUser, ana⟩, ⟨.org, orgA⟩] }

def server (requireAuth : Bool) : API := { requireAuth := requireAuth, gitHubOAuthClientSecret := "secret" }

def starting : Request :=
  { method := "POST", path := "", claims := some ⟨"usr_a", "org_a", "owner"⟩ }

/-- GitHub sends the browser back. -/
def returning : Request :=
  { method := "GET", path := "", query := [("code", "c"), ("state", "0")],
    replies := [.answer 200 "\x7b\"access_token\":\"t\"\x7d", .answer 200 "\x7b\"login\":\"ana\"\x7d"] }

/-- An owner connects an account. -/
def connecting : List Event :=
  [.request .start starting] ++ List.replicate 16 (.turn 0) ++ [.request .callback returning] ++
    List.replicate 16 (.turn 1)

end Sample

theorem callbacks_right_sample :
    Runs.Always (step (Sample.server false)) (fun s => ∀ t ∈ s.threads, t.Right) (started Sample.orgs)
        Sample.connecting ∧
      (Runs.exec (step (Sample.server false)) (started Sample.orgs) Sample.connecting).threads.map (·.stored) =
        [[], [("org_a", "code")]] :=
  ⟨callbacks_right _ _ _ (by decide +kernel), by decide +kernel⟩

/-- With a server that asks for a bearer the browser comes back with a state that is good, and nothing is stored. -/
theorem turned_away : ¬ Runs.Always (step (Sample.server true)) (fun s => ∀ t ∈ s.threads, t.Right)
    (started Sample.orgs) Sample.connecting := by
  intro h
  have hthread : ((Runs.exec (step (Sample.server true)) (started Sample.orgs) Sample.connecting).threads[1]?.map
      fun t => (decide (t.kind = .callback) && accepted t.request && t.answered && t.stored.isEmpty,
        t.due.map fun i => (i.caller.orgID, i.purpose, can i.caller.role "manage", i.young t.clock))) =
      some (true, some ("org_a", "code", true, true)) := by decide +kernel
  obtain ⟨t, ht, hall⟩ := Option.map_eq_some_iff.1 hthread
  simp only [Prod.mk.injEq, Bool.and_eq_true, decide_eq_true_eq, List.isEmpty_iff] at hall
  obtain ⟨⟨⟨⟨hkind, hacc⟩, hans⟩, hstored⟩, hdue⟩ := hall
  obtain ⟨i, hi, hissue⟩ := Option.map_eq_some_iff.1 hdue
  simp only [Prod.mk.injEq] at hissue
  have hmem := (h.last t (List.mem_of_getElem? ht) hkind hacc "org_a" "code").2 hans ⟨i, hi, hissue⟩
  rw [hstored] at hmem
  cases hmem

end WebFlow

end Apifor
