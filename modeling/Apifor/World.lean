import Apifor.Lib.Json
import Apifor.Lib.Prog
import Apifor.Sql

/-!
# The cérebro's state

The messages of `apifor.proto`, the hub's channels, the open streams, and the state every goroutine
of the cérebro works on. `World.pushed` records what was put on a stream channel together with the
store at that moment; the program never reads it.
-/

namespace Apifor

/-! ## Messages -/

inductive MsgType
  | MSG_UNSPECIFIED | LEASE_GRANTED | LEASE_DENIED | LEASE_REVOKED | DISPATCH_TASK | REQUEST_PLAN
  | DISPATCH_STEP | ANSWER_INTERVENTION | CONFIG_SYNC | PAUSE_WORKER | STOP_WORKER | HEARTBEAT_ACK
  | COMMAND_ACK | HEARTBEAT | LEASE_REQUEST | WORKER_STARTED | WORKER_STOPPED | WORKER_STATUS
  | STEP_STARTED | STEP_PROGRESS | STEP_COMPLETED | STEP_FAILED | PLAN_RESULT | INTERVENTION_REQUEST
  | TASK_STATE_SNAPSHOT | EVENT_ACK | EVENT_NACK
  deriving DecidableEq, Repr

inductive StepKind
  | STEP_UNSPECIFIED | PLAN | EXEC | TEST | REVIEW | MERGE | QUESTION
  deriving DecidableEq, Repr

structure LeaseGranted where
  leaseId : Id
  workerId : Id
  expiresAt : Int
  autoRenew : Bool
  deriving DecidableEq

structure LeaseRevoked where
  leaseId : Id
  reason : String
  deriving DecidableEq

structure RequestPlan where
  taskId : Id
  promptTemplate : String
  contextRefs : List String
  deriving DecidableEq

structure DispatchStep where
  stepId : Id
  taskId : Id
  kind : StepKind
  instructions : String
  deriving DecidableEq

structure WorkerControl where
  workerId : Id
  stop : Bool
  reason : String
  deriving DecidableEq

structure StepEvent where
  stepId : Id := ""
  taskId : Id
  output : String := ""
  error : String := ""
  deriving DecidableEq

structure PlanStep where
  idx : Int
  kind : StepKind
  label : String
  deriving DecidableEq

structure PlanResult where
  taskId : Id
  steps : List PlanStep := []
  targetFiles : List String := []
  decision : String := ""
  tokensUsed : Int := 0
  deriving DecidableEq

structure TaskStateSnapshot where
  taskId : Id
  status : String := ""
  deriving DecidableEq

/-- The `oneof payload`; a message may carry any payload, or none, whatever its type says. -/
inductive Payload
  | none
  | leaseGranted (p : LeaseGranted)
  | leaseDenied (reason : String)
  | leaseRevoked (p : LeaseRevoked)
  | requestPlan (p : RequestPlan)
  | dispatchStep (p : DispatchStep)
  | workerControl (p : WorkerControl)
  | stepEvent (p : StepEvent)
  | planResult (p : PlanResult)
  | taskStateSnapshot (p : TaskStateSnapshot)
  | other
  deriving DecidableEq

structure Envelope where
  id : String := ""
  type : MsgType
  ts : Int := 0
  payload : Payload := .none
  deriving DecidableEq

/-- The envelope is a `DISPATCH_STEP` of the given kind for the task. -/
def Envelope.dispatches (e : Envelope) (kind : StepKind) (task : Id) : Prop :=
  e.type = .DISPATCH_STEP ∧ ∃ p, e.payload = .dispatchStep p ∧ p.kind = kind ∧ p.taskId = task

/-- The envelope gives the executor something to work on. -/
def Envelope.isWork (e : Envelope) : Bool := e.type = .REQUEST_PLAN || e.type = .DISPATCH_STEP

/-! ## The hub -/

/-- `make(chan *Envelope, 16)`. -/
structure Chan where
  buf : List Envelope := []
  closed : Bool := false
  deriving DecidableEq

def chanCap : Nat := 16

/-- The channels ever registered for an org are numbered in order; `byOrg` names the current one. -/
structure Hub where
  byOrg : Id → Option Nat := fun _ => none
  chans : Id → List Chan := fun _ => []

namespace Hub

def chan (h : Hub) (org : Id) (n : Nat) : Chan := (h.chans org).getD n { closed := true }

def setChan (h : Hub) (org : Id) (n : Nat) (c : Chan) : Hub :=
  { h with chans := Function.update h.chans org ((h.chans org).set n c) }

def close (h : Hub) (org : Id) (n : Nat) : Hub := h.setChan org n { h.chan org n with closed := true }

def register (h : Hub) (org : Id) : Hub × Nat :=
  let h := match h.byOrg org with
    | some old => h.close org old
    | none => h
  ({ byOrg := Function.update h.byOrg org (some (h.chans org).length),
     chans := Function.update h.chans org (h.chans org ++ [{}]) }, (h.chans org).length)

def unregister (h : Hub) (org : Id) (out : Nat) : Hub :=
  if h.byOrg org = some out then
    { h.close org out with byOrg := Function.update h.byOrg org none }
  else h

end Hub

/-! ## The state -/

/-- A stream opened by a device: its receive loop, and the goroutine that writes to the device. -/
structure Stream where
  device : Id
  org : Id
  out : Nat
  recv : Bool := true
  writer : Bool := true
  deriving DecidableEq

/-- An envelope put on a channel of `org`, with the store and the log at that moment. -/
structure Push where
  org : Id
  env : Envelope
  db : Store
  testsSkipped : List Id

/-- A device flow of an org: what `GET …/device/status` shows. -/
structure GhFlow where
  userCode : String := ""
  verifyURI : String := ""
  status : String
  login : String := ""
  errMsg : String := ""
  purpose : String
  deriving DecidableEq

/-- What a state of the web flow stands for. -/
structure GhState where
  org : Id
  purpose : String
  exp : Time
  deriving DecidableEq

/-- A goroutine that polls GitHub for the token of a device flow. -/
structure GhPoll where
  org : Id
  deviceCode : String
  purpose : String
  deadline : Time
  deriving DecidableEq

structure CounterWin where
  minute : Int
  count : Int
  deriving DecidableEq

structure PlanCache where
  rpm : Int
  exp : Int
  deriving DecidableEq

structure Metrics where
  requests : Nat := 0
  rateLimited : Nat := 0
  status2xx : Nat := 0
  status4xx : Nat := 0
  status5xx : Nat := 0
  deriving DecidableEq

/-- The memory of the REST side. -/
structure HttpMemory where
  metrics : Metrics := {}
  ghFlows : Id → Option GhFlow := fun _ => none
  ghStates : String → Option GhState := fun _ => none
  ghPolls : List GhPoll := []
  win : Id → Option CounterWin := fun _ => none
  plan : Id → Option PlanCache := fun _ => none

structure World where
  db : Store := Store.empty
  now : Time := 0
  /-- The identifiers `ulid.Make` will give, and how many it gave. -/
  ulid : Nat → String := fun n => toString n
  drawn : Nat := 0
  /-- What `rand.Read` will give, in hexadecimal. -/
  nonce : Nat → String := fun n => toString n
  http : HttpMemory := {}
  hub : Hub := {}
  streams : List Stream := []
  sent : List (Nat × Envelope) := []
  pushed : List Push := []
  /-- The pull requests for which the log says `testes pulados`. -/
  testsSkipped : List Id := []
  crashed : Bool := false

abbrev Cmd (α : Type) := Prog World DbErr α

/-- `NewID`. -/
def newID (pre : String) : Cmd Id :=
  .lift fun w => ({ w with drawn := w.drawn + 1 }, pre ++ "_" ++ w.ulid w.drawn)

/-- `time.Now()`. -/
def timeNow : Cmd Time := .lift fun w => (w, w.now)

/-- A query. -/
def query {α : Type} (name : String) (f : Time → Store → Except DbErr α) : Cmd (Except DbErr α) :=
  .attempt name fun w => (f w.now w.db).map fun a => (w, a)

/-- A statement that writes, or a transaction. -/
def exec {α : Type} (name : String) (f : Time → Store → Except DbErr (Store × α)) : Cmd (Except DbErr α) :=
  .attempt name fun w => (f w.now w.db).map fun r => ({ w with db := r.1 }, r.2)

@[simp] theorem run_query {α : Type} (n : String) (f : Time → Store → Except DbErr α) (w : World) :
    (query n f).run w = (w, some (f w.now w.db)) := by
  simp only [query, Prog.run_attempt, Prog.settle]
  cases f w.now w.db <;> rfl

theorem run_exec {α : Type} (n : String) (f : Time → Store → Except DbErr (Store × α)) (w : World) :
    (exec n f).run w =
      match f w.now w.db with
      | .ok r => ({ w with db := r.1 }, some (.ok r.2))
      | .error e => (w, some (.error e)) := by
  simp only [exec, Prog.run_attempt, Prog.settle]
  cases f w.now w.db <;> rfl

def World.record (w : World) (org : Id) (env : Envelope) : World :=
  { w with pushed := { org := org, env := env, db := w.db, testsSkipped := w.testsSkipped } :: w.pushed }

/-- `select { case out <- env: default: }`; `none` is the panic of a send on a closed channel. -/
def World.trySend (w : World) (org : Id) (n : Nat) (env : Envelope) : World × Option Bool :=
  let c := w.hub.chan org n
  if c.closed then (w, none)
  else if c.buf.length < chanCap then
    ({ w with hub := w.hub.setChan org n { c with buf := c.buf ++ [env] } }.record org env, some true)
  else (w, some false)

/-- `out <- env` on a stream's own channel. A full channel holds the envelope as its next one, and
the receive loop stands still until there is room (`System.step`). -/
def World.send (w : World) (org : Id) (n : Nat) (env : Envelope) : World × Option Unit :=
  let c := w.hub.chan org n
  if c.closed then (w, none)
  else ({ w with hub := w.hub.setChan org n { c with buf := c.buf ++ [env] } }.record org env, some ())

/-- `Hub.Send`: the lookup under the mutex, then the send. -/
def hubSend (org : Id) (env : Envelope) : Cmd Bool :=
  .act (fun w => (w, w.hub.byOrg org)) fun
    | none => .done false
    | some n => .act (fun w => w.trySend org n env) fun
      | some ok => .done ok
      | none => .crash

/-- `out <- env` in the receive loop of a stream. -/
def streamSend (st : Stream) (env : Envelope) : Cmd Unit :=
  .act (fun w => w.send st.org st.out env) fun
    | some () => .done ()
    | none => .crash

end Apifor
