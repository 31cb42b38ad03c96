import Apifor.Http.Routes

/-!
# The cérebro as a system

One step of the whole: time passes, an executor enrols, connects, sends or disconnects, a writer
hands an envelope over, a request is served, the reaper or the scheduler ticks, a device flow is
polled. A handler runs to its end before the next one starts.
-/

namespace Apifor

inductive Event
  | tick (d : Nat)
  | enroll (orgID userID serial : String)
  | connect (serial : String)
  | recv (i : Nat) (env : Envelope)
  | disconnect (i : Nat)
  | deliver (i : Nat) (ok : Bool)
  | rest (r : Request)
  | poll (i : Nat) (token account : Reply)
  | reap
  | sched

namespace World

variable (w : World)

/-- A goroutine of the process: its panic ends the process. -/
def goroutine {α : Type} (c : Cmd α) : World :=
  { (c.run w).1 with crashed := (c.run w).1.crashed || (c.run w).2.isNone }

/-- A request's goroutine: its panic is recovered by the HTTP server. -/
def request {α : Type} (c : Cmd α) : World := (c.run w).1

@[simp] theorem goroutine_db {α : Type} (c : Cmd α) : (w.goroutine c).db = (c.run w).1.db := rfl

@[simp] theorem goroutine_pushed {α : Type} (c : Cmd α) : (w.goroutine c).pushed = (c.run w).1.pushed := rfl

@[simp] theorem goroutine_streams {α : Type} (c : Cmd α) : (w.goroutine c).streams = (c.run w).1.streams := rfl

def overfull (st : Stream) : Bool := decide (chanCap < (w.hub.chan st.org st.out).buf.length)

/-- The receive loop of a stream waits for a message; after an envelope that did not fit, it waits
for room instead. -/
def ready (st : Stream) : Bool := st.recv && !w.overfull st

/-- A receive loop that waits for room on a channel that has been closed. -/
def stranded : Bool :=
  w.streams.any fun st => st.recv && w.overfull st && (w.hub.chan st.org st.out).closed

def setStream (i : Nat) (st : Stream) : World := { w with streams := w.streams.set i st }

/-- The stream's context ends: the receive loop returns and unregisters. -/
def hangUp (i : Nat) (st : Stream) : World :=
  { w with hub := w.hub.unregister st.org st.out, streams := w.streams.set i { st with recv := false } }

/-- The writer's `env.Id` and `env.Ts`. -/
def stamp (env : Envelope) : Envelope := { env with id := "msg_" ++ w.ulid w.drawn, ts := w.now / 1000000 }

/-- One turn of the writer: it takes the next envelope of its channel and sends it. -/
def write (i : Nat) (st : Stream) (ok : Bool) : World :=
  let c := w.hub.chan st.org st.out
  match c.buf with
  | [] => if c.closed then w.setStream i { st with writer := false } else w
  | env :: rest =>
      let w' := { w with drawn := w.drawn + 1, hub := w.hub.setChan st.org st.out { c with buf := rest } }
      if ok then { w' with sent := (i, w.stamp env) :: w.sent } else w'.setStream i { st with writer := false }

end World

/-- One round of the goroutine that polls a device flow. -/
def pollTurn (rls : Bool) (i : Nat) (p : GhPoll) (token account : Reply) : Cmd Unit := do
  let ended ← (API.pollGitHubDevice p token account).cmd rls
  if ended then API.httpStep fun _ m => ({ m with ghPolls := m.ghPolls.eraseIdx i }, ())

/-- One step of a process that has not crashed. -/
def react (a : API) (w : World) : Event → World
  | .tick d => { w with now := w.now + d }
  | .enroll orgID userID serial => w.goroutine (Server.enroll orgID userID serial)
  | .connect serial =>
      let w' := w.goroutine (Server.openStream serial)
      { w' with crashed := w'.crashed || w'.stranded }
  | .recv i env =>
      match w.streams[i]? with
      | some st => if w.ready st then w.goroutine (a.server.onMessage st env) else w
      | none => w
  | .disconnect i =>
      match w.streams[i]? with
      | some st => if w.ready st then w.hangUp i st else w
      | none => w
  | .deliver i ok =>
      match w.streams[i]? with
      | some st => if st.writer then w.write i st ok else w
      | none => w
  | .rest r => w.request (a.serve r)
  | .poll i token account =>
      match w.http.ghPolls[i]? with
      | some p => w.goroutine (pollTurn a.server.rls i p token account)
      | none => w
  | .reap => w.goroutine a.server.reapOnce
  | .sched => w.goroutine a.server.schedule

def step (a : API) (w : World) (e : Event) : World := if w.crashed then w else react a w e

/-- The message that an event makes the process handle, with the stream it came on. -/
def World.hears (w : World) : Event → Option (Stream × Envelope)
  | .recv i env => (w.streams[i]?.filter fun st => !w.crashed && w.ready st).map (·, env)
  | _ => none

/-- The request that an event makes the process serve. -/
def World.serves (w : World) : Event → Option Request
  | .rest r => if w.crashed then none else some r
  | _ => none

/-! ## A small installation -/

namespace Sample

/-- The plans of `003_seeds.sql`. -/
def plans : List ((t : Tbl) × Row t) :=
  [⟨.planCatalog, { id := .free, maxWorkers := some 1, leaseTtlMin := some 240, weeklyWorkerHours := some 36,
                    maxMembers := some 1, priceCents := some 0 }⟩,
    ⟨.planCatalog, { id := .pro, maxWorkers := some 4, leaseTtlMin := none, weeklyWorkerHours := none,
                     maxMembers := some 1, priceCents := some 2000 }⟩]

/-- One org with a workspace, a repository, a routine that is due and a device. -/
def rows : List ((t : Tbl) × Row t) :=
  [⟨.appUser, { id := "usr_a", email := "ana@a.dev", createdAt := 0 }⟩,
    ⟨.org, { id := "org_a", name := "A", ownerUserId := "usr_a", createdAt := 0 }⟩,
    ⟨.workspace, { id := "wsp_a", orgId := "org_a", name := "Principal" }⟩,
    ⟨.repository, { id := "repo_a", orgId := "org_a", workspaceId := "wsp_a", name := "app", provider := "github",
                    defaultBranch := "main", cloneUrl := some "https://github.com/a/app" }⟩,
    ⟨.routine, { id := "rtn_a", orgId := "org_a", workspaceId := "wsp_a", name := "deps", triggerType := .schedule,
                 enabled := true, intervalSec := 3600, nextRunAt := some 0,
                 action := { title := "deps", prompt := "update", repoId := "repo_a", refs := [] } }⟩,
    ⟨.device, { id := "dev_a", orgId := "org_a", userId := "usr_a", label := none, certSerial := some "s1" }⟩]

def world : World := { db := Store.ofRows (plans ++ rows) }

theorem no_tasks : (world.db .task).rows = [] := by decide +kernel

end Sample

end Apifor
