import Mathlib.Tactic.Basic

/-!
# The flows of an account

The entry of one account in `_flows` of `auth-sidecar/server.py`, and the requests that the threads of the server
handle for it. Each locked section, each spawn and each kill is one step.
-/

namespace Sidecar

namespace Sessions

abbrev Pid := Nat

/-- What follows `cancel_flow` or `_reap`: the rest of `start_flow`, or nothing. -/
inductive Rest
  | spawn
  | stop
  deriving DecidableEq

/-- Where a request stands. -/
inductive Req
  /-- `_flows.pop`, and then `_kill` of what it gave. -/
  | popping (rest : Rest)
  | killing (old : Option Pid) (rest : Rest)
  /-- `start_flow`: `pty.fork`, the loop that waits for the URL, and `_flows[acc_id] = flow`. -/
  | spawning
  | waiting (pid : Pid)
  | registering (pid : Pid)
  /-- `submit_code`: `_flows.get`, and all that comes before `_reap`. -/
  | getting
  | typing (pid : Pid)
  | done
  deriving DecidableEq

structure State where
  entry : Option Pid := none
  live : List Pid := []
  next : Pid := 0
  reqs : List Req := []
  /-- The processes whose entry was replaced by that of another. -/
  replaced : List Pid := []

inductive Event
  | start
  | code
  | cancel
  | turn (i : Nat) (ok : Bool)
  | exits (pid : Pid)

def State.put (s : State) (i : Nat) (r : Req) : State := { s with reqs := s.reqs.set i r }

def State.kill (s : State) (pid : Option Pid) : State := { s with live := s.live.filter fun p => some p ≠ pid }

/-- The next step of a request; `ok` says that the URL was found, or that nothing was raised while a code was
typed. -/
def State.turn (s : State) (i : Nat) (ok : Bool) : Req → State
  | .popping rest => { s with entry := none }.put i (.killing s.entry rest)
  | .killing old .spawn => (s.kill old).put i .spawning
  | .killing old .stop => (s.kill old).put i .done
  | .spawning => { s with live := s.next :: s.live, next := s.next + 1 }.put i (.waiting s.next)
  | .waiting pid => if ok then s.put i (.registering pid) else (s.kill (some pid)).put i .done
  | .registering pid => { s with entry := some pid, replaced := s.entry.toList ++ s.replaced }.put i .done
  | .getting =>
      match s.entry with
      | some pid => s.put i (.typing pid)
      | none => s.put i .done
  | .typing _ => if ok then s.put i (.popping .stop) else s.put i .done
  | .done => s

def step (s : State) : Event → State
  | .start => { s with reqs := s.reqs ++ [.popping .spawn] }
  | .code => { s with reqs := s.reqs ++ [.getting] }
  | .cancel => { s with reqs := s.reqs ++ [.popping .stop] }
  | .turn i ok =>
      match s.reqs[i]? with
      | some r => s.turn i ok r
      | none => s
  | .exits pid => s.kill (some pid)

end Sessions

end Sidecar
