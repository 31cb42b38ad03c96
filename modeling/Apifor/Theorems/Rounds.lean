import Apifor.Lemmas.Steps
import Apifor.Theorems.Codec
import Apifor.Theorems.Cuts

/-!
# Rounds of the brain and an executor

An executor answers a step, and the brain answers its result with the next one. However the two machines stand when a
message comes to them, the kinds of the steps of such an exchange go forward, so that it ends.
-/

namespace Apifor

open Executor (Crates)
open Executor.Exec (Host Readers Disk)

/-! ## An exchange -/

/-- What was pushed between two worlds. -/
def World.news (w w' : World) : List Push := w'.pushed.take (w'.pushed.length - w.pushed.length)

def Envelope.step (e : Envelope) : Option DispatchStep :=
  match e.payload with
  | .dispatchStep ds => some ds
  | _ => none

/-- What the brain finds when an answer comes, and which of the envelopes that it pushes then is taken for the next
step. -/
structure Hearing where
  server : Server
  stream : Stream
  world : World
  pick : Nat

namespace Hearing

variable (b : Hearing)

/-- The brain after the answer; there is none after a panic. -/
def after (answer : Option Envelope) : World :=
  match answer with
  | some env => ((b.server.onMessage b.stream env).run b.world).1
  | none => b.world

def next (answer : Option Envelope) : Option DispatchStep := (b.world.news (b.after answer))[b.pick]?.bind (·.env.step)

end Hearing

/-- What the executor finds when a step comes, and what the brain finds when its answer comes. -/
structure Handoff extends Hearing where
  crates : Crates
  σ : Type
  host : Host σ
  readers : Readers
  vault : Executor.Vault
  home : String
  disk : Disk crates σ
  idMs : Int
  ts : Int

def Handoff.answer (t : Handoff) (ds : DispatchStep) : Option Envelope :=
  ((Executor.Exec.dispatchStep t.host t.readers t.vault t.home ds t.idMs t.ts).run t.disk).2

/-- The steps of an exchange after its first one. -/
def exchange : List Handoff → DispatchStep → List DispatchStep
  | [], _ => []
  | t :: ts, ds =>
      match t.next (t.answer ds) with
      | some d => d :: exchange ts d
      | none => []

/-- What the executor finds when it is asked for a plan, and what the brain finds when its answer comes. -/
structure Planning extends Hearing where
  crates : Crates
  env : Executor.Relay.Env
  readers : Executor.Relay.Readers
  files : Executor.FileSystem
  api : Executor.Relay.ApiRequest → Executor.Relay.Reply
  vault : Executor.Vault
  machine : Executor.Machine crates
  idMs : Int
  ts : Int

def Planning.answer (p : Planning) (rp : RequestPlan) : Option Envelope :=
  Executor.Relay.planResult p.env p.readers p.files p.api p.vault p.machine rp p.idMs p.ts

/-- The steps of a task from the request of its plan on. -/
def course (p : Planning) (ts : List Handoff) (rp : RequestPlan) : List DispatchStep :=
  match p.next (p.answer rp) with
  | some d => d :: exchange ts d
  | none => []

/-- The kinds of step that come after one. -/
def StepKind.later : StepKind → List StepKind
  | .EXEC => [.TEST, .REVIEW, .MERGE]
  | .TEST => [.REVIEW, .MERGE]
  | .REVIEW => [.MERGE]
  | _ => []

/-! ## The executor's answer -/

variable {c : Crates} {σ : Type}

/-- The kind of step that an outcome is one of. -/
def kindOf : Executor.Exec.Outcome → StepKind
  | .exec .. => .EXEC
  | .test .. => .TEST
  | .review .. => .REVIEW
  | .merge .. => .MERGE

theorem orFail_ok {α : Type} {p : Executor.Exec.Step c σ (Except String α)} {f : α → Executor.Exec.Outcome}
    {d : Disk c σ} {out : Executor.Exec.Outcome}
    (h : ((Executor.Exec.orFail p fun a => pure (.ok (f a))).run d).2 = some (.ok out)) :
    ∃ a, out = f a := by
  rw [Executor.Exec.orFail, Prog.bind_def, Prog.run_bind] at h
  cases hp : p.run d with
  | mk d' r =>
      rw [hp] at h
      cases r with
      | none => cases h
      | some x =>
          cases x with
          | error e => cases h
          | ok a =>
              cases h
              exact ⟨a, rfl⟩

variable {h : Host σ} {rd : Readers} {v : Executor.Vault} {home : String} {ds : DispatchStep} {d : Disk c σ}

theorem outcome_kind {out : Executor.Exec.Outcome}
    (hout : ((Executor.Exec.outcome h rd v home ds).run d).2 = some (.ok out)) : kindOf out = ds.kind := by
  unfold Executor.Exec.outcome at hout
  cases hk : ds.kind with
  | EXEC | TEST | REVIEW | MERGE =>
      rw [hk] at hout
      obtain ⟨r, rfl⟩ := orFail_ok hout
      rfl
  | STEP_UNSPECIFIED | PLAN | QUESTION =>
      rw [hk] at hout
      cases hout

/-- What the executor answers to a step. -/
inductive Answers (ds : DispatchStep) : Envelope → Prop
  | done (env : Envelope) (out : Executor.Exec.Outcome) (hkind : kindOf out = ds.kind)
      (htype : env.type = .STEP_COMPLETED)
      (hpayload : env.payload = .stepEvent { stepId := ds.stepId, taskId := ds.taskId, output := out.output }) :
      Answers ds env
  | failed (env : Envelope) (error : String) (htype : env.type = .STEP_FAILED)
      (hpayload : env.payload = .stepEvent { stepId := ds.stepId, taskId := ds.taskId, error := error }) :
      Answers ds env

theorem dispatchStep_answers {idMs ts : Int} {env : Envelope}
    (henv : ((Executor.Exec.dispatchStep h rd v home ds idMs ts).run d).2 = some env) : Answers ds env := by
  rw [Executor.Exec.dispatchStep, Prog.bind_def, Prog.run_bind] at henv
  cases hout : (Executor.Exec.outcome h rd v home ds).run d with
  | mk d' r =>
      rw [hout] at henv
      cases r with
      | none => cases henv
      | some x =>
          cases x with
          | error e =>
              cases henv
              exact .failed _ e rfl rfl
          | ok out =>
              cases henv
              exact .done _ out (outcome_kind (congrArg Prod.snd hout)) rfl rfl

/-! ## The brain's answer -/

namespace Server

theorem prompted_later (out : Executor.Exec.Outcome) : prompted (resultOf out).kind ⊆ (kindOf out).later := by
  cases out <;> simp [resultOf, prompted, kindOf, StepKind.later]

/-- A step of the task of one of the kinds. -/
def StepIn (task : Id) (ks : List StepKind) (_ : Id) (e : Envelope) : Prop :=
  ∃ k ∈ ks, ∃ i b, e = stepEnvelope i task k b

theorem onMessage_answer (s : Server) (st : Stream) {env : Envelope} (hans : Answers ds env) :
    Within pipelineTables (StepIn ds.taskId ds.kind.later) (s.onMessage st env) := by
  unfold onMessage
  cases hans with
  | done out hkind htype hpayload =>
      rw [htype, hpayload]
      dsimp only
      rw [onStepCompleted, parseResult_output]
      refine advancePipeline_prompts s _ fun k hk o i b => ⟨k, ?_, i, b, rfl⟩
      rw [← hkind]
      exact prompted_later out hk
  | failed e htype hpayload =>
      rw [htype, hpayload]
      exact Within.bind (DB.failTask_within rfl) fun _ => .done _

theorem onMessage_planned (s : Server) (st : Stream) {m : Executor.Machine c} {e : Executor.Relay.Env}
    {r : Executor.Relay.Readers} {fs : Executor.FileSystem}
    {api : Executor.Relay.ApiRequest → Executor.Relay.Reply} {rp : RequestPlan} {idMs ts : Int} {env : Envelope}
    (henv : Executor.Relay.planResult e r fs api v m rp idMs ts = some env) :
    Within planTables (StepIn rp.taskId [.EXEC]) (s.onMessage st env) := by
  obtain ⟨out, -, hout⟩ := Option.bind_eq_some_iff.1 henv
  cases hout
  exact onPlanResult_within st _ fun i b => ⟨.EXEC, List.mem_singleton_self _, i, b, rfl⟩

end Server

/-! ## Exchanges -/

theorem Pace.news {T : Tbl → Bool} {K : Id → Envelope → Prop} {w w' : World} (h : Pace T K w w') {p : Push}
    (hp : p ∈ w.news w') : K p.org p.env := by
  obtain ⟨l, hl, hin⟩ := h.foot.pushed
  rw [World.news, hl, List.length_append, Nat.add_sub_cancel, List.take_left'] at hp
  · exact (hin p hp).1
  · rfl

/-- An answer that prompts only steps of a task of some kinds. -/
theorem Hearing.next_in (b : Hearing) {answer : Option Envelope} {T : Tbl → Bool} {task : Id} {ks : List StepKind}
    (hwithin : ∀ env, answer = some env → Within T (Server.StepIn task ks) (b.server.onMessage b.stream env))
    {d : DispatchStep} (hd : b.next answer = some d) : d.kind ∈ ks ∧ d.taskId = task := by
  have hpace : Pace T (Server.StepIn task ks) b.world (b.after answer) := by
    unfold after
    cases hans : answer with
    | none => exact Pace.refl _
    | some env => exact (hwithin env hans).run _
  obtain ⟨p, hp, hstep⟩ := Option.bind_eq_some_iff.1 hd
  obtain ⟨k, hk, i, x, henv⟩ := hpace.news (List.mem_of_getElem? hp)
  rw [henv] at hstep
  cases hstep
  exact ⟨hk, rfl⟩

theorem Handoff.next_later (t : Handoff) {d : DispatchStep} (hd : t.next (t.answer ds) = some d) :
    d.kind ∈ ds.kind.later ∧ d.taskId = ds.taskId :=
  t.next_in (fun _ henv => Server.onMessage_answer t.server t.stream (dispatchStep_answers henv)) hd

theorem Planning.next_exec (p : Planning) {rp : RequestPlan} {d : DispatchStep} (hd : p.next (p.answer rp) = some d) :
    d.kind ∈ [StepKind.EXEC] ∧ d.taskId = rp.taskId :=
  p.next_in (fun _ henv => Server.onMessage_planned p.server p.stream henv) hd

theorem later_sublist {k k' : StepKind} (hk : k' ∈ k.later) : (k' :: k'.later).Sublist k.later := by
  cases k <;> cases k' <;> revert hk <;> decide

theorem exchange_later (ts : List Handoff) (ds : DispatchStep) :
    ((exchange ts ds).map (·.kind)).Sublist ds.kind.later ∧ ∀ d ∈ exchange ts ds, d.taskId = ds.taskId := by
  induction ts generalizing ds with
  | nil => exact ⟨List.nil_sublist _, fun _ hd => by cases hd⟩
  | cons t ts ih =>
      rw [exchange]
      cases hnext : t.next (t.answer ds) with
      | none => exact ⟨List.nil_sublist _, fun _ hd => by cases hd⟩
      | some d =>
          obtain ⟨hkind, htask⟩ := t.next_later hnext
          obtain ⟨hsub, htasks⟩ := ih d
          refine ⟨(hsub.cons_cons d.kind).trans (later_sublist hkind), fun x hx => ?_⟩
          rcases List.mem_cons.1 hx with rfl | hx
          · exact htask
          · exact (htasks x hx).trans htask

theorem later_length (k : StepKind) : k.later.length ≤ 3 := by cases k <;> decide

/-- Whatever the machines, the disks and the stores are at each turn, an exchange stays with its task, and each of its
steps is of a kind that comes after those before it: it ends after three more steps. -/
theorem exchange_ends (ts : List Handoff) (ds : DispatchStep) :
    (∀ d ∈ exchange ts ds, d.taskId = ds.taskId) ∧
      ((exchange ts ds).map (·.kind)).Sublist ds.kind.later ∧ (exchange ts ds).length ≤ 3 := by
  obtain ⟨hkinds, htasks⟩ := exchange_later ts ds
  refine ⟨htasks, hkinds, ?_⟩
  have hlen := hkinds.length_le
  rw [List.length_map] at hlen
  exact hlen.trans (later_length ds.kind)

namespace Sample

/-- The tests of the small installation's first task, on a machine where they pass. -/
def tested : Handoff where
  server := {}
  stream := { device := "dev_a", org := "org_a", out := 0 }
  world := Runs.exec (step {}) world [.connect "s1", .sched]
  pick := 0
  crates := Executor.sample
  σ := Unit
  host := Executor.Exec.quietHost ⟨fun _ => none, fun _ => none⟩ (.unsent "")
  readers := Executor.Exec.quietReaders
  vault := ⟨Executor.zeroKey⟩
  home := "/"
  disk := ⟨Executor.noFiles, (), []⟩
  idMs := 0
  ts := 0

def test : DispatchStep where
  stepId := "stp_0"
  taskId := "tsk_0"
  kind := .TEST
  instructions := "\x7b\"repo_url\":\"u\",\"branch\":\"b\"\x7d"

end Sample

example : (exchange [Sample.tested] Sample.test).map (·.kind) = [.REVIEW] := by decide +kernel

/-- However the plan is made and whatever happens between its steps, a task whose plan is asked for once comes to four
steps at most. -/
theorem course_ends (p : Planning) (ts : List Handoff) (rp : RequestPlan) :
    (∀ d ∈ course p ts rp, d.taskId = rp.taskId) ∧
      ((course p ts rp).map (·.kind)).Sublist [.EXEC, .TEST, .REVIEW, .MERGE] ∧ (course p ts rp).length ≤ 4 := by
  rw [course]
  cases hnext : p.next (p.answer rp) with
  | none => exact ⟨fun _ hd => (by cases hd), List.nil_sublist _, Nat.zero_le _⟩
  | some d =>
      obtain ⟨hkind, htask⟩ := p.next_exec hnext
      obtain ⟨hsub, htasks⟩ := exchange_later ts d
      rw [List.mem_singleton] at hkind
      rw [hkind] at hsub
      have hkinds : ((d :: exchange ts d).map (·.kind)).Sublist [.EXEC, .TEST, .REVIEW, .MERGE] := by
        rw [List.map_cons, hkind]
        exact hsub.cons_cons _
      refine ⟨fun x hx => ?_, hkinds, ?_⟩
      · rcases List.mem_cons.1 hx with rfl | hx
        · exact htask
        · exact (htasks x hx).trans htask
      · have hlen := hkinds.length_le
        rw [List.length_map] at hlen
        exact hlen

end Apifor
