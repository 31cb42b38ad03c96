import Apifor.Executor.Relay

/-!
# What a plan tells the brain

Two runs of the planning relay over two file systems in which the same refs are readable send the same
`PLAN_RESULT`, if the model answers both in the same way.
-/

namespace Executor.Relay

open Apifor (RequestPlan Envelope)

variable {c : Crates} {env : Env} {readers : Readers} {fs fs' : FileSystem} {api api' : ApiRequest → Reply} {v : Vault}
  {m : Machine c} {refs found found' : List String} {ctx ctx' workdir template : String}

/-- The same refs are readable in both file systems. -/
def SameReadable (workdir : String) (refs : List String) (fs fs' : FileSystem) : Prop :=
  ∀ r ∈ refs, (fs.readToString (joinPath workdir r)).isSome = (fs'.readToString (joinPath workdir r)).isSome

/-- The API gives both runs the same answer, if there is a key to ask it with. -/
def SameAnswer (env : Env) (v : Vault) (m : Machine c) (template : String) (refs : List String) (fs fs' : FileSystem)
    (api api' : ApiRequest → Reply) : Prop :=
  ∀ key ctx ctx' found found', ((v.get "anthropic").run m).2 = some (some key) →
    contextOf fs env.home env.workdir refs = some (ctx, found) →
    contextOf fs' env.home env.workdir refs = some (ctx', found') →
    api (request key template ctx) = api' (request key template ctx')

/-- The refs that a context reports as found are those that can be read. -/
theorem resolveRefs_found (h : resolveRefs fs workdir refs = some (ctx, found)) :
    found = refs.filter fun r => !containsText r ".." && (fs.readToString (joinPath workdir r)).isSome := by
  induction refs generalizing ctx found with
  | nil =>
      cases h
      rfl
  | cons r refs ih =>
      unfold resolveRefs at h
      split at h
      · next hup =>
        rw [List.filter_cons_of_neg (by simp [hup])]
        exact ih h
      · next hup =>
        split at h
        · next content hread =>
          simp only [Option.bind_eq_bind, Option.bind_eq_some_iff] at h
          obtain ⟨text, -, ⟨rest, more⟩, hrest, hfound⟩ := h
          cases hfound
          rw [List.filter_cons_of_pos (by simp [hup, hread]), ← ih hrest]
        · next hread =>
          simp only [Option.bind_eq_bind, Option.bind_eq_some_iff] at h
          obtain ⟨⟨rest, more⟩, hrest, hfound⟩ := h
          cases hfound
          rw [List.filter_cons_of_neg (by simp [hread])]
          exact ih hrest

theorem resolveRefs_same (hs : SameReadable workdir refs fs fs') (h : resolveRefs fs workdir refs = some (ctx, found))
    (h' : resolveRefs fs' workdir refs = some (ctx', found')) : found = found' := by
  rw [resolveRefs_found h, resolveRefs_found h']
  refine List.filter_congr fun r hr => ?_
  rw [hs r hr]

theorem contextOf_same (hs : SameReadable env.workdir refs fs fs')
    (h : contextOf fs env.home env.workdir refs = some (ctx, found))
    (h' : contextOf fs' env.home env.workdir refs = some (ctx', found')) : found = found' := by
  simp only [contextOf, Option.bind_eq_bind, Option.bind_eq_some_iff] at h h'
  obtain ⟨⟨_, _⟩, hrefs, _, -, hout⟩ := h
  obtain ⟨⟨_, _⟩, hrefs', _, -, hout'⟩ := h'
  cases hout
  cases hout'
  exact resolveRefs_same hs hrefs hrefs'

/-- A plan depends on the files only through the refs that were found and the model's answer. -/
theorem plan_same {out out' : PlanOut} (hs : SameReadable env.workdir refs fs fs')
    (ha : SameAnswer env v m template refs fs fs' api api') (h : plan env readers fs api v m template refs = some out)
    (h' : plan env readers fs' api' v m template refs = some out') : out = out' := by
  simp only [plan, Option.bind_eq_bind, Option.bind_eq_some_iff] at h h'
  obtain ⟨⟨ctx, found⟩, hctx, key, hkey, hout⟩ := h
  obtain ⟨⟨ctx', found'⟩, hctx', key', hkey', hout'⟩ := h'
  obtain rfl : key = key' := Option.some.inj (hkey.symm.trans hkey')
  obtain rfl : found = found' := contextOf_same hs hctx hctx'
  cases key with
  | none => exact Option.some.inj (hout.symm.trans hout')
  | some key =>
      have hcall : callAnthropic readers api key template ctx = callAnthropic readers api' key template ctx' := by
        rw [callAnthropic, callAnthropic, ha key ctx ctx' found found hkey hctx hctx']
      dsimp only at hout hout'
      rw [hcall] at hout
      exact Option.some.inj (hout.symm.trans hout')

/-- File contents reach the brain only through the model's answer. -/
theorem planResult_private {rp : RequestPlan} {idMs ts : Int} {e e' : Envelope}
    (hs : SameReadable env.workdir rp.contextRefs fs fs')
    (ha : SameAnswer env v m rp.promptTemplate rp.contextRefs fs fs' api api')
    (h : planResult env readers fs api v m rp idMs ts = some e)
    (h' : planResult env readers fs' api' v m rp idMs ts = some e') : e = e' := by
  simp only [planResult, Option.bind_eq_bind, Option.bind_eq_some_iff] at h h'
  obtain ⟨out, hout, he⟩ := h
  obtain ⟨out', hout', he'⟩ := h'
  obtain rfl := plan_same hs ha hout hout'
  exact Option.some.inj (he.symm.trans he')

/-! ## Two file systems -/

def sampleReaders : Readers where
  statusText n := if n = 500 then "500 Internal Server Error" else toString n
  anthropicResp _ := .error "expected value at line 1 column 1"
  planJson _ := .error "expected value at line 1 column 1"

def sampleEnv : Env := ⟨"/var/lib/apifor", "/workspace"⟩

/-- A workdir with one file and a knowledge base with one document. -/
def sampleFiles (code note : String) : FileSystem where
  readToString path :=
    if path = "/workspace/a.rs" then some code else if path = "/var/lib/apifor/kb/nota" then some note else none
  readDir path := if path = "/var/lib/apifor/kb" then some [some ⟨"/var/lib/apifor/kb/nota", "nota"⟩] else none

def samplePlan (fs : FileSystem) : Option Envelope :=
  planResult sampleEnv sampleReaders fs (fun _ => .read 500 "overloaded") ⟨zeroKey⟩
    (((Vault.mk zeroKey).put .files zeroNonce "anthropic" "sk-ant" "api_key").run noFiles).1
    { taskId := "tsk_1", promptTemplate := "muda o botão", contextRefs := ["a.rs", "b.rs", "../c.rs"] } 1 1

theorem planResult_private_sample :
    (samplePlan (sampleFiles "fn main() " "nota um")).get (by decide +kernel) =
      (samplePlan (sampleFiles "segredo" "nota dois")).get (by decide +kernel) :=
  planResult_private (fun r hr => by
    simp only [List.mem_cons, List.not_mem_nil, or_false] at hr
    rcases hr with rfl | rfl | rfl <;> decide +kernel)
    (fun _ _ _ _ _ _ _ _ => rfl) (Option.some_get _).symm (Option.some_get _).symm

end Executor.Relay
