import Apifor.Executor.Vault
import Apifor.Lib.Path
import Apifor.World

/-!
# The planning relay

`executor/src/relay.rs`, and the `RequestPlan` branch of `run_daemon`: the refs and the local
knowledge base fill a prompt, the Anthropic API answers it with the local key, and a structured plan
goes to the brain. What can panic gives `none`.
-/

namespace Executor

open Apifor (PlanStep PlanResult RequestPlan StepKind Envelope)

/-! ## Files -/

structure DirEntry where
  path : String
  fileName : String

/-- What `read_to_string` and `read_dir` give; an entry that cannot be read is `none`. -/
structure FileSystem where
  readToString : String → Option String
  readDir : String → Option (List (Option DirEntry))

/-- `Path::join`: an absolute path takes the place of the first one. -/
def joinPath (dir path : String) : String :=
  if Text.hasPrefix path "/" then path
  else if dir = "" ∨ Text.hasSuffix dir "/" then dir ++ path
  else dir ++ "/" ++ path

section Join

variable {dir path : String}

theorem isAbsolute_joinPath (h : Path.isAbsolute path = false) :
    Path.isAbsolute (joinPath dir path) = Path.isAbsolute dir := by
  unfold Path.isAbsolute at h
  rw [joinPath, if_neg (by simp [h])]
  by_cases hdir : dir = ""
  · rw [if_pos (.inl hdir), hdir, String.empty_append]
    exact h
  · split
    · exact Path.isAbsolute_append hdir path
    · rw [String.append_assoc]
      exact Path.isAbsolute_append hdir _

theorem names_joinPath (h : Path.isAbsolute path = false) :
    Path.names (joinPath dir path) = Path.names dir ++ Path.names path := by
  unfold Path.isAbsolute at h
  rw [joinPath, if_neg (by simp [h])]
  split
  · next hdir =>
      rcases hdir with rfl | hdir
      · rw [String.empty_append]
        rfl
      · obtain ⟨l, hl⟩ := List.isSuffixOf_iff_suffix.1 hdir
        have hslash : dir = String.ofList l ++ "/" := by
          rw [← String.toList_inj, String.toList_append, String.toList_ofList]
          exact hl.symm
        rw [hslash, Path.names_append_slash, Path.names_slash]
  · exact Path.names_append_slash dir path

end Join

def truncateChars : Nat → List Char → Option (List Char)
  | _, [] => some []
  | 0, _ => some []
  | n, c :: cs => if c.utf8Size ≤ n then (truncateChars (n - c.utf8Size) cs).map (c :: ·) else none

/-- `String::truncate`, and a slice `[..n]` of at most the length: `n` bytes must end a character. -/
def truncate (n : Nat) (s : String) : Option String := (truncateChars n s.toList).map String.ofList

def containsText (s pat : String) : Bool := (Text.afterChars pat.toList s.toList).isSome

theorem afterChars_isSome {pat cs : List Char} : (Text.afterChars pat cs).isSome = true ↔ pat <:+: cs := by
  induction cs with
  | nil => cases pat <;> simp [Text.afterChars]
  | cons c cs ih =>
      rw [Text.afterChars, List.infix_cons_iff]
      split
      · next h => simp [List.isPrefixOf_iff_prefix.1 h]
      · next h => simp [ih, mt List.isPrefixOf_iff_prefix.2 h]

theorem containsText_iff {s pat : String} : containsText s pat = true ↔ pat.toList <:+: s.toList := afterChars_isSome

namespace Relay

def MODEL : String := "claude-opus-4-8"

/-- The limit for a file of the context, in bytes. -/
def REF_CAP : Nat := 6000

/-! ## The context -/

/-- The context that the refs give, and the refs that were found. -/
def resolveRefs (fs : FileSystem) (workdir : String) : List String → Option (String × List String)
  | [] => some ("", [])
  | r :: refs =>
      if containsText r ".." then resolveRefs fs workdir refs
      else
        match fs.readToString (joinPath workdir r) with
        | some content => do
            let content ← truncate REF_CAP content
            let (ctx, found) ← resolveRefs fs workdir refs
            pure ("\n===== " ++ r ++ " =====\n" ++ content ++ "\n" ++ ctx, r :: found)
        | none => do
            let (ctx, found) ← resolveRefs fs workdir refs
            pure ("\n===== " ++ r ++ " (não encontrado) =====\n" ++ ctx, found)

def kbTexts (fs : FileSystem) : List DirEntry → Option String
  | [] => some ""
  | e :: entries =>
      match fs.readToString e.path with
      | some text => do
          let text ← truncate 2000 text
          let rest ← kbTexts fs entries
          pure ("\n----- KB: " ++ e.fileName ++ " -----\n" ++ text ++ "\n" ++ rest)
      | none => kbTexts fs entries

def localKb (fs : FileSystem) (home : String) : Option String :=
  match fs.readDir (joinPath home "kb") with
  | some entries => kbTexts fs ((entries.filterMap id).take 10)
  | none => some ""

def contextOf (fs : FileSystem) (home workdir : String) (refs : List String) : Option (String × List String) := do
  let (context, found) ← resolveRefs fs workdir refs
  let kb ← localKb fs home
  pure (if kb = "" then context else context ++ "\n===== BASE DE CONHECIMENTO (local) =====" ++ kb, found)

/-! ## Plans -/

structure PlanOut where
  steps : List PlanStep
  targetFiles : List String
  decision : String
  tokens : Int

def kindFromStr (s : String) : StepKind :=
  match Text.toAsciiLowercase s with
  | "plan" => .PLAN
  | "exec" => .EXEC
  | "test" => .TEST
  | "review" => .REVIEW
  | "merge" => .MERGE
  | "question" => .QUESTION
  | _ => .EXEC

/-- The first of `str::lines`, trimmed. -/
def firstLine (s default : String) : String :=
  if s = "" then Text.trimSpace default else Text.trimSpace (String.ofList (s.toList.takeWhile (· ≠ '\n')))

/-- The plan without a model. -/
def stub (template : String) (found : List String) (reason : String) : PlanOut where
  steps := [⟨0, .PLAN, "Planejar: " ++ firstLine template "tarefa"⟩,
    ⟨1, .EXEC, "Implementar a mudança nos arquivos de contexto"⟩, ⟨2, .TEST, "Rodar a suíte de testes"⟩,
    ⟨3, .REVIEW, "Revisar o diff antes do PR"⟩]
  targetFiles := found
  decision := "stub local (" ++ reason ++ ")"
  tokens := 0

/-! ## The call of the model -/

structure AnthropicResp where
  content : List String
  inputTokens : Int
  outputTokens : Int

structure StepJson where
  kind : String
  label : String

structure PlanJson where
  steps : List StepJson
  targetFiles : List String
  decision : String

/-- `serde_json` at the two types that the relay reads, and the text of a status code. -/
structure Readers where
  statusText : Nat → String
  anthropicResp : String → Except String AnthropicResp
  planJson : String → Except String PlanJson

structure ApiRequest where
  key : String
  body : Json

/-- What a request comes to: no response, a response whose body does not arrive, or one that is read. -/
inductive Reply
  | unsent (error : String)
  | unread (error : String)
  | read (status : Nat) (text : String)

def systemText : String :=
  "Você é um planejador de mudanças de código. Receba um pedido e o contexto (trechos de arquivos) e responda APENAS com um plano ESTRUTURADO: os passos a executar e os arquivos-alvo. NUNCA escreva o código em si nem o conteúdo dos arquivos — só decisões e metadados. Cada passo tem um 'kind' em \x7bplan,exec,test,review,merge,question\x7d."

def stringType : Json := .obj [("type", .str "string")]

def planSchema : Json :=
  .obj [("type", .str "object"), ("additionalProperties", .bool false),
    ("required", .arr [.str "steps", .str "target_files", .str "decision"]),
    ("properties", .obj [
      ("steps", .obj [("type", .str "array"), ("items", .obj [
        ("type", .str "object"), ("additionalProperties", .bool false), ("required", .arr [.str "kind", .str "label"]),
        ("properties", .obj [
          ("kind", .obj [("type", .str "string"), ("enum", .arr [.str "plan", .str "exec", .str "test", .str "review",
            .str "merge", .str "question"])]),
          ("label", stringType)])])]),
      ("target_files", .obj [("type", .str "array"), ("items", stringType)]),
      ("decision", stringType)])]

def request (key template context : String) : ApiRequest where
  key := key
  body := .obj [("model", .str MODEL), ("max_tokens", .num "2000"), ("system", .str systemText),
    ("output_config", .obj [("format", .obj [("type", .str "json_schema"), ("schema", planSchema)])]),
    ("messages", .arr [.obj [("role", .str "user"),
      ("content", .str ("PEDIDO:\n" ++ template ++ "\n\nCONTEXTO (local):\n" ++ context))]])]

/-- The structured plan of a model's answer; indices and sums wrap. -/
def planOf (resp : AnthropicResp) (plan : PlanJson) : PlanOut where
  steps := plan.steps.mapIdx fun i s => ⟨(i : Int).bmod (2 ^ 32), kindFromStr s.kind, s.label⟩
  targetFiles := plan.targetFiles
  decision := if plan.decision = "" then "plano gerado pela Anthropic (chave local)" else plan.decision
  tokens := (resp.inputTokens + resp.outputTokens).bmod (2 ^ 64)

def callAnthropic (readers : Readers) (api : ApiRequest → Reply) (key template context : String) :
    Option (Except String PlanOut) :=
  match api (request key template context) with
  | .unsent e => some (.error e)
  | .unread e => some (.error e)
  | .read status text =>
      if 200 ≤ status ∧ status < 300 then
        match readers.anthropicResp text with
        | .error e => some (.error e)
        | .ok parsed =>
            match readers.planJson (Text.trimSpace (Text.join "" parsed.content)) with
            | .error e => some (.error e)
            | .ok plan => some (.ok (planOf parsed plan))
      else (truncate 200 text).map fun t => .error ("HTTP " ++ readers.statusText status ++ ": " ++ t)

/-! ## Planning -/

variable {c : Crates}

/-- What the daemon is started with. -/
structure Env where
  home : String
  workdir : String

def plan (env : Env) (readers : Readers) (fs : FileSystem) (api : ApiRequest → Reply) (v : Vault) (m : Machine c)
    (template : String) (refs : List String) : Option PlanOut := do
  let (context, found) ← contextOf fs env.home env.workdir refs
  match ← ((v.get "anthropic").run m).2 with
  | some key =>
      match ← callAnthropic readers api key template context with
      | .ok p => pure p
      | .error e => pure (stub template found ("falha na chamada: " ++ e))
  | none => pure (stub template found "sem chave local configurada (secret.put)")

/-- The `PLAN_RESULT` that the daemon sends for a `REQUEST_PLAN`, at the two readings of the clock
that `env_msg` takes. -/
def planResult (env : Env) (readers : Readers) (fs : FileSystem) (api : ApiRequest → Reply) (v : Vault) (m : Machine c)
    (rp : RequestPlan) (idMs ts : Int) : Option Envelope := do
  let out ← plan env readers fs api v m rp.promptTemplate rp.contextRefs
  pure {
    id := "msg_" ++ toString idMs
    type := .PLAN_RESULT
    ts := ts
    payload := .planResult {
      taskId := rp.taskId
      steps := out.steps
      targetFiles := out.targetFiles
      decision := out.decision
      tokensUsed := out.tokens } }

end Relay

end Executor
