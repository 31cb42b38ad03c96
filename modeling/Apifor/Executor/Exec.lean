import Apifor.Executor.Relay
import Apifor.Lib.Serde

/-!
# The steps of a task

`executor/src/exec.rs`, and the `DispatchStep` branch of `run_daemon`: a task's repository is cloned, a
model or a stub edits it, and its branch is pushed, tested, reviewed and merged, all in the directory of
the task.
-/

namespace Executor

open Apifor (DispatchStep StepKind StepEvent Envelope)

namespace Exec

variable {c : Crates} {σ : Type}

/-! ## Instructions -/

structure Instr where
  repoURL : String
  baseBranch : String
  branch : String
  changeRequest : String
  targetFiles : List String
  model : String
  openPR : Bool
  deriving DecidableEq

def Instr.names : List String :=
  ["repo_url", "base_branch", "branch", "change_request", "target_files", "model", "open_pr"]

def Instr.ofMembers (ms : List (String × Json)) : Option Instr := do
  let repoURL ← Serde.field Serde.asStr none "repo_url" ms
  let baseBranch ← Serde.field Serde.asStr (some "main") "base_branch" ms
  let branch ← Serde.field Serde.asStr none "branch" ms
  let changeRequest ← Serde.field Serde.asStr (some "") "change_request" ms
  let targetFiles ← Serde.field Serde.asStrs (some []) "target_files" ms
  let model ← Serde.field Serde.asStr (some "") "model" ms
  let openPR ← Serde.field Serde.asBool (some true) "open_pr" ms
  pure ⟨repoURL, baseBranch, branch, changeRequest, targetFiles, model, openPR⟩

def Instr.fromStr (text : String) : Option Instr :=
  ((Serde.parse text).bind (Serde.structMembers Instr.names)).bind Instr.ofMembers

def FALLBACK_MODEL : String := "claude-opus-4-8"

def modelOr (instr : Instr) : String := if instr.model = "" then FALLBACK_MODEL else instr.model

def firstLine (s : String) : String := Relay.firstLine s "mudança"

/-! ## The machine of the steps -/

inductive Exit
  | spawn (error : String)
  | exited (success : Bool) (stdout stderr : String)

structure Post where
  url : String
  headers : List (String × String)
  body : Json

/-- What the machine does when it is asked to; `debug` is `{:?}` of a list of texts. -/
structure Host (σ : Type) where
  git : String → List String → σ → σ × Exit
  bash : String → String → σ → σ × Exit
  post : Post → σ → σ × Relay.Reply
  exists? : String → σ → Bool
  removeDirAll : String → σ → σ
  createDirAll : String → σ → σ × Except String Unit
  createParent : String → σ → σ
  readToString : String → σ → Option String
  write : String → String → σ → σ × Except String Unit
  envVar : String → Option String
  debug : List String → String

structure FileEdit where
  path : String
  content : String
  deriving DecidableEq

/-- `serde_json` at the types that the steps read, and the texts of its errors. -/
structure Readers where
  statusText : Nat → String
  instrError : String → String
  contentTexts : String → Except String (List String)
  filesJson : String → Except String (List FileEdit)
  reviewJson : String → Except String (Bool × String)
  prURL : String → Except String String

/-- The vault's machine, the rest of the machine, and the files that were read or written on it. -/
structure Disk (c : Crates) (σ : Type) where
  vault : Machine c
  state : σ
  touched : List String

abbrev Step (c : Crates) (σ α : Type) := Prog (Disk c σ) String α

variable (h : Host σ) (rd : Readers) (v : Vault)

/-- `git`, which gives what it printed, or an error that names its arguments. -/
def git (dir : String) (args : List String) : Step c σ (Except String String) :=
  .lift fun d =>
    let (s, exit) := h.git dir args d.state
    ({ d with state := s },
      match exit with
      | .spawn e => .error ("git spawn: " ++ e)
      | .exited true stdout _ => .ok stdout
      | .exited false _ stderr => .error ("git " ++ h.debug args ++ ": " ++ Text.trimSpace stderr))

def post (p : Post) : Step c σ Relay.Reply :=
  .lift fun d => ({ d with state := (h.post p d.state).1 }, (h.post p d.state).2)

def readToString (path : String) : Step c σ (Option String) :=
  .lift fun d => ({ d with touched := path :: d.touched }, h.readToString path d.state)

def write (path content : String) : Step c σ (Except String Unit) :=
  .lift fun d =>
    let (s, out) := h.write path content d.state
    ({ d with state := s, touched := path :: d.touched }, out)

def createParent (path : String) : Step c σ Unit := .lift fun d => ({ d with state := h.createParent path d.state }, ())

/-- `vault.get`. -/
def secret (name : String) : Step c σ (Option String) := do
  match ← .lift fun d => (d, ((v.get name).run d.vault).2) with
  | some value => pure value
  | none => .crash

/-- A text cut at a number of bytes; a cut inside a character is a panic. -/
def cut (n : Nat) (text : String) : Step c σ String :=
  match truncate n text with
  | some t => pure t
  | none => .crash

/-- The text of a response, or its error with what it shows of an unsuccessful one. -/
def body (shown : String → Step c σ String) : Relay.Reply → Step c σ (Except String String)
  | .unsent e => pure (.error e)
  | .unread e => pure (.error e)
  | .read status text =>
      if 200 ≤ status ∧ status < 300 then pure (.ok text)
      else do
        let t ← shown text
        pure (.error ("HTTP " ++ rd.statusText status ++ t))

/-- `: ` and the first bytes of the response. -/
def shown160 (text : String) : Step c σ String := do
  let t ← cut 160 text
  pure (": " ++ t)

/-! ## URLs -/

/-- The token goes into the URL of GitHub. -/
def authedURL (repoURL : String) (token : Option String) : String :=
  match token with
  | some t =>
      if Text.hasPrefix repoURL "https://github.com/" then
        "https://x-access-token:" ++ t ++ "@" ++ Text.trimPrefix repoURL "https://"
      else repoURL
  | none => repoURL

def parseGithub (url : String) : Option (String × String) :=
  if Text.hasPrefix url "https://github.com/" then
    Text.cut (Text.trimSuffix (Text.trimPrefix url "https://github.com/") ".git") '/'
  else none

/-! ## The coder -/

/-- The target files as they are. -/
def targetContext (repo : String) : List String → Step c σ String
  | [] => pure ""
  | f :: files =>
      if containsText f ".." then targetContext repo files
      else do
        match ← readToString h (joinPath repo f) with
        | some text => do
            let text ← cut 6000 text
            let rest ← targetContext repo files
            pure ("\n===== " ++ f ++ " (atual) =====\n" ++ text ++ "\n" ++ rest)
        | none => targetContext repo files

def coderSystem : String :=
  "Você é um agente que escreve código. Receba um pedido e o conteúdo atual dos arquivos-alvo. Devolva o conteúdo NOVO COMPLETO de cada arquivo que precisa mudar, em JSON \x7b\"files\":[\x7b\"path\":...,\"content\":...\x7d]\x7d. Edite o mínimo necessário."

def filesSchema : Json :=
  .obj [("type", .str "object"), ("additionalProperties", .bool false), ("required", .arr [.str "files"]),
    ("properties", .obj [("files", .obj [("type", .str "array"), ("items", .obj [
      ("type", .str "object"), ("additionalProperties", .bool false),
      ("required", .arr [.str "path", .str "content"]),
      ("properties", .obj [("path", Relay.stringType), ("content", Relay.stringType)])])])])]

/-- A request to the Anthropic API. -/
def messages (key model maxTokens system user : String) (schema : Json) : Post where
  url := "https://api.anthropic.com/v1/messages"
  headers := [("x-api-key", key), ("anthropic-version", "2023-06-01"), ("content-type", "application/json")]
  body := .obj [("model", .str model), ("max_tokens", .num maxTokens), ("system", .str system),
    ("output_config", .obj [("format", .obj [("type", .str "json_schema"), ("schema", schema)])]),
    ("messages", .arr [.obj [("role", .str "user"), ("content", .str user)]])]

def coderPost (key : String) (instr : Instr) (ctx : String) : Post :=
  messages key (modelOr instr) "4000" coderSystem ("PEDIDO:\n" ++ instr.changeRequest ++ "\n\nARQUIVOS:\n" ++ ctx)
    filesSchema

/-- The edits in the text of a response. -/
def editsOf (text : String) : Except String (List FileEdit) := do
  let texts ← rd.contentTexts text
  rd.filesJson (Text.trimSpace (Text.join "" texts))

/-- The edits are made until one fails; `n` of them were made before. -/
def applyEdits (repo : String) : List FileEdit → Nat → Step c σ (Except String Nat)
  | [], n => pure (if n = 0 then .error "modelo não devolveu arquivos" else .ok n)
  | fe :: edits, n =>
      if containsText fe.path ".." then applyEdits repo edits n
      else do
        createParent h (joinPath repo fe.path)
        match ← write h (joinPath repo fe.path) fe.content with
        | .ok () => applyEdits repo edits (n + 1)
        | .error e => pure (.error e)

def codeWithLLM (key repo : String) (instr : Instr) : Step c σ (Except String Nat) := do
  let ctx ← targetContext h repo instr.targetFiles
  let reply ← post h (coderPost key instr ctx)
  match ← body rd shown160 reply with
  | .error e => pure (.error e)
  | .ok text =>
      match editsOf rd text with
      | .error e => pure (.error e)
      | .ok edits => applyEdits h repo edits 0

def stubCode (repo : String) (instr : Instr) : Step c σ String := do
  let _ ← write h (joinPath repo "APIFOR_CHANGE.md")
    ("# Mudança proposta (apifor stub)\n\n" ++ instr.changeRequest ++ "\n\nArquivos-alvo: " ++ h.debug instr.targetFiles ++ "\n")
  pure "stub local (sem chave anthropic): registrou APIFOR_CHANGE.md"

/-! ## The pull request -/

def prPost (token owner repo : String) (instr : Instr) : Post where
  url := "https://api.github.com/repos/" ++ owner ++ "/" ++ repo ++ "/pulls"
  headers := [("authorization", "Bearer " ++ token), ("accept", "application/vnd.github+json"),
    ("user-agent", "apifor-executor")]
  body := .obj [("title", .str ("apifor: " ++ firstLine instr.changeRequest)), ("head", .str instr.branch),
    ("base", .str instr.baseBranch),
    ("body", .str "PR aberto automaticamente pelo apifor (M2.2). Código gerado e enviado localmente.")]

def openPR (instr : Instr) (token : Option String) : Step c σ (Except String String) :=
  match token with
  | none => pure (.error "sem token github no vault")
  | some token =>
      match parseGithub instr.repoURL with
      | none => pure (.error "remote não é github.com")
      | some (owner, repo) => do
          let reply ← post h (prPost token owner repo instr)
          match ← body rd shown160 reply with
          | .error e => pure (.error e)
          | .ok text => pure (rd.prURL text)

/-! ## The steps -/

/-- The directory of a task; `home` is `APIFOR_HOME`. -/
def workPath (home task : String) : String := joinPath (joinPath home "work") task

def repoPath (home task : String) : String := joinPath (workPath home task) "repo"

/-- `?`. -/
def orFail {α β : Type} (p : Step c σ (Except String α)) (k : α → Step c σ (Except String β)) :
    Step c σ (Except String β) := do
  match ← p with
  | .ok a => k a
  | .error e => pure (.error e)

structure ExecResult where
  branch : String
  url : String

def bot : List String := ["-c", "user.email=bot@apifor.dev", "-c", "user.name=apifor bot"]

def localURL (repoURL branch : String) : String := "local:" ++ repoURL ++ "#" ++ branch

def clone (work repo cloneURL : String) (instr : Instr) : Step c σ (Except String String) := do
  match ← git h work ["clone", "--depth", "1", "-b", instr.baseBranch, cloneURL, repo] with
  | .ok out => pure (.ok out)
  | .error _ => git h work ["clone", "--depth", "1", cloneURL, repo]

def code (repo : String) (instr : Instr) : Step c σ Unit := do
  match ← secret v "anthropic" with
  | some key =>
      match ← codeWithLLM h rd key repo instr with
      | .ok _ => pure ()
      | .error _ => do
          let _ ← stubCode h repo instr
  | none => do
      let _ ← stubCode h repo instr

def run (home task instrJson : String) : Step c σ (Except String ExecResult) :=
  match Instr.fromStr instrJson with
  | none => pure (.error ("instr inválida: " ++ rd.instrError instrJson))
  | some instr => do
      let token ← secret v "github"
      let work := workPath home task
      let repo := joinPath work "repo"
      .lift fun d => ({ d with state := h.removeDirAll work d.state }, ())
      orFail (.lift fun d => ({ d with state := (h.createDirAll work d.state).1 }, (h.createDirAll work d.state).2)) fun () =>
        orFail (clone h work repo (authedURL instr.repoURL token) instr) fun _ =>
          orFail (git h repo ["checkout", "-b", instr.branch]) fun _ => do
            code h rd v repo instr
            orFail (git h repo ["add", "-A"]) fun _ =>
              orFail (git h repo (bot ++ ["commit", "-m", "apifor: " ++ firstLine instr.changeRequest])) fun _ =>
                orFail (git h repo ["push", "origin", instr.branch]) fun _ =>
                  if instr.openPR then do
                    match ← openPR h rd instr token with
                    | .ok url => pure (.ok ⟨instr.branch, url⟩)
                    | .error _ => pure (.ok ⟨instr.branch, localURL instr.repoURL instr.branch⟩)
                  else pure (.ok ⟨instr.branch, localURL instr.repoURL instr.branch⟩)

/-- What the later steps do in the repository that the first one left. -/
def inRepo {α : Type} (home task instrJson : String) (k : String → Instr → Step c σ (Except String α)) :
    Step c σ (Except String α) :=
  match Instr.fromStr instrJson with
  | none => pure (.error (rd.instrError instrJson))
  | some instr => do
      let there ← .lift fun d => (d, h.exists? (repoPath home task) d.state)
      if there then k (repoPath home task) instr else pure (.error "workdir da tarefa ausente")

def runTest (home task instrJson : String) : Step c σ (Except String (Bool × String)) :=
  inRepo h rd home task instrJson fun repo instr => do
    let _ ← git h repo ["checkout", instr.branch]
    if h.envVar "APIFOR_TEST_FAIL" = some "1" then pure (.ok (false, "teste falhou (APIFOR_TEST_FAIL=1)"))
    else
      match h.envVar "APIFOR_TEST_CMD" with
      | none => pure (.ok (true, "sem testes configurados (ok)"))
      | some cmd =>
          if cmd = "" then pure (.ok (true, "sem testes configurados (ok)"))
          else do
            match ← .lift fun d => ({ d with state := (h.bash repo cmd d.state).1 }, (h.bash repo cmd d.state).2) with
            | .spawn e => pure (.error e)
            | .exited success stdout _ =>
                pure (.ok (success, "`" ++ cmd ++ "`: " ++ String.ofList ((Text.trimSpace stdout).toList.take 160)))

def reviewSystem : String :=
  "Você é um revisor de código sênior. Avalie o diff frente ao pedido e responda em JSON \x7b\"approved\":bool,\"comments\":string\x7d. Aprove se a mudança é correta e segura; senão approved=false com o motivo curto."

def reviewSchema : Json :=
  .obj [("type", .str "object"), ("additionalProperties", .bool false),
    ("required", .arr [.str "approved", .str "comments"]),
    ("properties", .obj [("approved", .obj [("type", .str "boolean")]), ("comments", Relay.stringType)])]

def reviewWithLLM (key model change diff : String) : Step c σ (Except String (Bool × String)) := do
  let capped := String.ofList (diff.toList.take 12000)
  let reply ← post h (messages key model "1000" reviewSystem ("PEDIDO:\n" ++ change ++ "\n\nDIFF:\n" ++ capped) reviewSchema)
  match ← body rd (fun _ => pure "") reply with
  | .error e => pure (.error e)
  | .ok text =>
      pure do
        let texts ← rd.contentTexts text
        rd.reviewJson (Text.trimSpace (Text.join "" texts))

def runReview (home task instrJson : String) : Step c σ (Except String (Bool × String)) :=
  inRepo h rd home task instrJson fun repo instr => do
    let diff ← git h repo ["diff", instr.baseBranch ++ ".." ++ instr.branch]
    let diff := diff.toOption.getD ""
    if Text.trimSpace diff = "" then pure (.ok (false, "diff vazio — nada a revisar"))
    else do
      match ← secret v "anthropic" with
      | some key => reviewWithLLM h rd key (modelOr instr) instr.changeRequest diff
      | none => pure (.ok (true, "stub: revisão aprovada (sem chave anthropic)"))

/-- `run_merge` after the instructions were read. -/
def merge (repo : String) (instr : Instr) : Step c σ (Except String String) :=
  orFail (git h repo ["checkout", instr.baseBranch]) fun _ =>
    orFail (git h repo (bot ++ ["merge", "--no-ff", "-m", "apifor merge: " ++ firstLine instr.changeRequest, instr.branch]))
      fun _ =>
        orFail (git h repo ["push", "origin", instr.baseBranch]) fun _ =>
          pure (.ok (localURL instr.repoURL instr.baseBranch))

def runMerge (home task instrJson : String) : Step c σ (Except String String) :=
  inRepo h rd home task instrJson (merge h)

/-! ## Results -/

/-- What a step that succeeded reports. -/
inductive Outcome
  | exec (branch url : String)
  | test (passed : Bool) (summary : String)
  | review (approved : Bool) (comments : String)
  | merge (url : String)
  deriving DecidableEq

/-- The `json!` of an outcome. -/
def Outcome.output : Outcome → String
  | exec branch url => Serde.object [("branch", Serde.quote branch), ("kind", Serde.quote "exec"), ("url", Serde.quote url)]
  | test passed summary =>
      Serde.object [("kind", Serde.quote "test"), ("passed", Serde.bool passed), ("summary", Serde.quote summary)]
  | review approved comments =>
      Serde.object [("approved", Serde.bool approved), ("comments", Serde.quote comments), ("kind", Serde.quote "review")]
  | merge url => Serde.object [("kind", Serde.quote "merge"), ("merged", Serde.bool true), ("url", Serde.quote url)]

/-- The number of a step's kind in the protocol. -/
def kindNumber : StepKind → String
  | .STEP_UNSPECIFIED => "0"
  | .PLAN => "1"
  | .EXEC => "2"
  | .TEST => "3"
  | .REVIEW => "4"
  | .MERGE => "5"
  | .QUESTION => "6"

def outcome (home : String) (ds : DispatchStep) : Step c σ (Except String Outcome) :=
  match ds.kind with
  | .EXEC => orFail (run h rd v home ds.taskId ds.instructions) fun r => pure (.ok (.exec r.branch r.url))
  | .TEST => orFail (runTest h rd home ds.taskId ds.instructions) fun r => pure (.ok (.test r.1 r.2))
  | .REVIEW => orFail (runReview h rd v home ds.taskId ds.instructions) fun r => pure (.ok (.review r.1 r.2))
  | .MERGE => orFail (runMerge h rd home ds.taskId ds.instructions) fun url => pure (.ok (.merge url))
  | kind => pure (.error ("kind " ++ kindNumber kind ++ " não suportado"))

/-- The envelope with which the daemon answers a `DISPATCH_STEP`, at the two readings of the clock that
`env_msg` takes. -/
def dispatchStep (home : String) (ds : DispatchStep) (idMs ts : Int) : Step c σ Envelope := do
  match ← outcome h rd v home ds with
  | .ok out =>
      pure {
        id := "msg_" ++ toString idMs
        type := .STEP_COMPLETED
        ts := ts
        payload := .stepEvent { stepId := ds.stepId, taskId := ds.taskId, output := out.output } }
  | .error e =>
      pure {
        id := "msg_" ++ toString idMs
        type := .STEP_FAILED
        ts := ts
        payload := .stepEvent { stepId := ds.stepId, taskId := ds.taskId, error := e } }

end Exec

end Executor
