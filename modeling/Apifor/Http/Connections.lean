import Apifor.Http.Settings

/-!
# Connections

The handlers under `/v1/connections`: the AI engine, code providers, task sources, integrations, and
the two GitHub flows. They ask outside services whether a credential is good; the answers come with
the request. The device flow is polled by a goroutine of its own, and the callback of the web flow
acts for the org that started the flow.
-/

namespace Apifor

namespace API

variable (a : API) (u : Caller) (r : Request)

/-! ## The AI engine -/

structure KindBody where
  kind : String := ""

def setAIEngine (kind provider label : String) : SettingsM u.orgID Response := do
  let res ← DB.setAIEngine kind provider label
  answer u res fun id => do
    recordAudit u "connection.ai_engine.set" "connection" id settings_auditLog
    pure (writeJSON 200 (.obj [("id", .str id), ("provider", .str provider), ("kind", .str kind)]))

def connections : SettingsM u.orgID Response :=
  if r.method = "POST" then
    guarded u "manage" do
      let (b, ok) := Json.decodeFirst [Json.stringField "kind" fun v _ => KindBody.mk v] r.body {}
      if !ok then pure badJSON
      else if b.kind = "api" then setAIEngine u "api" "Anthropic API" "API key"
      else setAIEngine u "subscription" "Claude (assinatura)" "Conta Claude.ai"
  else listing u "ListConnections" fun _ v => .ok (DB.listConnections v)

/-- What the sidecar answers is passed on. -/
def sidecar : Reply → Response
  | .answer st body => ⟨st.toNat, .raw body⟩
  | .failed msg => fail 502 "unavailable" ("sidecar inacessível: " ++ msg)

def replyOK : Reply → Bool
  | .answer st _ => st = 200
  | .failed _ => false

structure CodeBody where
  code : String := ""

def claudeAuth : SettingsM u.orgID Response :=
  if r.method ≠ "POST" then pure (fail 405 "method" "use POST")
  else guarded u "manage" do
    let action := Text.trimPrefix r.path "/v1/connections/claude/"
    if a.authSidecarURL = "" then
      pure (fail 502 "unavailable" "sidecar de OAuth Claude não configurado (AUTH_SIDECAR_URL)")
    else if action = "start" ∨ action = "cancel" then pure (sidecar (r.reply 0))
    else if action = "code" then do
      let (b, _) := Json.decodeFirst [Json.stringField "code" fun v _ => CodeBody.mk v] r.body {}
      if Text.trimSpace b.code = "" then pure (fail 400 "bad_request" "código vazio")
      else if replyOK (r.reply 0) then do
        match ← DB.setAIEngine (B := u.orgID) "subscription" "Claude (assinatura)" "Conta Claude.ai" with
        | .ok id => recordAudit u "connection.ai_engine.set" "connection" id settings_auditLog
        | .error _ => pure ()
        pure (sidecar (r.reply 0))
      else pure (sidecar (r.reply 0))
    else pure (fail 404 "not_found" "ação inválida")

/-- `ok`, and the other fields of a test's answer. -/
def tested (ok : Bool) (fields : List (String × Val)) : Response := writeJSON 200 (.obj (("ok", .bool ok) :: fields))

structure KeyBody where
  apiKey : String := ""

def anthropicTest : SettingsM u.orgID Response :=
  if r.method ≠ "POST" then pure (fail 405 "method" "use POST")
  else guarded u "manage" do
    let (b, _) := Json.decodeFirst [Json.stringField "api_key" fun v _ => KeyBody.mk v] r.body {}
    if Text.trimSpace b.apiKey = "" then pure (fail 400 "bad_request" "api_key vazia")
    else
      match r.reply 0 with
      | .failed msg => pure (tested false [("message", .str ("falha de rede: " ++ msg))])
      | .answer st _ =>
          if st = 200 then pure (tested true [("message", .str "chave válida")])
          else
            let msg :=
              if st = 401 ∨ st = 403 then "chave inválida ou sem permissão"
              else if st = 429 then "rate limit — tente de novo"
              else "resposta inesperada da Anthropic (HTTP " ++ toString st ++ ")"
            pure (tested false [("status", .int st), ("message", .str msg)])

/-! ## Code providers -/

def providerLabels : String → Option String
  | "github" => some "GitHub"
  | "gitlab" => some "GitLab"
  | "bitbucket" => some "Bitbucket"
  | _ => none

structure Account where
  login : String := ""
  username : String := ""
  displayName : String := ""

def firstNonEmpty : List String → String
  | [] => ""
  | s :: ss => if s = "" then firstNonEmpty ss else s

/-- What a provider says of a credential: who it belongs to with a message, or the refusal. -/
abbrev Verdict := Except String (String × String)

def connectedAs (who : String) : Verdict := .ok (who, "conectado como " ++ who)

/-- A call whose answer must have status 200. -/
def onReply (rep : Reply) (refused : Int → String) (good : String → Verdict) : Verdict :=
  match rep with
  | .failed msg => .error ("falha de rede: " ++ msg)
  | .answer st body => if st = 200 then good body else .error (refused st)

def validateGitToken (provider username : String) (rep : Reply) : Verdict :=
  match providerLabels provider with
  | none => .error "provider inválido"
  | some label =>
      if provider = "bitbucket" ∧ username = "" then .error "Bitbucket exige usuário + app password"
      else
        onReply rep (fun st => if st = 429 then "rate limit — tente de novo" else "token inválido ou sem permissão")
          fun body =>
            let acc := (Json.unmarshal
              [Json.stringField "login" fun v x => { x with login := v },
                Json.stringField "username" fun v x => { x with username := v },
                Json.stringField "display_name" fun v x => { x with displayName := v }] body ({} : Account)).1
            connectedAs (firstNonEmpty [acc.login, acc.username, acc.displayName, label])

structure Credential where
  provider : String := ""
  token : String := ""
  username : String := ""
  email : String := ""
  site : String := ""
  key : String := ""
  project : String := ""

def gitFields : List (Json.Field Credential) :=
  [Json.stringField "provider" fun v b => { b with provider := v },
    Json.stringField "token" fun v b => { b with token := v },
    Json.stringField "username" fun v b => { b with username := v }]

/-- `ok`, `who` and `message` of a test handler. -/
def verdictVal : Verdict → Response
  | .ok (who, msg) => tested true [("who", .str who), ("message", .str msg)]
  | .error msg => tested false [("who", .str ""), ("message", .str msg)]

def refusal (msg : String) : Response := tested false [("message", .str msg)]

def gitTest : SettingsM u.orgID Response :=
  if r.method ≠ "POST" then pure (fail 405 "method" "use POST")
  else guarded u "manage" do
    let (b, _) := Json.decodeFirst gitFields r.body {}
    if Text.trimSpace b.token = "" then pure (fail 400 "bad_request" "token vazio")
    else pure (verdictVal (validateGitToken b.provider (Text.trimSpace b.username) (r.reply 0)))

/-- The label of a connection: the account, except for Bitbucket's user name. -/
def accountLabel (b : Credential) (who : String) : String :=
  if b.provider = "bitbucket" ∧ b.username ≠ "" then b.username else who

/-- The end of a handler that stored a connection. -/
def stored (res : Except DbErr Id) (kind who provider : String) : SettingsM u.orgID Response :=
  answer u res fun id => do
    recordAudit u ("connection." ++ kind ++ ".set") "connection" id settings_auditLog
    pure (tested true [("who", .str who), ("provider", .str provider)])

/-- The `DELETE` of a connection's slot. -/
def disconnect (name kind : String) (type : ConnectionType) (prov : String) : SettingsM u.orgID Response := do
  let res ← DB.deleteConnection name type prov
  answer u res fun _ => do
    recordAudit u ("connection." ++ kind ++ ".delete") "connection" prov settings_auditLog
    pure okTrue

def badProvider : Response := fail 400 "bad_request" "provider inválido"

def gitConnect : SettingsM u.orgID Response :=
  guarded u "manage" do
    if r.method = "DELETE" then
      let prov := Text.trimSpace (r.get "provider")
      if (providerLabels prov).isNone then pure badProvider
      else disconnect u "DeleteCodeProvider" "code" .code prov
    else if r.method ≠ "POST" then pure (fail 405 "method" "use POST/DELETE")
    else
      let (b, _) := Json.decodeFirst gitFields r.body {}
      if (providerLabels b.provider).isNone then pure badProvider
      else if Text.trimSpace b.token = "" then pure (fail 400 "bad_request" "token vazio")
      else
        match validateGitToken b.provider (Text.trimSpace b.username) (r.reply 0) with
        | .error msg => pure (refusal msg)
        | .ok (who, _) => do
            let res ← DB.setCodeProviderToken b.provider (accountLabel b who) (Text.trimSpace b.token)
              (Text.trimSpace b.username) "token"
            stored u res "code" who b.provider

structure RemoteRepo where
  fullName : String := ""
  cloneURL : String := ""
  defaultBranch : String := ""
  priv : Bool := false

def githubRepoFields : List (Json.Field RemoteRepo) :=
  [Json.stringField "full_name" fun v x => { x with fullName := v },
    Json.stringField "clone_url" fun v x => { x with cloneURL := v },
    Json.stringField "default_branch" fun v x => { x with defaultBranch := v },
    Json.boolField "private" fun v x => { x with priv := v }]

/-- A project is private unless its `visibility` is `public`, also when it has none. -/
def gitlabRepoFields : List (Json.Field RemoteRepo) :=
  [Json.stringField "path_with_namespace" fun v x => { x with fullName := v },
    Json.stringField "http_url_to_repo" fun v x => { x with cloneURL := v },
    Json.stringField "default_branch" fun v x => { x with defaultBranch := v },
    Json.stringField "visibility" fun v x => { x with priv := decide (v ≠ "public") }]

structure CloneLink where
  name : String := ""
  href : String := ""

def cloneLinkFields : List (Json.Field CloneLink) :=
  [Json.stringField "name" fun v x => { x with name := v }, Json.stringField "href" fun v x => { x with href := v }]

/-- The last clone link named `https`. -/
def httpsLink (links : List CloneLink) : String :=
  ((links.reverse.find? fun l => decide (l.name = "https")).map (·.href)).getD ""

structure BitbucketRepo where
  fullName : String := ""
  isPrivate : Bool := false
  mainBranch : String := ""
  clone : Json.Slice CloneLink := {}

def bitbucketRepoFields : List (Json.Field BitbucketRepo) :=
  [Json.stringField "full_name" fun v x => { x with fullName := v },
    Json.boolField "is_private" fun v x => { x with isPrivate := v },
    Json.structField "mainbranch" [Json.stringField "name" fun v x => { x with mainBranch := v }] id fun v _ => v,
    Json.structField "links" [Json.structsField "clone" cloneLinkFields {} (·.clone) fun v x => { x with clone := v }]
      id fun v _ => v]

def BitbucketRepo.remote (x : BitbucketRepo) : RemoteRepo where
  fullName := x.fullName
  cloneURL := httpsLink x.clone.toList
  defaultBranch := x.mainBranch
  priv := x.isPrivate

structure BitbucketRepos where
  values : Json.Slice BitbucketRepo := {}

/-- The repositories in a provider's answer; what does not decode is left out. -/
def remoteRepos (provider body : String) : List RemoteRepo :=
  if provider = "bitbucket" then
    (Json.unmarshal [Json.structsField "values" bitbucketRepoFields {} (·.values) fun v _ => BitbucketRepos.mk v] body
      {}).1.values.toList.map BitbucketRepo.remote
  else
    match Json.parse body with
    | none => []
    | some j =>
        (if provider = "github" then Json.toSlice (Json.toStruct githubRepoFields) {} j {}
          else Json.toSlice (Json.toStruct gitlabRepoFields) { priv := true } j {}).1.toList

def remoteRepoVal (x : RemoteRepo) : Val :=
  .obj [("full_name", .str x.fullName), ("clone_url", .str x.cloneURL), ("default_branch", .str x.defaultBranch),
    ("private", .bool x.priv)]

def listRemoteRepos (provider : String) (rep : Reply) : Response :=
  match rep with
  | .failed msg => fail 502 "provider_error" ("falha de rede: " ++ msg)
  | .answer st body =>
      if st = 200 then writeJSON 200 (.obj [("repos", .arr ((remoteRepos provider body).map remoteRepoVal))])
      else fail st.toNat "provider_error" "o provider recusou a listagem de repositórios"

/-- The stored token of a code provider; `none` is no connection, no token, or a failed query. -/
def codeToken (provider : String) : SettingsM u.orgID (Option (String × String)) := do
  match ← DB.getCodeAuth provider with
  | .ok (token, username) => pure (if token = "" then none else some (token, username))
  | .error _ => pure none

def codeRemoteRepos : SettingsM u.orgID Response :=
  guarded u "manage" do
    let provider := Text.trimSpace (r.get "provider")
    if (providerLabels provider).isNone then pure badProvider
    else do
      match ← codeToken u provider with
      | none =>
          pure (fail 409 "no_token"
            "reconecte esta fonte de código (em Conexões → Código) para listar os repositórios")
      | some _ => pure (listRemoteRepos provider (r.reply 0))

def authedCloneURL (provider cloneURL token username : String) : String :=
  if token = "" ∨ Text.hasPrefix cloneURL "https://" = false then cloneURL
  else
    let cred :=
      if provider = "github" then some ("x-access-token:" ++ token)
      else if provider = "gitlab" then some ("oauth2:" ++ token)
      else if provider = "bitbucket" then some ((if username = "" then "x-token-auth" else username) ++ ":" ++ token)
      else none
    match cred with
    | some c => "https://" ++ c ++ "@" ++ Text.trimPrefix cloneURL "https://"
    | none => cloneURL

structure CloneBody where
  provider : String := ""
  cloneURL : String := ""

def codeCloneURL : SettingsM u.orgID Response :=
  if r.method ≠ "POST" then pure (fail 405 "method" "use POST")
  else guarded u "manage" do
    let (b, _) := Json.decodeFirst
      [Json.stringField "provider" fun v b => { b with provider := v },
        Json.stringField "clone_url" fun v b => { b with cloneURL := v }] r.body ({} : CloneBody)
    if (providerLabels b.provider).isNone ∨ Text.trimSpace b.cloneURL = "" then
      pure (fail 400 "bad_request" "provider e clone_url obrigatórios")
    else do
      match ← codeToken u b.provider with
      | none => pure (fail 409 "no_token" "reconecte esta fonte de código (em Conexões → Código)")
      | some (token, username) =>
          pure (writeJSON 200 (.obj
            [("url", .str (authedCloneURL b.provider (Text.trimSpace b.cloneURL) token username))]))

/-! ## Task sources and integrations -/

def taskSourceLabels : String → Option String
  | "github" => some "GitHub"
  | "gitlab" => some "GitLab"
  | "bitbucket" => some "Bitbucket"
  | "jira" => some "Jira"
  | "trello" => some "Trello"
  | "atlassian_goals" => some "Atlassian Goals"
  | _ => none

def credentialFields : List (Json.Field Credential) :=
  gitFields ++
    [Json.stringField "email" fun v b => { b with email := v }, Json.stringField "site" fun v b => { b with site := v }]

def taskFields : List (Json.Field Credential) :=
  credentialFields ++ [Json.stringField "key" fun v b => { b with key := v }]

def intFields : List (Json.Field Credential) :=
  credentialFields ++ [Json.stringField "project" fun v b => { b with project := v }]

/-- The host of an Atlassian site. -/
def siteHost (site : String) : String :=
  Text.trimSuffix (Text.trimPrefix (Text.trimPrefix (Text.trimSpace site) "https://") "http://") "/"

/-- A call that refuses with the status it got. -/
def httpRefusal (what : String) (st : Int) : String := what ++ " (HTTP " ++ toString st ++ ")"

/-- Two fields of an account, in the order in which they name it. -/
def accountName (first second body : String) : String :=
  let acc := (Json.decodeFirst
    [Json.stringField first fun v x => { x with login := v }, Json.stringField second fun v x => { x with username := v }]
    body ({} : Account)).1
  firstNonEmpty [acc.login, acc.username]

def validateTaskSource (b : Credential) (rep : Reply) : Verdict :=
  if b.provider = "github" ∨ b.provider = "gitlab" ∨ b.provider = "bitbucket" then
    validateGitToken b.provider (Text.trimSpace b.username) rep
  else if b.provider = "jira" ∨ b.provider = "atlassian_goals" then
    if siteHost b.site = "" ∨ Text.trimSpace b.email = "" ∨ Text.trimSpace b.token = "" then
      .error ((if b.provider = "atlassian_goals" then "Atlassian Goals" else "Jira") ++
        " exige site, e-mail e API token")
    else
      onReply rep (httpRefusal "credencial Jira inválida") fun body =>
        connectedAs (accountName "displayName" "emailAddress" body)
  else if b.provider = "trello" then
    if Text.trimSpace b.key = "" ∨ Text.trimSpace b.token = "" then .error "Trello exige API key + token"
    else
      onReply rep (httpRefusal "credencial Trello inválida") fun body =>
        connectedAs (accountName "fullName" "username" body)
  else .error "provider inválido"

def tasksTest : SettingsM u.orgID Response :=
  if r.method ≠ "POST" then pure (fail 405 "method" "use POST")
  else guarded u "manage" do
    let (b, _) := Json.decodeFirst taskFields r.body {}
    if (taskSourceLabels b.provider).isNone then pure badProvider
    else pure (verdictVal (validateTaskSource b (r.reply 0)))

def tasksConnect : SettingsM u.orgID Response :=
  guarded u "manage" do
    if r.method = "DELETE" then
      let prov := Text.trimSpace (r.get "provider")
      if (taskSourceLabels prov).isNone then pure badProvider
      else disconnect u "DeleteTaskSource" "tasks" .tasks prov
    else if r.method ≠ "POST" then pure (fail 405 "method" "use POST/DELETE")
    else
      let (b, _) := Json.decodeFirst taskFields r.body {}
      if (taskSourceLabels b.provider).isNone then pure badProvider
      else
        match validateTaskSource b (r.reply 0) with
        | .error msg => pure (refusal msg)
        | .ok (who, _) => do
            let res ← DB.setTaskSource b.provider (accountLabel b who)
            stored u res "tasks" who b.provider

/-- The type and the label of an integration's provider. -/
def intProviders : String → Option (ConnectionType × String)
  | "cypress" => some (.ci, "Cypress Cloud")
  | "github_actions" => some (.ci, "GitHub Actions")
  | "gitlab_ci" => some (.ci, "GitLab CI")
  | "bitbucket_pipelines" => some (.ci, "Bitbucket Pipelines")
  | "sonarcloud" => some (.observability, "SonarCloud")
  | "sentry" => some (.observability, "Sentry")
  | "playwright" => some (.observability, "Playwright")
  | "confluence" => some (.docs, "Confluence")
  | "github_wiki" => some (.docs, "GitHub Wiki")
  | "notion" => some (.docs, "Notion")
  | _ => none

def sentryOrg (body : String) : String :=
  match Json.parseFirst body with
  | some (j, _) =>
      match (Json.toSlice (Json.toStruct [Json.stringField "slug" fun v x => { x with login := v }]) ({} : Account)
        j {}).1.toList with
      | o :: _ => firstNonEmpty [o.login, "Sentry"]
      | [] => "Sentry"
  | none => "Sentry"

def validateIntegration (b : Credential) (rep : Reply) : Verdict :=
  let tok := Text.trimSpace b.token
  if b.provider = "github_actions" ∨ b.provider = "github_wiki" then validateGitToken "github" "" rep
  else if b.provider = "gitlab_ci" then validateGitToken "gitlab" "" rep
  else if b.provider = "bitbucket_pipelines" then validateGitToken "bitbucket" (Text.trimSpace b.username) rep
  else if b.provider = "confluence" then
    let site := siteHost b.site
    if site = "" ∨ Text.trimSpace b.email = "" ∨ tok = "" then
      .error "Confluence exige site, e-mail e API token"
    else
      onReply rep (httpRefusal "credencial Confluence inválida") fun _ => .ok (site, "conectado a " ++ site)
  else if b.provider = "notion" then
    if tok = "" then .error "token vazio"
    else
      onReply rep (httpRefusal "token Notion inválido") fun body =>
        let who := firstNonEmpty [accountName "name" "name" body, "Notion"]
        .ok (who, "conectado (" ++ who ++ ")")
  else if b.provider = "cypress" then
    if tok = "" ∨ Text.trimSpace b.project = "" then .error "Cypress exige record key + project id"
    else .ok ("project " ++ Text.trimSpace b.project, "registrado (record key não é validada online)")
  else if b.provider = "playwright" then
    if tok = "" then .error "Playwright exige access token"
    else .ok ("Playwright", "registrado (token não é validado online)")
  else if b.provider = "sonarcloud" then
    if tok = "" then .error "token vazio"
    else
      onReply rep (httpRefusal "token SonarCloud inválido") fun body =>
        if (Json.decodeFirst [Json.boolField "valid" fun v _ => v] body false).1 then
          .ok ("SonarCloud", "token válido")
        else .error "token SonarCloud inválido"
  else if b.provider = "sentry" then
    if tok = "" then .error "token vazio"
    else
      onReply rep (httpRefusal "token Sentry inválido") fun body =>
        .ok (sentryOrg body, "conectado (" ++ sentryOrg body ++ ")")
  else .error "provider inválido"

def integrationTest : SettingsM u.orgID Response :=
  if r.method ≠ "POST" then pure (fail 405 "method" "use POST")
  else guarded u "manage" do
    let (b, _) := Json.decodeFirst intFields r.body {}
    if (intProviders b.provider).isNone then pure badProvider
    else pure (verdictVal (validateIntegration b (r.reply 0)))

def integrationConnect : SettingsM u.orgID Response :=
  guarded u "manage" do
    if r.method = "DELETE" then
      let prov := Text.trimSpace (r.get "provider")
      match intProviders prov with
      | none => pure badProvider
      | some (ctype, _) => disconnect u "DeleteTypedConnection" (PgEnum.text ctype) ctype prov
    else if r.method ≠ "POST" then pure (fail 405 "method" "use POST/DELETE")
    else
      let (b, _) := Json.decodeFirst intFields r.body {}
      match intProviders b.provider with
      | none => pure badProvider
      | some (ctype, label) =>
          match validateIntegration b (r.reply 0) with
          | .error msg => pure (refusal msg)
          | .ok (who, _) => do
              let res ← DB.setTypedConnection ctype b.provider (if who = "" then label else who)
              stored u res (PgEnum.text ctype) who b.provider

/-! ## Reuse -/

/-- How a family of providers appears for each target. -/
def familyProviders : String → Option (List (String × String))
  | "github" => some [("code", "github"), ("tasks", "github"), ("ci", "github_actions"), ("docs", "github_wiki")]
  | "gitlab" => some [("code", "gitlab"), ("tasks", "gitlab"), ("ci", "gitlab_ci")]
  | "bitbucket" => some [("code", "bitbucket"), ("tasks", "bitbucket"), ("ci", "bitbucket_pipelines")]
  | _ => none

structure ReuseBody where
  family : String := ""
  target : String := ""

/-- `none` is an identity without a token for code. -/
def reuseAs (target provider label : String) (all : List String) :
    SettingsM u.orgID (Option (Except DbErr Id)) :=
  if target = "code" then do
    let (tok, uname) ← DB.findProviderToken all
    if tok = "" then pure none
    else some <$> DB.setCodeProviderToken provider label tok uname "oauth"
  else if target = "tasks" then some <$> DB.setTaskSource provider label
  else if target = "ci" then some <$> DB.setTypedConnection .ci provider label
  else some <$> DB.setTypedConnection .docs provider label

def reuseConnection : SettingsM u.orgID Response :=
  if r.method ≠ "POST" then pure (fail 405 "method" "use POST")
  else guarded u "manage" do
    let (b, _) := Json.decodeFirst
      [Json.stringField "family" fun v b => { b with family := v },
        Json.stringField "target" fun v b => { b with target := v }] r.body ({} : ReuseBody)
    let fam := (familyProviders b.family).getD []
    match fam.find? fun q => decide (q.1 = b.target) with
    | none => pure (fail 400 "bad_request" "família ou destino inválido")
    | some (_, provider) => do
        let all := fam.map (·.2)
        let label ← DB.findConnectionLabelByProviders all
        if label = "" then pure (refusal ("nenhuma conexão " ++ b.family ++ " para reaproveitar"))
        else do
          match ← reuseAs u b.target provider label all with
          | none =>
              pure (refusal ("essa identidade não tem token p/ código — conecte o " ++ b.family ++
                " em Conexões → Código (Autorizar com GitHub) p/ listar e clonar repositórios"))
          | some res =>
              answer u res fun id => do
                recordAudit u "connection.reuse" "connection" id settings_auditLog
                pure (tested true [("who", .str label), ("provider", .str provider)])

/-! ## The GitHub flows -/

/-- A step of memory without a result. -/
def remember {B : Id} (f : HttpMemory → HttpMemory)
    (hf : ∀ m, (f m).win = m.win ∧ (f m).plan = m.plan := by exact fun _ => ⟨rfl, rfl⟩) : SettingsM B Unit :=
  OrgM.mem (fun _ m => (f m, ())) fun _ m => hf m

def setFlow {B : Id} (f : GhFlow) : SettingsM B Unit :=
  remember fun m => { m with ghFlows := Function.update m.ghFlows B (some f) }

structure PurposeBody where
  purpose : String := ""

def normalizePurpose (p : String) : String := if p = "tasks" ∨ p = "ci" ∨ p = "docs" then p else "code"

def purposeOf (r : Request) : String :=
  normalizePurpose (Json.decodeFirst [Json.stringField "purpose" fun v _ => PurposeBody.mk v] r.body {}).1.purpose

structure DeviceCode where
  deviceCode : String := ""
  userCode : String := ""
  verificationURI : String := ""
  expiresIn : Int := 0
  interval : Int := 0

def deviceCodeFields : List (Json.Field DeviceCode) :=
  [Json.stringField "device_code" fun v x => { x with deviceCode := v },
    Json.stringField "user_code" fun v x => { x with userCode := v },
    Json.stringField "verification_uri" fun v x => { x with verificationURI := v },
    Json.intField "expires_in" fun v x => { x with expiresIn := v },
    Json.intField "interval" fun v x => { x with interval := v }]

def githubDeviceStart : SettingsM u.orgID Response :=
  if r.method ≠ "POST" then pure (fail 405 "method" "use POST")
  else guarded u "manage" do
    let purpose := purposeOf r
    match r.reply 0 with
    | .failed msg => pure (fail 502 "unavailable" ("falha ao contatar GitHub: " ++ msg))
    | .answer _ body =>
        let dc := (Json.decodeFirst deviceCodeFields body {}).1
        if dc.deviceCode = "" then pure (fail 502 "unavailable" "GitHub não retornou device_code")
        else do
          let interval := if dc.interval < 1 then 5 else dc.interval
          let expiresIn := if dc.expiresIn < 1 then 900 else dc.expiresIn
          setFlow { userCode := dc.userCode, verifyURI := dc.verificationURI, status := "pending", purpose := purpose }
          let now ← OrgM.timeNow
          let poll : GhPoll :=
            { org := u.orgID, deviceCode := dc.deviceCode, purpose := purpose, deadline := now + expiresIn * second }
          remember fun m => { m with ghPolls := m.ghPolls ++ [poll] }
          pure (writeJSON 200 (.obj [("user_code", .str dc.userCode), ("verification_uri", .str dc.verificationURI),
            ("interval", .int interval), ("expires_in", .int expiresIn)]))

def githubDeviceStatus : SettingsM u.orgID Response :=
  guarded u "manage" do
    match ← OrgM.mem fun _ m => (m, m.ghFlows u.orgID) with
    | none => pure (fail 404 "not_found" "nenhum fluxo em andamento")
    | some f =>
        pure (writeJSON 200 (.obj [("status", .str f.status), ("login", .str f.login), ("error", .str f.errMsg),
          ("user_code", .str f.userCode), ("verification_uri", .str f.verifyURI)]))

def storeGitHubConn {B : Id} (purpose login token : String) : SettingsM B Unit := do
  let _ ← (if purpose = "tasks" then DB.setTaskSource "github" login
    else if purpose = "ci" then DB.setTypedConnection .ci "github_actions" login
    else if purpose = "docs" then DB.setTypedConnection .docs "github_wiki" login
    else DB.setCodeProviderToken "github" login token "" "oauth")

structure TokenBody where
  accessToken : String := ""
  error : String := ""

def tokenFields : List (Json.Field TokenBody) :=
  [Json.stringField "access_token" fun v x => { x with accessToken := v },
    Json.stringField "error" fun v x => { x with error := v }]

/-- `set` of `pollGitHubDevice`. -/
def setFlowStatus {B : Id} (status login errMsg : String) : SettingsM B Unit :=
  remember fun m =>
    let flow := (m.ghFlows B).map fun f => { f with status := status, login := login, errMsg := errMsg }
    { m with ghFlows := Function.update m.ghFlows B flow }

/-- One round of `pollGitHubDevice`; the result says that the goroutine ended. -/
def pollGitHubDevice (p : GhPoll) (token account : Reply) : SettingsM p.org Bool := do
  let now ← OrgM.timeNow
  if p.deadline ≤ now then do
    setFlowStatus "expired" "" "tempo esgotado — tente de novo"
    pure true
  else
    match token with
    | .failed _ => pure false
    | .answer _ body => do
        let tok := (Json.decodeFirst tokenFields body {}).1
        if tok.accessToken ≠ "" then do
          match validateGitToken "github" "" account with
          | .ok (login, _) => do
              storeGitHubConn p.purpose login tok.accessToken
              setFlowStatus "authorized" login ""
          | .error _ => setFlowStatus "error" "" "token recebido mas inválido"
          pure true
        else if tok.error = "expired_token" then do
          setFlowStatus "expired" "" "código expirou — tente de novo"
          pure true
        else if tok.error = "access_denied" then do
          setFlowStatus "denied" "" "autorização negada"
          pure true
        else pure false

def trimSlashes (s : String) : String :=
  String.ofList (Text.trimLeft (fun c => decide (c = '/')) s.toList.reverse).reverse

def ghCallbackURL : String := trimSlashes a.publicURL ++ "/api/v1/connections/git/github/oauth/callback"

def isUnreserved (c : Char) : Bool :=
  ('a' ≤ c && c ≤ 'z') || ('A' ≤ c && c ≤ 'Z') || ('0' ≤ c && c ≤ '9') || ['-', '_', '.', '~'].contains c

def percent (b : UInt8) : List Char :=
  let digit := fun n : Nat => if n < 10 then Char.ofNat (48 + n) else Char.ofNat (55 + n)
  ['%', digit (b.toNat / 16), digit (b.toNat % 16)]

/-- `url.QueryEscape`. -/
def queryEscape (s : String) : String :=
  String.ofList (s.toList.flatMap fun c =>
    if isUnreserved c then [c]
    else if c = ' ' then ['+']
    else (String.singleton c).toUTF8.toList.flatMap percent)

def githubOAuthStart : SettingsM u.orgID Response :=
  if r.method ≠ "POST" then pure (fail 405 "method" "use POST")
  else guarded u "manage" do
    if a.gitHubOAuthClientSecret = "" then
      pure (fail 501 "not_configured"
        "web-flow indisponível: configure GITHUB_OAUTH_CLIENT_ID/SECRET de um OAuth App")
    else do
      let purpose := purposeOf r
      let state ← OrgM.newNonce
      let now ← OrgM.timeNow
      remember fun m =>
        let live := fun k => (m.ghStates k).bind fun s => if now > s.exp then none else some s
        let new : GhState := { org := u.orgID, purpose := purpose, exp := now + 600 * second }
        { m with ghStates := Function.update live state (some new) }
      setFlow { status := "pending", purpose := purpose }
      pure (writeJSON 200 (.obj [("url", .str ("https://github.com/login/oauth/authorize?client_id=" ++
        queryEscape a.gitHubOAuthClientID ++ "&redirect_uri=" ++ queryEscape a.ghCallbackURL ++
        "&scope=repo+workflow&state=" ++ queryEscape state))]))

def back (status : String) : Response := ⟨302, .redirect (trimSlashes a.publicURL ++ "/config?github=" ++ status)⟩

/-- The flow of an org ends with an error. -/
def failFlow {B : Id} (purpose msg : String) : SettingsM B Response := do
  setFlow { status := "error", purpose := purpose, errMsg := msg }
  pure (a.back "error")

/-- The callback once its state is known: it acts for the org that started the flow. -/
def finishOAuth (st : GhState) : SettingsM st.org Response :=
  match r.reply 0 with
  | .failed msg => a.failFlow st.purpose ("falha ao contatar GitHub: " ++ msg)
  | .answer _ body =>
      let tok := (Json.decodeFirst tokenFields body {}).1
      if tok.accessToken = "" then a.failFlow st.purpose ("GitHub não retornou token: " ++ tok.error)
      else
        match validateGitToken "github" "" (r.reply 1) with
        | .error _ => a.failFlow st.purpose "token recebido mas inválido"
        | .ok (login, _) => do
            storeGitHubConn st.purpose login tok.accessToken
            setFlow { status := "authorized", login := login, purpose := st.purpose }
            pure (a.back "ok")

/-- The state of a callback is taken out of memory, whatever it is worth. -/
def takeState (state : String) (w : World) : World × Option GhState :=
  ({ w with http := { w.http with ghStates := Function.update w.http.ghStates state none } }, w.http.ghStates state)

def githubOAuthCallback : Cmd Response :=
  if r.get "error" ≠ "" then .done (a.back "denied")
  else
    .act (takeState (r.get "state")) fun st => do
      let now ← timeNow
      match st with
      | none => pure (a.back "error")
      | some st =>
          if r.get "code" = "" ∨ now > st.exp then pure (a.back "error") else (a.finishOAuth r st).cmd a.server.rls

end API

end Apifor
