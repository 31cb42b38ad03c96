import Apifor.Db.Tx
import Apifor.Db.Lease

/-!
# The settings of an org

The functions of `db.go` behind the REST configuration screens: members, workspaces, repositories,
connections, workers, routines, memories and documents. Each writes in a transaction of the caller's
org. None of them touches a task, a lease or the plan, which `settings` states as a footprint.
-/

namespace Apifor

/-- The tables that the configuration screens write. -/
def settings : Tbl → Bool
  | .appUser | .membership | .workspace | .poolConfig | .repository | .pinnedWorker | .routine | .secretRef
  | .connection | .memory | .kbDocument | .auditLog | .notification => true
  | _ => false

theorem settings_auditLog : settings .auditLog = true := rfl

abbrev View := (t : Tbl) → List (Row t)

/-- A program of org `B` that writes settings only. -/
abbrev SettingsM (B : Id) := OrgM settings B

variable {B : Id}

namespace DB

/-! ## Audit and notifications -/

def writeAudit {T : Tbl → Bool} (actorID action targetType targetID : String)
    (ht : T .auditLog = true := by rfl) : OrgM T B Unit := do
  let id ← OrgM.newID "aud"
  let _ ← OrgM.insertOwn "WriteAudit" .auditLog
    (fun now => { id := id, orgId := B, actorType := .user, actorId := some actorID, action := action,
                  targetType := some targetType, targetId := some targetID, occurredAt := now })
    (fun A _ _ h => by simpa [owns] using Ne.symm h) ht

def markNotificationsRead : SettingsM B (Except DbErr Nat) :=
  .tx "MarkNotificationsRead" <|
    .update .notification (fun n => decide (n.orgId = B) && !n.read) fun n => { n with read := true }

/-! ## Pool and pinned workers -/

structure PoolCfg where
  mode : String := ""
  parallelWorkers : Int := 0
  timeoutMin : Int := 0
  retries : Int := 0
  paused : Bool := false
  autoMerge : Bool := false
  isolamento : Bool := false
  deriving DecidableEq

/-- `GetPoolConfig`; the fallback of `FirstWorkspace` is never empty. -/
def getPoolConfig : SettingsM B (Except DbErr PoolCfg) := do
  let wsp ← OrgM.ofRead (firstWorkspace B) (readOnly_firstWorkspace B)
  if wsp = "" then pure (.error (.other "sem workspace"))
  else OrgM.query "GetPoolConfig" fun _ s =>
    row ((poolRow s wsp).map fun c =>
      { parallelWorkers := c.parallelWorkers, timeoutMin := c.timeoutMin.getD 15, retries := c.retries,
        paused := c.behavior.paused.getD false, autoMerge := c.behavior.autoMerge.getD false,
        isolamento := c.behavior.isolamento.getD true, mode := modeText c })

def updatePoolConfig (c : PoolCfg) : SettingsM B (Except DbErr Nat) := do
  let wsp ← OrgM.ofRead (firstWorkspace B) (readOnly_firstWorkspace B)
  let mode := if c.mode ≠ "pinned" then "pool" else c.mode
  .tx "UpdatePoolConfig" <|
    .update .poolConfig (fun p => decide (p.workspaceId = wsp)) fun p =>
      { p with
        parallelWorkers := c.parallelWorkers, timeoutMin := some c.timeoutMin, retries := c.retries,
        behavior := { paused := some c.paused, autoMerge := some c.autoMerge, isolamento := some c.isolamento,
                      mode := some mode } }

def createPinnedWorker (focus repoID : String) (concurrency : Int) (st : PinnedSettings) :
    SettingsM B (Except DbErr Id) := do
  let wsp ← OrgM.ofRead (firstWorkspace B) (readOnly_firstWorkspace B)
  let id ← OrgM.newID "pwk"
  .tx "CreatePinnedWorker" do
    Tx.insert .pinnedWorker
      { id := id, orgId := B, workspaceId := wsp, repoId := nullIfEmpty repoID, focus := some focus,
        concurrency := if concurrency < 1 then 1 else concurrency, settings := st }
    pure id

/-- An update that must find its row. -/
def updateFound (t : Tbl) (p : Row t → Bool) (f : Row t → Row t) (hf : ∀ r, key t (f r) = key t r)
    (ht : settings t = true) (missing : String) : Tx settings B Unit := do
  let n ← Tx.update t p f hf ht
  if n = 0 then Tx.fail (.other missing) else pure ()

def updatePinnedWorker (id focus repoID : String) (concurrency : Int) (st : PinnedSettings) :
    SettingsM B (Except DbErr Unit) :=
  .tx "UpdatePinnedWorker" <|
    updateFound .pinnedWorker (fun p => decide (p.id = id ∧ p.orgId = B))
      (fun p =>
        { p with
          focus := some focus, repoId := nullIfEmpty repoID,
          concurrency := if concurrency < 1 then 1 else concurrency, settings := st })
      (fun _ => rfl) rfl "worker não encontrado"

def setAllPinnedEnabled (enabled : Bool) : SettingsM B (Except DbErr Nat) :=
  .tx "SetAllPinnedEnabled" <|
    .update .pinnedWorker (fun p => decide (p.orgId = B)) fun p =>
      { p with settings := { p.settings with enabled := some enabled } }

def deletePinnedWorker (id : String) : SettingsM B (Except DbErr Nat) :=
  .tx "DeletePinnedWorker" <| .delete .pinnedWorker fun p => decide (p.id = id ∧ p.orgId = B)

/-! ## Connections -/

/-- The transaction behind `SetAIEngine`, `SetCodeProviderToken`, `SetTaskSource` and
`SetTypedConnection`: the connections that `old` selects make room for a new one. -/
def replaceConnection (name : String) (old : Connection → Bool) (type : ConnectionType) (provider label : String)
    (st : ConnectionSettings) : SettingsM B (Except DbErr Id) := do
  let id ← OrgM.newID "con"
  .tx name do
    let _ ← Tx.delete .connection old
    let now ← Tx.now
    Tx.insert .connection
      { id := id, orgId := B, type := type, provider := provider, label := some label, status := .ok,
        settings := st, createdAt := now }
    pure id

/-- The connections of `B` of one type and provider. -/
def isSlot (B : Id) (type : ConnectionType) (provider : String) (c : Connection) : Bool :=
  decide (c.orgId = B ∧ c.type = type ∧ c.provider = provider)

def setAIEngine (kind provider label : String) : SettingsM B (Except DbErr Id) :=
  replaceConnection "SetAIEngine" (fun c => decide (c.orgId = B ∧ c.type = .ai_engine)) .ai_engine provider label
    { kind := some kind }

def setCodeProviderToken (provider label token username kind : String) : SettingsM B (Except DbErr Id) :=
  replaceConnection "SetCodeProviderToken" (isSlot B .code provider) .code provider label
    { token := some token, username := some username, kind := some kind }

def setTaskSource (provider label : String) : SettingsM B (Except DbErr Id) :=
  replaceConnection "SetTaskSource" (isSlot B .tasks provider) .tasks provider label {}

def setTypedConnection (ctype : ConnectionType) (provider label : String) : SettingsM B (Except DbErr Id) :=
  replaceConnection "SetTypedConnection" (isSlot B ctype provider) ctype provider label {}

/-- `DeleteCodeProvider`, `DeleteTaskSource` and `DeleteTypedConnection`. -/
def deleteConnection (name : String) (type : ConnectionType) (provider : String) : SettingsM B (Except DbErr Nat) :=
  .tx name <| .delete .connection (isSlot B type provider)

/-- `none` is `pgx.ErrNoRows`. -/
def codeAuth (s : Store) (org provider : String) : Option (String × String) :=
  ((s .connection).rows.find? (isSlot org .code provider)).map fun c =>
    (c.settings.token.getD "", c.settings.username.getD "")

def getCodeAuth (provider : String) : SettingsM B (Except DbErr (String × String)) :=
  OrgM.query "GetCodeAuth" fun _ s => row (codeAuth s B provider)

/-- The token and user name of the newest connection of the given providers that has a token. -/
def providerToken (s : Store) (org : Id) (providers : List String) : String × String :=
  (((s .connection).rows.find? fun c =>
    decide (c.orgId = org) && providers.contains c.provider && decide (c.settings.token.getD "" ≠ "")).map
      fun c => (c.settings.token.getD "", c.settings.username.getD "")).getD ("", "")

def findProviderToken (providers : List String) : SettingsM B (String × String) := do
  match ← OrgM.query "FindProviderToken" fun _ s => .ok (providerToken s B providers) with
  | .ok r => pure r
  | .error _ => pure ("", "")

def connectionLabel (s : Store) (org : Id) (providers : List String) : Option String :=
  ((s .connection).rows.find? fun c =>
    decide (c.orgId = org) && providers.contains c.provider && decide (c.label.getD "" ≠ "")).map
      fun c => c.label.getD ""

def findConnectionLabelByProviders (providers : List String) : SettingsM B String := do
  match ← OrgM.query "FindConnectionLabelByProviders" fun _ s => row (connectionLabel s B providers) with
  | .ok r => pure r
  | .error _ => pure ""

/-! ## Memories, documents, secrets -/

def createMemory (wspID scope repoID instruction : String) (source : MemorySource) : SettingsM B (Except DbErr Id) := do
  let id ← OrgM.newID "mem"
  let ofRepo := decide (scope = "repo" ∧ repoID ≠ "")
  .tx "CreateMemory" do
    Tx.insert .memory
      { id := id, orgId := B, workspaceId := wspID, scope := if ofRepo then .repo else .global,
        repoId := if ofRepo then some repoID else none, instruction := instruction, source := source }
    pure id

def deleteMemory (id : String) : SettingsM B (Except DbErr Nat) :=
  .tx "DeleteMemory" <| .delete .memory fun m => decide (m.id = id ∧ m.orgId = B)

def createKBDoc (wspID name category fileRef : String) : SettingsM B (Except DbErr Id) := do
  let id ← OrgM.newID "kb"
  .tx "CreateKBDoc" do
    Tx.insert .kbDocument
      { id := id, orgId := B, workspaceId := wspID, name := name, category := (PgEnum.ofText? category).getD .doc,
        fileRef := some fileRef, indexed := true }
    pure id

def createSecretRef (name type fingerprint : String) : SettingsM B (Except DbErr Id) := do
  let id ← OrgM.newID "sec"
  .tx "CreateSecretRef" do
    Tx.insert .secretRef
      { id := id, orgId := B, name := name, type := some type, fingerprint := some fingerprint }
    pure id

/-! ## Routines -/

/-- `time.Duration(n) * time.Second`, on 64 bits. -/
def durationOf (n : Int) : Int := (n * second + 2 ^ 63) % 2 ^ 64 - 2 ^ 63

def createRoutine (wspID name triggerType : String) (intervalSec : Int) (action : RoutineAction) :
    SettingsM B (Except DbErr Id) := do
  let id ← OrgM.newID "rtn"
  let now ← OrgM.timeNow
  let next := if triggerType = "schedule" ∧ intervalSec > 0 then some (now + durationOf intervalSec) else none
  .tx "CreateRoutine" do
    match (PgEnum.ofText? triggerType : Option RoutineTrigger) with
    | none => Tx.fail .cast
    | some trigger => do
        Tx.insert .routine
          { id := id, orgId := B, workspaceId := wspID, name := name, triggerType := trigger,
            intervalSec := intervalSec, action := action, enabled := true, nextRunAt := next }
        pure id

/-- The interval's cast to `int` may fail: its error is dropped, and the transaction with it. -/
def setRoutineEnabled (routineID : String) (enabled : Bool) : SettingsM B (Except DbErr Nat) := do
  let now ← OrgM.timeNow
  .tx "SetRoutineEnabled" do
    let rows ← Tx.rows .routine
    let interval := if enabled then (rows.find? fun r => decide (r.id = routineID)).map (·.intervalSec) else none
    if (interval.map int4).getD true then do
      let next := interval.bind fun n => if n > 0 then some (now + n * second) else none
      Tx.update .routine (fun r => decide (r.id = routineID ∧ r.orgId = B)) fun r =>
        { r with enabled := enabled, nextRunAt := next }
    else Tx.fail .outOfRange

def deleteRoutine (routineID : String) : SettingsM B (Except DbErr Nat) :=
  .tx "DeleteRoutine" <| .delete .routine fun r => decide (r.id = routineID ∧ r.orgId = B)

/-! ## Members, workspaces, repositories -/

def addMember (email name hash : String) (role : PermissionTier) : SettingsM B (Except DbErr Id) := do
  let newUser ← OrgM.newID "usr"
  let mbr ← OrgM.newID "mbr"
  .tx "AddMember" do
    let users ← Tx.rows .appUser
    let userID ← (match users.find? fun u => sameEmail u.email email with
      | some u => pure u.id
      | none => do
          Tx.insert .appUser
            { id := newUser, email := email, name := some name, passwordHash := some hash, createdAt := ← Tx.now }
          pure newUser)
    let n ← Tx.update .membership (fun m => decide (m.orgId = B ∧ m.userId = userID))
      fun m => { m with permissionTier := role, status := .active }
    if n = 0 then
      Tx.insert .membership { id := mbr, orgId := B, userId := userID, permissionTier := role, status := .active }
    pure userID

def removeMember (membershipID : String) : SettingsM B (Except DbErr Nat) :=
  .tx "RemoveMember" <|
    .delete .membership fun m => decide (m.id = membershipID ∧ m.orgId = B ∧ m.permissionTier ≠ .owner)

/-- `strings.ToUpper(name[:1])`; the first byte of a longer character becomes U+FFFD. -/
def initialOf (name : String) : String :=
  match name.toList with
  | [] => "W"
  | c :: _ =>
      if c.toNat < 128 then String.ofList [if 'a' ≤ c ∧ c ≤ 'z' then Char.ofNat (c.toNat - 32) else c]
      else String.ofList [Char.ofNat 0xfffd]

def createWorkspace (name : String) : SettingsM B (Except DbErr Id) := do
  let id ← OrgM.newID "wsp"
  let pcfg ← OrgM.newID "pcfg"
  .tx "CreateWorkspace" do
    Tx.insert .workspace { id := id, orgId := B, name := name, initial := some (initialOf name) }
    Tx.insert .poolConfig { id := pcfg, workspaceId := id, parallelWorkers := 1, retries := 2 }
    pure id

def createRepoFrom (wspID name cloneURL defaultBranch provider localDir : String) : SettingsM B (Except DbErr Id) := do
  let id ← OrgM.newID "repo"
  let provider := if provider = "" then "github" else provider
  .tx "CreateRepoFrom" do
    let cons ← Tx.rows .connection
    Tx.insert .repository
      { id := id, orgId := B, workspaceId := wspID, name := name, provider := provider,
        defaultBranch := if defaultBranch = "" then "main" else defaultBranch,
        connectionId := (cons.find? (isSlot B .code provider)).map (·.id), cloneUrl := some cloneURL,
        localDir := some localDir }
    pure id

def updateRepo (repoID name defaultBranch : String) : SettingsM B (Except DbErr Unit) :=
  .tx "UpdateRepo" <|
    updateFound .repository (fun r => decide (r.orgId = B ∧ r.id = repoID))
      (fun r => { r with name := name, defaultBranch := defaultBranch }) (fun _ => rfl) rfl
      "repositório não encontrado"

def deleteRepo (repoID : String) : SettingsM B (Except DbErr Unit) :=
  .tx "DeleteRepo" do
    let n ← Tx.delete .repository (fun r => decide (r.orgId = B ∧ r.id = repoID)) rfl fun _ => rfl
    if n = 0 then Tx.fail (.other "repositório não encontrado") else pure ()

/-! ## Interventions -/

/-- The tables that an answer to an intervention writes. -/
def reviews : Tbl → Bool
  | .task | .pullRequest => true
  | _ => false

def setHumanReview (taskID : Id) (status : ReviewStatus) : Tx reviews B Unit := do
  let prs ← Tx.rows .pullRequest
  match prs.find? fun p => decide (p.taskId = some taskID) with
  | some p =>
      if p.id = "" then pure ()
      else do
        let _ ← Tx.update .pullRequest (fun q => decide (q.id = p.id)) fun q => { q with humanReviewStatus := status }
        pure ()
  | none => pure ()

/-- The body of the transaction behind `ApproveHumanReview` and `RejectHumanReview`. -/
def answerReviewTx (taskID : Id) (status : ReviewStatus) (f : Task → Task) (hf : ∀ t, (f t).id = t.id) :
    Tx reviews B Unit := do
  setHumanReview taskID status
  let _ ← Tx.update .task (fun t => decide (t.id = taskID)) f (Store.key_task hf)
  pure ()

def answerReview (name : String) (taskID : Id) (status : ReviewStatus) (f : Task → Task)
    (hf : ∀ t, (f t).id = t.id) : OrgM reviews B (Except DbErr Unit) := .tx name (answerReviewTx taskID status f hf)

def approveHumanReview (taskID : Id) : OrgM reviews B (Except DbErr Unit) :=
  answerReview "ApproveHumanReview" taskID .approved (fun t => { t with status := .running, blockedReason := none })
    fun _ => rfl

def rejectHumanReview (taskID : Id) (note : String) : OrgM reviews B (Except DbErr Unit) :=
  answerReview "RejectHumanReview" taskID .changes
    (fun t => { t with status := .failed, blockedReason := some ("revisão humana reprovou: " ++ note) }) fun _ => rfl

/-- The store once the answer's pull request is set: the latest one that the scope shows. -/
def reviewed (sc : Scope) (s : Store) (taskID : Id) (status : ReviewStatus) : Store :=
  match (select sc s .pullRequest).find? fun p => decide (p.taskId = some taskID) with
  | some p =>
      if p.id = "" then s
      else
        s.set .pullRequest ((s .pullRequest).update (fun q => sc.writes s .pullRequest q && decide (q.id = p.id))
          (fun q => { q with humanReviewStatus := status }) fun _ => rfl)
  | none => s

/-- The store after an answer. -/
def answered (sc : Scope) (s : Store) (taskID : Id) (status : ReviewStatus) (f : Task → Task)
    (hf : ∀ t, (f t).id = t.id) : Store :=
  let s' := reviewed sc s taskID status
  s'.set .task ((s' .task).update (fun t => sc.writes s' .task t && decide (t.id = taskID)) f (Store.key_task hf))

theorem run_setHumanReview {sc : Scope} {now : Time} (s : Store) (taskID : Id) (status : ReviewStatus) :
    (setHumanReview (B := B) taskID status).run sc now s = .ok (reviewed sc s taskID status, ()) := by
  simp only [setHumanReview, Tx.run_bind, Tx.run_rows, reviewed]
  cases (select sc s .pullRequest).find? fun p => decide (p.taskId = some taskID) with
  | none => rfl
  | some p =>
      dsimp only
      split
      · rfl
      · have hu := update_eq sc .pullRequest (fun q => decide (q.id = p.id))
          (fun q => { q with humanReviewStatus := status }) s (fun _ => rfl) (fun _ _ h => h)
          (fun _ => rfl) fun r h => by cases sc <;> exact h
        simp only [Tx.run_bind, Tx.update, hu]
        rfl

theorem run_answerReview {rls : Bool} {name : String} {taskID : Id} {status : ReviewStatus} {f : Task → Task}
    {hf : ∀ t, (f t).id = t.id} (hr : ∀ t, refs .task (f t) = refs .task t) (ho : ∀ t, (f t).orgId = t.orgId)
    (w : World) :
    ((answerReview (B := B) name taskID status f hf).cmd rls).run w =
      ({ w with db := answered (withOrg rls B) w.db taskID status f hf }, some (.ok ())) := by
  have hbody : ∀ sc, (answerReviewTx (B := B) taskID status f hf).run sc w.now w.db =
      .ok (answered sc w.db taskID status f hf, ()) := by
    intro sc
    have hw : ∀ s t, sc.writes s .task t = true → sc.writes s .task (f t) = true := by
      intro s t h
      cases sc with
      | all => rfl
      | org o => simpa [Scope.writes, owns, ho] using h
    have hu := fun s => update_eq sc .task (fun t => decide (t.id = taskID)) f s (Store.key_task hf)
      (fun t q hq => hr t ▸ hq) (fun _ => rfl) (hw s)
    simp only [answerReviewTx, Tx.run_bind, run_setHumanReview, Tx.update, hu]
    rfl
  have hexec : (exec name fun now s =>
      (answerReviewTx (B := B) taskID status f hf).run (withOrg rls B) now s).run w =
        ({ w with db := answered (withOrg rls B) w.db taskID status f hf }, some (.ok ())) := by
    rw [run_exec, hbody]
  exact hexec

/-! ## The plan and the devices -/

def planTables : Tbl → Bool
  | .org | .subscription | .auditLog => true
  | _ => false

def setPlan (plan : String) : OrgM planTables B (Except DbErr Unit) := do
  let id ← OrgM.newID "sub"
  .tx "SetPlan" do
    match (PgEnum.ofText? plan : Option OrgPlan) with
    | none => Tx.fail .cast
    | some p => do
        let _ ← Tx.update .org (fun o => decide (o.id = B)) (fun o => { o with plan := p }) (key_plan p)
        let n ← Tx.update .subscription (fun b => decide (b.orgId = B)) fun b => { b with plan := p, status := .active }
        if n = 0 then Tx.insert .subscription { id := id, orgId := B, plan := p, status := .active }

def deviceTables : Tbl → Bool
  | .device | .auditLog => true
  | _ => false

def revokeDevice (deviceID : Id) : OrgM deviceTables B (Except DbErr Nat) :=
  .tx "RevokeDevice" do
    let now ← Tx.now
    Tx.update .device (fun d => decide (d.id = deviceID ∧ d.orgId = B)) fun d => { d with revokedAt := some now }

/-! ## Onboarding -/

def onboarding : Tbl → Bool
  | .appUser | .org | .membership | .workspace | .poolConfig => true
  | _ => false

/-- The transaction of `RegisterOrg`: the org that is being created is the current one. -/
def createOrg (userID wsp mbr pcfg email name hash orgName : String) : OrgM onboarding B (Except DbErr Unit) :=
  .tx "RegisterOrg" do
    let now ← Tx.now
    Tx.insert .appUser
      { id := userID, email := email, name := some name, passwordHash := some hash, createdAt := now }
    Tx.insert .org { id := B, name := orgName, ownerUserId := userID, plan := .free, createdAt := now }
    Tx.insert .membership { id := mbr, orgId := B, userId := userID, permissionTier := .owner, status := .active }
    Tx.insert .workspace { id := wsp, orgId := B, name := "Principal", initial := some "P" }
    Tx.insert .poolConfig { id := pcfg, workspaceId := wsp, parallelWorkers := 1, retries := 2 }

def registerOrg (rls : Bool) (email name hash orgName : String) : Cmd (Except DbErr (Id × Id)) := do
  let userID ← newID "usr"
  let orgID ← newID "org"
  let wsp ← newID "wsp"
  let mbr ← newID "mbr"
  let pcfg ← newID "pcfg"
  match ← (createOrg (B := orgID) userID wsp mbr pcfg email name hash orgName).cmd rls with
  | .ok () => pure (.ok (userID, orgID))
  | .error e => pure (.error e)

end DB

end Apifor
