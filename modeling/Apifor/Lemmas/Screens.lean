import Apifor.Lemmas.Handlers
import Apifor.Http.Routes
import Mathlib.Order.Defs.Unbundled

/-!
# What the screens write

A screen of the settings writes a few tables, and those only for a caller whose role has the
capability it asks for. Both facts are stated over any preorder of stores that the statements on these
tables keep.
-/

namespace Apifor

/-- A relation between stores that every statement on the table keeps. -/
structure Lets (E : Store → Store → Prop) (t : Tbl) : Prop where
  insert : ∀ {sc : Scope} {x : Row t} {s s' : Store}, Apifor.insert sc t x s = .ok s' → E s s'
  update : ∀ {sc : Scope} {p : Row t → Bool} {f : Row t → Row t} {hf : ∀ x, key t (f x) = key t x} {s s' : Store}
    {n : Nat}, Apifor.update sc t p f s hf = .ok (s', n) → E s s'
  delete : ∀ {sc : Scope} {p : Row t → Bool} {s : Store}, E s (Apifor.delete sc t p s).1

instance {W : Tbl → Bool} : IsPreorder Store (Touches W) where
  refl := Touches.refl
  trans _ _ _ := Touches.trans

theorem Lets.touches {W : Tbl → Bool} {t : Tbl} (ht : W t = true) (hm : t = .repository → W .memory = true) :
    Lets (Touches W) t := ⟨Touches.insert ht, Touches.update ht, Touches.delete ht hm⟩

/-- The store changed by `E`; apart from it, only memory did. -/
structure Changes (E : Store → Store → Prop) (w w' : World) : Prop where
  db : E w.db w'.db
  now : w'.now = w.now
  hub : w'.hub = w.hub
  streams : w'.streams = w.streams
  pushed : w'.pushed = w.pushed
  testsSkipped : w'.testsSkipped = w.testsSkipped

variable {E : Store → Store → Prop} [IsPreorder Store E] {T : Tbl → Bool} {B : Id} {α β : Type}

namespace Changes

theorem refl (w : World) : Changes E w w := ⟨refl_of E _, rfl, rfl, rfl, rfl, rfl⟩

theorem trans {w w' w'' : World} (h : Changes E w w') (h' : Changes E w' w'') : Changes E w w'' :=
  ⟨trans_of E h.db h'.db, h'.now.trans h.now, h'.hub.trans h.hub, h'.streams.trans h.streams,
    h'.pushed.trans h.pushed, h'.testsSkipped.trans h.testsSkipped⟩

end Changes

/-! ## Transactions -/

namespace Tx

/-- Every run of the transaction changes the store by `E`. -/
def Each (E : Store → Store → Prop) (x : Tx T B α) : Prop :=
  ∀ sc now s s' a, x.run sc now s = .ok (s', a) → E s s'

namespace Each

theorem pure (a : α) : Each E (Pure.pure a : Tx T B α) := fun _ _ s _ _ h => by cases h; exact refl_of E s

omit [IsPreorder Store E] in
theorem fail (e : DbErr) : Each E (Tx.fail e : Tx T B α) := fun _ _ _ _ _ h => by cases h

theorem now : Each E (Tx.now : Tx T B Time) := fun _ _ s _ _ h => by cases h; exact refl_of E s

theorem rows (t : Tbl) : Each E (Tx.rows t : Tx T B _) := fun _ _ s _ _ h => by cases h; exact refl_of E s

theorem bind {x : Tx T B α} {k : α → Tx T B β} (hx : Each E x) (hk : ∀ a, Each E (k a)) : Each E (x >>= k) :=
  fun _ _ _ _ _ h => by
    obtain ⟨p, h1, h2⟩ := Tx.bind_ok h
    exact trans_of E (hx _ _ _ _ _ h1) (hk _ _ _ _ _ _ h2)

omit [IsPreorder Store E] in
theorem ite {c : Prop} [Decidable c] {x y : Tx T B α} (hx : Each E x) (hy : Each E y) :
    Each E (if c then x else y) := by
  split
  · exact hx
  · exact hy

omit [IsPreorder Store E] in
theorem insert {t : Tbl} {x : Row t} {ht : T t = true} (h : Lets E t) : Each E (Tx.insert (B := B) t x ht) :=
  fun _ _ _ _ _ hx => h.insert (Tx.insert_ok hx)

omit [IsPreorder Store E] in
theorem update {t : Tbl} {p : Row t → Bool} {f : Row t → Row t} {hf : ∀ x, key t (f x) = key t x} {ht : T t = true}
    (h : Lets E t) : Each E (Tx.update (B := B) t p f hf ht) := fun _ _ _ _ _ hx => h.update hx

omit [IsPreorder Store E] in
theorem delete {t : Tbl} {p : Row t → Bool} {ht : T t = true} {hm : t = .repository → T .memory = true}
    (h : Lets E t) : Each E (Tx.delete (B := B) t p ht hm) := fun _ _ _ _ _ hx => by cases hx; exact h.delete

end Each

end Tx

/-! ## Programs -/

namespace OrgM

/-- Every step of the program changes the store by `E`, or memory. -/
def Each (E : Store → Store → Prop) (x : OrgM T B α) : Prop := ∀ rls, Prog.Each (Changes E) (x.cmd rls)

namespace Each

omit [IsPreorder Store E] in
theorem pure (a : α) : Each E (Pure.pure a : OrgM T B α) := fun _ => .done a

omit [IsPreorder Store E] in
theorem bind {x : OrgM T B α} {k : α → OrgM T B β} (hx : Each E x) (hk : ∀ a, Each E (k a)) : Each E (x >>= k) :=
  fun rls => Prog.Each.bind (hx rls) fun a => hk a rls

omit [IsPreorder Store E] in
theorem ite {c : Prop} [Decidable c] {x y : OrgM T B α} (hx : Each E x) (hy : Each E y) :
    Each E (if c then x else y) := by
  split
  · exact hx
  · exact hy

omit [IsPreorder Store E] in
theorem map {f : α → β} {x : OrgM T B α} (hx : Each E x) : Each E (f <$> x) := bind hx fun a => .pure (f a)

omit [IsPreorder Store E] in
theorem tx {name : String} {x : Tx T B α} (hx : Tx.Each E x) : Each E (OrgM.tx name x) := fun _ =>
  each_exec fun _ _ _ h => ⟨hx _ _ _ _ _ h, rfl, rfl, rfl, rfl, rfl⟩

theorem readOnly {c : Cmd α} (hc : DB.ReadOnly c) : Each E (OrgM.ofRead c hc : OrgM T B α) := fun _ =>
  hc.steps.mono fun w _ heq => heq ▸ Changes.refl w

theorem query {name : String} {f : Time → Store → Except DbErr α} : Each E (OrgM.query name f : OrgM T B _) :=
  fun _ => (DB.ReadOnly.query _ _).steps.mono fun w _ heq => heq ▸ Changes.refl w

theorem view {name : String} {f : Time → View → Except DbErr α} : Each E (OrgM.view name f : OrgM T B _) :=
  fun rls => (DB.ReadOnly.query name fun now s => f now (select (withOrg rls B) s)).steps.mono fun w _ heq =>
    heq ▸ Changes.refl w

theorem mem {f : Time → HttpMemory → HttpMemory × α} {hf} : Each E (OrgM.mem f hf : OrgM T B α) := fun _ =>
  .lift fun _ => ⟨refl_of E _, rfl, rfl, rfl, rfl, rfl⟩

theorem newID (pre : String) : Each E (OrgM.newID pre : OrgM T B Id) := fun _ =>
  .lift fun _ => ⟨refl_of E _, rfl, rfl, rfl, rfl, rfl⟩

theorem newNonce : Each E (OrgM.newNonce : OrgM T B String) := fun _ =>
  .lift fun _ => ⟨refl_of E _, rfl, rfl, rfl, rfl, rfl⟩

theorem timeNow : Each E (OrgM.timeNow : OrgM T B Time) := fun _ => .lift fun w => Changes.refl w

omit [IsPreorder Store E] in
theorem insertOwn {name : String} {t : Tbl} {x : Time → Row t}
    {hown : ∀ A s now, A ≠ B → owns A s t (x now) = false} {ht : T t = true} (h : Lets E t) :
    Each E (OrgM.insertOwn name t x hown ht) := fun _ => by
  refine (each_exec fun w s' _ hs => ?_ : Prog.Each (Changes E) (DB.insertRow name t x))
  obtain ⟨s, hi, heq⟩ := map_eq_ok hs
  cases heq
  exact ⟨h.insert hi, rfl, rfl, rfl, rfl, rfl⟩

/-- What every step of a program of the org changes, its run changes. -/
theorem run {x : OrgM T B α} (hx : Each E x) (rls : Bool) (w : World) : Changes E w ((x.cmd rls).run w).1 :=
  Prog.Each.keeps Changes.refl (fun _ _ _ => Changes.trans) (hx rls) w

end Each

end OrgM

/-- A program that changes the tables `W` writes nothing else. -/
theorem OrgM.Each.within {W : Tbl → Bool} {K : Id → Envelope → Prop} {x : OrgM T B α} (hx : OrgM.Each (Touches W) x)
    (rls : Bool) : Within W K (x.cmd rls) := ((hx rls).and (x.frame rls)).mono fun w w' h =>
  { foot := { db := h.1.db, now := h.1.now, byOrg := by rw [h.1.hub], streams := h.1.streams,
              testsSkipped := fun i hi => by rwa [h.1.testsSkipped], pushed := ⟨[], h.1.pushed, fun _ hp => by cases hp⟩ }
    limits := h.2.limits
    fills := .of_same h.2.sent h.2.hub h.2.pushed }

/-! ## The functions of the database -/

namespace DB

open OrgM (Each)

theorem writeAudit_each {x y z v : String} {ht : T .auditLog = true} (h : Lets E .auditLog) :
    Each E (writeAudit (B := B) x y z v ht) := (Each.newID _).bind fun _ => (Each.insertOwn h).bind fun _ => .pure _

theorem firstWorkspace_each : Each E (OrgM.ofRead (firstWorkspace B) (readOnly_firstWorkspace B) : OrgM T B Id) :=
  .readOnly _

theorem getPoolConfig_each : Each E (getPoolConfig (B := B)) :=
  firstWorkspace_each.bind fun _ => by
    split
    · exact .pure _
    · exact .query

theorem updatePoolConfig_each {c : PoolCfg} (h : Lets E .poolConfig) : Each E (updatePoolConfig (B := B) c) :=
  firstWorkspace_each.bind fun _ => .tx (.update h)

theorem createPinnedWorker_each {f i : String} {n : Int} {st : PinnedSettings} (h : Lets E .pinnedWorker) :
    Each E (createPinnedWorker (B := B) f i n st) :=
  firstWorkspace_each.bind fun _ => (Each.newID _).bind fun _ => .tx ((Tx.Each.insert h).bind fun _ => .pure _)

theorem updateFound_each {t : Tbl} {p : Row t → Bool} {f : Row t → Row t} {hf : ∀ x, key t (f x) = key t x}
    {ht : settings t = true} {missing : String} (h : Lets E t) : Tx.Each E (updateFound (B := B) t p f hf ht missing) :=
  (Tx.Each.update h).bind fun _ => .ite (.fail _) (.pure _)

theorem updatePinnedWorker_each {i f x : String} {n : Int} {st : PinnedSettings} (h : Lets E .pinnedWorker) :
    Each E (updatePinnedWorker (B := B) i f x n st) := .tx (updateFound_each h)

theorem replaceConnection_each {n : String} {old : Connection → Bool} {type : ConnectionType} {x l : String}
    {st : ConnectionSettings} (h : Lets E .connection) : Each E (replaceConnection (B := B) n old type x l st) :=
  (Each.newID _).bind fun _ => .tx <| (Tx.Each.delete h).bind fun _ => Tx.Each.now.bind fun _ =>
    (Tx.Each.insert h).bind fun _ => .pure _

theorem findProviderToken_each {ps : List String} : Each E (findProviderToken (B := B) ps) :=
  Each.query.bind fun x => by cases x <;> exact .pure _

theorem findConnectionLabel_each {ps : List String} : Each E (findConnectionLabelByProviders (B := B) ps) :=
  Each.query.bind fun x => by cases x <;> exact .pure _

theorem createMemory_each {x y z v : String} {src : MemorySource} (h : Lets E .memory) :
    Each E (createMemory (B := B) x y z v src) :=
  (Each.newID _).bind fun _ => .tx ((Tx.Each.insert h).bind fun _ => .pure _)

theorem createKBDoc_each {x y z v : String} (h : Lets E .kbDocument) : Each E (createKBDoc (B := B) x y z v) :=
  (Each.newID _).bind fun _ => .tx ((Tx.Each.insert h).bind fun _ => .pure _)

theorem createSecretRef_each {x y z : String} (h : Lets E .secretRef) : Each E (createSecretRef (B := B) x y z) :=
  (Each.newID _).bind fun _ => .tx ((Tx.Each.insert h).bind fun _ => .pure _)

theorem createRoutine_each {x y z : String} {n : Int} {act : RoutineAction} (h : Lets E .routine) :
    Each E (createRoutine (B := B) x y z n act) :=
  (Each.newID _).bind fun _ => Each.timeNow.bind fun _ => .tx <| by
    cases (PgEnum.ofText? z : Option RoutineTrigger) with
    | none => exact .fail _
    | some t => exact (Tx.Each.insert h).bind fun _ => .pure _

theorem setRoutineEnabled_each {i : String} {b : Bool} (h : Lets E .routine) :
    Each E (setRoutineEnabled (B := B) i b) :=
  Each.timeNow.bind fun _ => .tx <| (Tx.Each.rows _).bind fun _ => .ite (.update h) (.fail _)

theorem createWorkspace_each {n : String} (hw : Lets E .workspace) (hp : Lets E .poolConfig) :
    Each E (createWorkspace (B := B) n) :=
  (Each.newID _).bind fun _ => (Each.newID _).bind fun _ => .tx <|
    (Tx.Each.insert hw).bind fun _ => (Tx.Each.insert hp).bind fun _ => .pure _

theorem createRepoFrom_each {x y z v p q : String} (h : Lets E .repository) :
    Each E (createRepoFrom (B := B) x y z v p q) :=
  (Each.newID _).bind fun _ => .tx <| (Tx.Each.rows _).bind fun _ => (Tx.Each.insert h).bind fun _ => .pure _

theorem updateRepo_each {x y z : String} (h : Lets E .repository) : Each E (updateRepo (B := B) x y z) :=
  .tx (updateFound_each h)

theorem deleteRepo_each {x : String} (h : Lets E .repository) : Each E (deleteRepo (B := B) x) :=
  .tx <| (Tx.Each.delete h).bind fun _ => .ite (.fail _) (.pure _)

end DB

/-! ## The screens -/

namespace API

open OrgM (Each)

/-- The tables whose rows a capability lets a screen write. -/
def writable : String → List Tbl
  | "write" => [.secretRef, .memory, .kbDocument, .routine]
  | "manage" => [.workspace, .poolConfig, .repository, .pinnedWorker, .connection, .auditLog]
  | _ => []

/-- `E` allows whatever the caller's capabilities allow. -/
def Permits (E : Store → Store → Prop) (u : Caller) : Prop :=
  ∀ cap, can u.role cap = true → ∀ t ∈ writable cap, Lets E t

variable {a : API} {u : Caller} {r : Request}

omit [IsPreorder Store E] in
theorem guarded_each {cap : String} {x : OrgM T u.orgID Response} (h : can u.role cap = true → Each E x) :
    Each E (guarded u cap x) := by
  unfold guarded
  split
  · next hc => exact h hc
  · exact .pure _

omit [IsPreorder Store E] in
theorem answer_each {x : Except DbErr α} {ok : α → OrgM T u.orgID Response} (h : ∀ v, Each E (ok v)) :
    Each E (answer u x ok) := by
  cases x with
  | ok v => exact h v
  | error e => exact .pure _

theorem listing_each {name : String} {f : Time → View → Except DbErr (List Val)} : Each E (listing u name f) :=
  Each.view.bind fun x => by cases x <;> exact .pure _

theorem pooled_each {name : String} {f : Time → Store → α} {ok : α → Response} : Each E (pooled u name f ok) :=
  Each.query.bind fun x => by cases x <;> exact .pure _

omit [IsPreorder Store E] in
/-- A function of the database, then the answer. -/
theorem done_each {x : OrgM T u.orgID (Except DbErr α)} {ok : α → Response} (hx : Each E x) :
    Each E (x >>= fun res => answer u res fun v => pure (ok v)) := hx.bind fun _ => answer_each fun _ => .pure _

/-- A function of the database, then the record of it. -/
theorem recorded_each {x : OrgM T u.orgID (Except DbErr α)} {y z : String} {v : α → String} {ok : α → Response}
    {ht : T .auditLog = true} (hx : Each E x) (ha : Lets E .auditLog) :
    Each E (x >>= fun res => answer u res fun n => recordAudit u y z (v n) ht >>= fun _ => pure (ok n)) :=
  hx.bind fun _ => answer_each fun _ => (DB.writeAudit_each ha).bind fun _ => .pure _

theorem rememberAnswer_each {b : AnswerBody} (h : Lets E .memory) : Each E (rememberAnswer u b) := by
  unfold rememberAnswer
  split
  · exact DB.firstWorkspace_each.bind fun _ => (DB.createMemory_each h).bind fun _ => .pure _
  · exact .pure _

theorem setRoutine_each {i : Id} {b : Bool} (h : Lets E .routine) : Each E (setRoutine u i b) :=
  (DB.setRoutineEnabled_each h).bind fun _ => .pure _

omit [IsPreorder Store E] in
theorem dropRoutine_each {i : Id} (h : Lets E .routine) : Each E (dropRoutine u i) :=
  guarded_each fun _ => (Each.tx (Tx.Each.delete h)).bind fun _ => .pure _

theorem remember_each {f : HttpMemory → HttpMemory} {hf} : Each E (remember (B := B) f hf) := .mem

theorem storeGitHubConn_each {x y z : String} (h : Lets E .connection) : Each E (storeGitHubConn (B := B) x y z) := by
  refine Each.bind ?_ fun _ => .pure _
  split
  · exact DB.replaceConnection_each h
  split
  · exact DB.replaceConnection_each h
  split
  · exact DB.replaceConnection_each h
  · exact DB.replaceConnection_each h

theorem finishOAuth_each {st : GhState} (h : Lets E .connection) : Each E (a.finishOAuth r st) := by
  have hfail : ∀ {p m : String}, Each E (a.failFlow (B := st.org) p m) := remember_each.bind fun _ => .pure _
  unfold finishOAuth
  split
  · exact hfail
  · dsimp only
    split
    · exact hfail
    split
    · exact hfail
    · exact (storeGitHubConn_each h).bind fun _ => remember_each.bind fun _ => .pure _

theorem pollGitHubDevice_each {p : GhPoll} {token account : Reply} (h : Lets E .connection) :
    Each E (pollGitHubDevice p token account) := by
  refine Each.timeNow.bind fun now => ?_
  split
  · exact remember_each.bind fun _ => .pure _
  split
  · exact .pure _
  · dsimp only
    split
    · split
      · exact (storeGitHubConn_each h).bind fun _ => remember_each.bind fun _ => .pure _
      · exact remember_each.bind fun _ => .pure _
    split
    · exact remember_each.bind fun _ => .pure _
    split
    · exact remember_each.bind fun _ => .pure _
    · exact .pure _

/-! ### Reads, and the flows of the REST side's memory -/

omit [IsPreorder Store E] in
theorem anthropicTest_each : Each E (anthropicTest u r) := by
  unfold anthropicTest
  split
  · exact .pure _
  refine guarded_each fun _ => ?_
  dsimp only
  split
  · exact .pure _
  · split
    · exact .pure _
    · split
      · exact .pure _
      · exact .pure _

omit [IsPreorder Store E] in
theorem gitTest_each : Each E (gitTest u r) := by
  unfold gitTest
  split
  · exact .pure _
  refine guarded_each fun _ => ?_
  dsimp only
  split
  · exact .pure _
  · exact .pure _

theorem codeToken_each {p : String} : Each E (codeToken u p) := Each.query.bind fun x => by cases x <;> exact .pure _

theorem codeRemoteRepos_each : Each E (codeRemoteRepos u r) := by
  refine guarded_each fun _ => ?_
  dsimp only
  split
  · exact .pure _
  · exact codeToken_each.bind fun x => by cases x <;> exact .pure _

theorem codeCloneURL_each : Each E (codeCloneURL u r) := by
  unfold codeCloneURL
  split
  · exact .pure _
  refine guarded_each fun _ => ?_
  dsimp only
  split
  · exact .pure _
  · exact codeToken_each.bind fun x => by cases x <;> exact .pure _

omit [IsPreorder Store E] in
theorem tasksTest_each : Each E (tasksTest u r) := by
  unfold tasksTest
  split
  · exact .pure _
  refine guarded_each fun _ => ?_
  dsimp only
  split
  · exact .pure _
  · exact .pure _

omit [IsPreorder Store E] in
theorem integrationTest_each : Each E (integrationTest u r) := by
  unfold integrationTest
  split
  · exact .pure _
  refine guarded_each fun _ => ?_
  dsimp only
  split
  · exact .pure _
  · exact .pure _

theorem githubDeviceStart_each : Each E (githubDeviceStart u r) := by
  unfold githubDeviceStart
  split
  · exact .pure _
  refine guarded_each fun _ => ?_
  dsimp only
  split
  · exact .pure _
  split
  · exact .pure _
  · exact remember_each.bind fun _ => Each.timeNow.bind fun _ => remember_each.bind fun _ => .pure _

theorem githubDeviceStatus_each : Each E (githubDeviceStatus u) :=
  guarded_each fun _ => Each.mem.bind fun x => by cases x <;> exact .pure _

theorem githubOAuthStart_each : Each E (a.githubOAuthStart u r) := by
  unfold githubOAuthStart
  split
  · exact .pure _
  refine guarded_each fun _ => ?_
  split
  · exact .pure _
  · exact Each.newNonce.bind fun _ => Each.timeNow.bind fun _ => remember_each.bind fun _ =>
      remember_each.bind fun _ => .pure _

theorem taskSteps_each : Each E (taskSteps u r) := by
  unfold taskSteps
  split
  · exact .pure _
  · exact pooled_each

omit [IsPreorder Store E] in
theorem checkout_each : Each E (a.checkout u r) := by
  refine guarded_each fun _ => ?_
  dsimp only
  split
  · exact .pure _
  split
  · exact .pure _
  split
  · exact .pure _
  · exact .pure _

theorem portal_each : Each E (a.portal u r) := by
  refine guarded_each fun _ => Each.query.bind fun x => ?_
  split
  · exact .pure _
  split
  · exact .pure _
  split
  · exact .pure _
  · exact .pure _

theorem auditExport_each : Each E (auditExport u) :=
  guarded_each fun _ => Each.view.bind fun x => by cases x <;> exact .pure _

theorem notifStream_each : Each E (notifStream u) := Each.view.bind fun _ => pooled_each

theorem stream_each : Each E (stream u) := Each.view.bind fun _ => Each.view.bind fun _ => .pure _

theorem notifications_each (h : r.method = "POST" → Lets E .notification) :
    Each E (notifications u r) := by
  unfold notifications
  split
  · next hm => exact (Each.tx (.update (h hm))).bind fun _ => .pure _
  · exact Each.view.bind fun _ => answer_each fun _ => pooled_each

/-! ### Settings -/

section

variable (hP : Permits E u)
include hP

theorem workspaces_each : Each E (workspaces u r) := by
  unfold workspaces
  split
  · refine guarded_each fun hc => ?_
    dsimp only
    split
    · exact .pure _
    · exact done_each (DB.createWorkspace_each (hP _ hc _ (by decide)) (hP _ hc _ (by decide)))
  · exact listing_each

theorem secrets_each : Each E (secrets u r) := by
  unfold secrets
  split
  · refine guarded_each fun hc => ?_
    dsimp only
    split
    · exact .pure _
    · exact done_each (DB.createSecretRef_each (hP _ hc _ (by decide)))
  · exact listing_each

theorem memories_each : Each E (memories u r) := by
  unfold memories
  split
  · refine guarded_each fun hc => ?_
    dsimp only
    split
    · exact .pure _
    · exact DB.firstWorkspace_each.bind fun _ => done_each (DB.createMemory_each (hP _ hc _ (by decide)))
  · exact listing_each

omit [IsPreorder Store E] in
theorem memoryDelete_each : Each E (memoryDelete u r) := by
  unfold memoryDelete
  split
  · exact .pure _
  · exact guarded_each fun hc => (Each.tx (Tx.Each.delete (hP _ hc _ (by decide)))).bind fun _ => .pure _

theorem kbDocs_each : Each E (kbDocs u r) := by
  unfold kbDocs
  split
  · refine guarded_each fun hc => ?_
    dsimp only
    split
    · exact .pure _
    · exact DB.firstWorkspace_each.bind fun _ => done_each (DB.createKBDoc_each (hP _ hc _ (by decide)))
  · exact listing_each

theorem repos_each : Each E (repos u r) := by
  unfold repos
  split
  · dsimp only
    split
    · exact .pure _
    · exact guarded_each fun hc => DB.firstWorkspace_each.bind fun _ =>
        recorded_each (DB.createRepoFrom_each (hP _ hc _ (by decide))) (hP _ hc _ (by decide))
  · exact listing_each

theorem repoByID_each : Each E (repoByID u r) := by
  refine guarded_each fun hc => ?_
  dsimp only
  split
  · exact .pure _
  split
  · refine (DB.deleteRepo_each (hP _ hc _ (by decide))).bind fun x => ?_
    cases x with
    | error e => exact .pure _
    | ok v => exact (DB.writeAudit_each (hP _ hc _ (by decide))).bind fun _ => .pure _
  split
  · split
    · exact .pure _
    · exact recorded_each (DB.updateRepo_each (hP _ hc _ (by decide))) (hP _ hc _ (by decide))
  · exact .pure _

theorem pool_each : Each E (pool u r) := by
  unfold pool
  split
  · refine guarded_each fun hc => ?_
    dsimp only
    split
    · exact .pure _
    · exact recorded_each (DB.updatePoolConfig_each (hP _ hc _ (by decide))) (hP _ hc _ (by decide))
  · exact done_each DB.getPoolConfig_each

theorem pinnedWorkers_each : Each E (pinnedWorkers u r) := by
  unfold pinnedWorkers
  split
  · refine guarded_each fun hc => ?_
    dsimp only
    split
    · exact .pure _
    · exact recorded_each (DB.createPinnedWorker_each (hP _ hc _ (by decide))) (hP _ hc _ (by decide))
  · exact listing_each

theorem pinnedWorkersBulk_each : Each E (pinnedWorkersBulk u r) := by
  unfold pinnedWorkersBulk
  split
  · exact .pure _
  · refine guarded_each fun hc => ?_
    dsimp only
    split
    · exact .pure _
    · exact recorded_each (.tx (.update (hP _ hc _ (by decide)))) (hP _ hc _ (by decide))

theorem pinnedWorkerByID_each : Each E (pinnedWorkerByID u r) := by
  unfold pinnedWorkerByID
  dsimp only
  split
  · exact .pure _
  · refine guarded_each fun hc => ?_
    split_ifs
    · exact recorded_each (.tx (.delete (hP _ hc _ (by decide)))) (hP _ hc _ (by decide))
    · exact .pure _
    · exact recorded_each (DB.updatePinnedWorker_each (hP _ hc _ (by decide))) (hP _ hc _ (by decide))
    · exact .pure _

theorem routines_each : Each E (routines u r) := by
  unfold routines
  split
  · refine guarded_each fun hc => ?_
    exact .ite (.pure _) <| .ite (.pure _) <| DB.firstWorkspace_each.bind fun _ =>
      done_each (DB.createRoutine_each (hP _ hc _ (by decide)))
  · exact listing_each

/-! ### Connections -/

theorem setAIEngine_each (hc : can u.role "manage" = true) {k p l : String} : Each E (setAIEngine u k p l) :=
  recorded_each (DB.replaceConnection_each (hP _ hc _ (by decide))) (hP _ hc _ (by decide))

theorem connections_each : Each E (connections u r) := by
  unfold connections
  split
  · refine guarded_each fun hc => ?_
    dsimp only
    split
    · exact .pure _
    split
    · exact setAIEngine_each hP hc
    · exact setAIEngine_each hP hc
  · exact listing_each

theorem claudeAuth_each : Each E (a.claudeAuth u r) := by
  unfold claudeAuth
  split
  · exact .pure _
  refine guarded_each fun hc => ?_
  dsimp only
  split
  · exact .pure _
  split
  · exact .pure _
  split
  · split
    · exact .pure _
    split
    · refine (DB.replaceConnection_each (hP _ hc _ (by decide))).bind fun x => ?_
      cases x with
      | ok id => exact (DB.writeAudit_each (hP _ hc _ (by decide))).bind fun _ => .pure _
      | error e => exact .pure _
    · exact .pure _
  · exact .pure _

theorem stored_each (hc : can u.role "manage" = true) {x : SettingsM u.orgID (Except DbErr Id)} {k v p : String}
    (hx : Each E x) : Each E (x >>= fun res => stored u res k v p) := recorded_each hx (hP _ hc _ (by decide))

theorem disconnect_each (hc : can u.role "manage" = true) {n k p : String} {type : ConnectionType} :
    Each E (disconnect u n k type p) :=
  recorded_each (.tx (.delete (hP _ hc _ (by decide)))) (hP _ hc _ (by decide))

theorem gitConnect_each : Each E (gitConnect u r) := by
  refine guarded_each fun hc => ?_
  dsimp only
  split
  · split
    · exact .pure _
    · exact disconnect_each hP hc
  split
  · exact .pure _
  split
  · exact .pure _
  split
  · exact .pure _
  split
  · exact .pure _
  · exact stored_each hP hc (DB.replaceConnection_each (hP _ hc _ (by decide)))

theorem tasksConnect_each : Each E (tasksConnect u r) := by
  refine guarded_each fun hc => ?_
  dsimp only
  split
  · split
    · exact .pure _
    · exact disconnect_each hP hc
  split
  · exact .pure _
  split
  · exact .pure _
  split
  · exact .pure _
  · exact stored_each hP hc (DB.replaceConnection_each (hP _ hc _ (by decide)))

theorem integrationConnect_each : Each E (integrationConnect u r) := by
  refine guarded_each fun hc => ?_
  dsimp only
  split
  · split
    · exact .pure _
    · exact disconnect_each hP hc
  split
  · exact .pure _
  split
  · exact .pure _
  split
  · exact .pure _
  · exact stored_each hP hc (DB.replaceConnection_each (hP _ hc _ (by decide)))

theorem reuseAs_each (hc : can u.role "manage" = true) {x p l : String} {all : List String} :
    Each E (reuseAs u x p l all) := by
  have hnew : ∀ {n : String} {old : Connection → Bool} {type : ConnectionType} {st : ConnectionSettings},
      Each E (some <$> DB.replaceConnection (B := u.orgID) n old type p l st) := fun {n old type st} =>
    .map (DB.replaceConnection_each (hP _ hc _ (by decide)))
  unfold reuseAs
  split
  · refine DB.findProviderToken_each.bind fun q => ?_
    obtain ⟨tok, uname⟩ := q
    dsimp only
    split
    · exact .pure _
    · exact hnew
  split
  · exact hnew
  split
  · exact hnew
  · exact hnew

theorem reuseConnection_each : Each E (reuseConnection u r) := by
  unfold reuseConnection
  split
  · exact .pure _
  refine guarded_each fun hc => ?_
  dsimp only
  split
  · exact .pure _
  · refine DB.findConnectionLabel_each.bind fun l => ?_
    split
    · exact .pure _
    · refine (reuseAs_each hP hc).bind fun x => ?_
      cases x with
      | none => exact .pure _
      | some res =>
          exact answer_each fun id => (DB.writeAudit_each (hP _ hc _ (by decide))).bind fun _ => .pure _

/-- Every screen but those of the members and the notifications writes what the caller's capabilities
let it write. -/
theorem screens_each {e : String × Screen} (he : e ∈ a.screens) :
    Each E (e.2 u r) ∨ e ∈ [("/v1/members", a.members), ("/v1/members/", memberRemove), ("/v1/notifications", notifications)] := by
  simp only [screens, List.mem_cons, List.not_mem_nil, or_false] at he
  rcases he with rfl | rfl | rfl | rfl | rfl | rfl | rfl | rfl | rfl | rfl | rfl | rfl | rfl | rfl | rfl | rfl | rfl |
    rfl | rfl | rfl | rfl | rfl | rfl | rfl | rfl | rfl | rfl | rfl | rfl | rfl | rfl | rfl | rfl | rfl | rfl | rfl |
    rfl | rfl | rfl | rfl | rfl | rfl | rfl | rfl | rfl | rfl | rfl | rfl | rfl
  · exact .inl (guarded_each fun _ => listing_each)
  · exact .inl auditExport_each
  · exact .inr (by simp)
  · exact .inr (by simp)
  · exact .inl (workspaces_each hP)
  · exact .inl (.pure _)
  · exact .inl listing_each
  · exact .inl taskSteps_each
  · exact .inl (secrets_each hP)
  · exact .inl (repos_each hP)
  · exact .inl listing_each
  · exact .inl listing_each
  · exact .inl (memories_each hP)
  · exact .inl (memoryDelete_each hP)
  · exact .inl (kbDocs_each hP)
  · exact .inl (routines_each hP)
  · exact .inl listing_each
  · exact .inl listing_each
  · exact .inl (pool_each hP)
  · exact .inl (connections_each hP)
  · exact .inl (claudeAuth_each hP)
  · exact .inl anthropicTest_each
  · exact .inl (gitConnect_each hP)
  · exact .inl gitTest_each
  · exact .inl codeRemoteRepos_each
  · exact .inl codeCloneURL_each
  · exact .inl (repoByID_each hP)
  · exact .inl githubDeviceStart_each
  · exact .inl githubDeviceStatus_each
  · exact .inl githubOAuthStart_each
  · exact .inl (tasksConnect_each hP)
  · exact .inl tasksTest_each
  · exact .inl (integrationConnect_each hP)
  · exact .inl integrationTest_each
  · exact .inl (reuseConnection_each hP)
  · exact .inl (pinnedWorkers_each hP)
  · exact .inl (pinnedWorkersBulk_each hP)
  · exact .inl (pinnedWorkerByID_each hP)
  · exact .inl listing_each
  · exact .inl pooled_each
  · exact .inl pooled_each
  · exact .inl pooled_each
  · exact .inl checkout_each
  · exact .inl portal_each
  · exact .inl pooled_each
  · exact .inl pooled_each
  · exact .inr (by simp)
  · exact .inl notifStream_each
  · exact .inl stream_each

end

end API

end Apifor
