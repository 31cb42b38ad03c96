import Apifor.Lib.Casing
import Apifor.Schema
import Mathlib.Logic.Function.Basic
import Mathlib.Tactic.SplitIfs

/-!
# The store and its statements

A store is one table per table of the schema. A statement runs in a scope: `Scope.all` is the pool
whose role bypasses row-level security, `Scope.org o` is the role `apifor_app` in a transaction with
`app.current_org = o`. Reads see the rows the scope shows; writes must pass its `WITH CHECK`, the
keys, the unique constraints and the foreign keys, which are checked on all rows.
-/

namespace Apifor

inductive Tbl
  | appUser | org | workspace | membership | planCatalog | subscription | usageEvent
  | workerHoursCounter | invoice | agentProfile | poolConfig | repository | pinnedWorker
  | workerInstance | lease | routine | task | step | pullRequest | ciRun | qaReport | secretRef
  | connection | memory | kbDocument | auditLog | notification | device
  deriving DecidableEq, Repr

abbrev Row : Tbl → Type
  | .appUser => AppUser
  | .org => Org
  | .workspace => Workspace
  | .membership => Membership
  | .planCatalog => PlanCatalog
  | .subscription => Subscription
  | .usageEvent => UsageEvent
  | .workerHoursCounter => WorkerHoursCounter
  | .invoice => Invoice
  | .agentProfile => AgentProfile
  | .poolConfig => PoolConfig
  | .repository => Repository
  | .pinnedWorker => PinnedWorker
  | .workerInstance => WorkerInstance
  | .lease => Lease
  | .routine => Routine
  | .task => Task
  | .step => Step
  | .pullRequest => PullRequest
  | .ciRun => CIRun
  | .qaReport => QAReport
  | .secretRef => SecretRef
  | .connection => Connection
  | .memory => Memory
  | .kbDocument => KBDocument
  | .auditLog => AuditLog
  | .notification => Notification
  | .device => Device

/-- The primary key; its second part is used by `worker_hours_counter` only. -/
def key : (t : Tbl) → Row t → Id × Int
  | .appUser, r => (r.id, 0)
  | .org, r => (r.id, 0)
  | .workspace, r => (r.id, 0)
  | .membership, r => (r.id, 0)
  | .planCatalog, r => (PgEnum.text r.id, 0)
  | .subscription, r => (r.id, 0)
  | .usageEvent, r => (r.id, 0)
  | .workerHoursCounter, r => (r.orgId, r.weekStart)
  | .invoice, r => (r.id, 0)
  | .agentProfile, r => (r.id, 0)
  | .poolConfig, r => (r.id, 0)
  | .repository, r => (r.id, 0)
  | .pinnedWorker, r => (r.id, 0)
  | .workerInstance, r => (r.id, 0)
  | .lease, r => (r.id, 0)
  | .routine, r => (r.id, 0)
  | .task, r => (r.id, 0)
  | .step, r => (r.id, 0)
  | .pullRequest, r => (r.id, 0)
  | .ciRun, r => (r.id, 0)
  | .qaReport, r => (r.id, 0)
  | .secretRef, r => (r.id, 0)
  | .connection, r => (r.id, 0)
  | .memory, r => (r.id, 0)
  | .kbDocument, r => (r.id, 0)
  | .auditLog, r => (r.id, 0)
  | .notification, r => (r.id, 0)
  | .device, r => (r.id, 0)

abbrev Store := (t : Tbl) → Table (key t)

def Store.empty : Store := fun _ => Table.empty

def Store.set (s : Store) (t : Tbl) (x : Table (key t)) : Store := Function.update s t x

@[simp] theorem Store.set_same (s : Store) (t : Tbl) (x : Table (key t)) : s.set t x t = x := by
  simp [Store.set]

theorem Store.set_of_ne (s : Store) {t t' : Tbl} (x : Table (key t)) (h : t' ≠ t) :
    s.set t x t' = s t' := by
  simp [Store.set, h]

/-- Some row of table `t` has the given id. -/
def Store.has (s : Store) (t : Tbl) (i : Id) : Bool := (s t).rows.any fun r => decide ((key t r).1 = i)

/-! ## Constraints -/

/-- The references of a row: the ids that must exist, with their tables. -/
def refs : (t : Tbl) → Row t → List (Tbl × Id)
  | .appUser, _ => []
  | .org, r => [(.appUser, r.ownerUserId)]
  | .workspace, r => [(.org, r.orgId)]
  | .membership, r => [(.org, r.orgId), (.appUser, r.userId)]
  | .planCatalog, _ => []
  | .subscription, r => [(.org, r.orgId)]
  | .usageEvent, r => [(.org, r.orgId)]
  | .workerHoursCounter, r => [(.org, r.orgId)]
  | .invoice, r => [(.org, r.orgId)]
  | .agentProfile, r => r.orgId.toList.map (.org, ·)
  | .poolConfig, r => [(.workspace, r.workspaceId)]
  | .repository, r =>
      [(.org, r.orgId), (.workspace, r.workspaceId)] ++ r.connectionId.toList.map (.connection, ·)
  | .pinnedWorker, r =>
      [(.org, r.orgId), (.workspace, r.workspaceId)] ++ r.repoId.toList.map (.repository, ·)
  | .workerInstance, r => [(.org, r.orgId), (.workspace, r.workspaceId)]
  | .lease, r => [(.org, r.orgId), (.workerInstance, r.workerInstanceId)]
  | .routine, r => [(.org, r.orgId), (.workspace, r.workspaceId)]
  | .task, r =>
      [(.org, r.orgId), (.workspace, r.workspaceId)] ++ r.repoId.toList.map (.repository, ·) ++
        r.assignedWorkerId.toList.map (.workerInstance, ·)
  | .step, r => [(.task, r.taskId)]
  | .pullRequest, r =>
      [(.org, r.orgId)] ++ r.taskId.toList.map (.task, ·) ++ r.repoId.toList.map (.repository, ·)
  | .ciRun, r => [(.pullRequest, r.prId)]
  | .qaReport, r =>
      [(.org, r.orgId)] ++ r.taskId.toList.map (.task, ·) ++ r.prId.toList.map (.pullRequest, ·) ++
        r.repoId.toList.map (.repository, ·)
  | .secretRef, r => [(.org, r.orgId)]
  | .connection, r => [(.org, r.orgId)] ++ r.workspaceId.toList.map (.workspace, ·)
  | .memory, r => [(.org, r.orgId), (.workspace, r.workspaceId)] ++ r.repoId.toList.map (.repository, ·)
  | .kbDocument, r => [(.org, r.orgId), (.workspace, r.workspaceId)]
  | .auditLog, r => [(.org, r.orgId)]
  | .notification, r => [(.org, r.orgId), (.appUser, r.userId)]
  | .device, r => [(.org, r.orgId), (.appUser, r.userId)]

/-- Equality of `citext`: both texts in lower case. -/
def sameEmail (a b : String) : Bool := decide (Text.toLower a = Text.toLower b)

/-- Two rows that a unique constraint other than the primary key excludes. -/
def clash : (t : Tbl) → Row t → Row t → Bool
  | .appUser, r, q => sameEmail r.email q.email
  | .membership, r, q => decide (r.orgId = q.orgId ∧ r.userId = q.userId)
  | .poolConfig, r, q => decide (r.workspaceId = q.workspaceId)
  | .step, r, q => decide (r.taskId = q.taskId ∧ r.idx = q.idx)
  | _, _, _ => false

/-- The values of a row fit its `int` columns. -/
def int4 (n : Int) : Bool := decide (-2147483648 ≤ n ∧ n ≤ 2147483647)

def inRange : (t : Tbl) → Row t → Bool
  | .poolConfig, r => int4 r.parallelWorkers && int4 r.retries && (r.timeoutMin.map int4).getD true
  | .pinnedWorker, r => int4 r.concurrency
  | .invoice, r => (r.amountCents.map int4).getD true
  | .step, r => int4 r.idx
  | _, _ => true

/-! ## Ownership and scopes -/

/-- The row belongs to org `o`: directly, or through its workspace, task or pull request. -/
def owns (o : Id) (s : Store) : (t : Tbl) → Row t → Bool
  | .appUser, _ => false
  | .org, r => decide (r.id = o)
  | .workspace, r => decide (r.orgId = o)
  | .membership, r => decide (r.orgId = o)
  | .planCatalog, _ => false
  | .subscription, r => decide (r.orgId = o)
  | .usageEvent, r => decide (r.orgId = o)
  | .workerHoursCounter, r => decide (r.orgId = o)
  | .invoice, r => decide (r.orgId = o)
  | .agentProfile, r => decide (r.orgId = some o)
  | .poolConfig, r => (s .workspace).rows.any fun w => decide (w.id = r.workspaceId ∧ w.orgId = o)
  | .repository, r => decide (r.orgId = o)
  | .pinnedWorker, r => decide (r.orgId = o)
  | .workerInstance, r => decide (r.orgId = o)
  | .lease, r => decide (r.orgId = o)
  | .routine, r => decide (r.orgId = o)
  | .task, r => decide (r.orgId = o)
  | .step, r => (s .task).rows.any fun k => decide (k.id = r.taskId ∧ k.orgId = o)
  | .pullRequest, r => decide (r.orgId = o)
  | .ciRun, r => (s .pullRequest).rows.any fun p => decide (p.id = r.prId ∧ p.orgId = o)
  | .qaReport, r => decide (r.orgId = o)
  | .secretRef, r => decide (r.orgId = o)
  | .connection, r => decide (r.orgId = o)
  | .memory, r => decide (r.orgId = o)
  | .kbDocument, r => decide (r.orgId = o)
  | .auditLog, r => decide (r.orgId = o)
  | .notification, r => decide (r.orgId = o)
  | .device, r => decide (r.orgId = o)

/-- Tables outside row-level security. -/
def Tbl.isGlobal : Tbl → Bool
  | .appUser | .planCatalog => true
  | _ => false

/-- The rows of table `t` that belong to `o`. -/
def rowsOf (o : Id) (s : Store) (t : Tbl) : List (Row t) := (s t).rows.filter (owns o s t)

inductive Scope
  | all
  | org (o : Id)
  deriving DecidableEq, Repr

/-- The scope of a transaction of `withOrg`; `rls` says that the app's pool is subject to the policies. -/
def withOrg (rls : Bool) (org : Id) : Scope := if rls then .org org else .all

/-- `USING` of the policies for writes, and `WITH CHECK`; an empty `app.current_org` is NULL. -/
def Scope.writes (sc : Scope) (s : Store) (t : Tbl) (r : Row t) : Bool :=
  match sc with
  | .all => true
  | .org o => t.isGlobal || (decide (o ≠ "") && owns o s t r)

/-- A `SELECT` also sees the global seeds. -/
def Scope.reads (sc : Scope) (s : Store) : (t : Tbl) → Row t → Bool
  | .agentProfile, r => sc.writes s .agentProfile r || r.orgId.isNone
  | t, r => sc.writes s t r

inductive DbErr
  | noRows
  | constraint
  | policy
  | cast
  | outOfRange
  | other (msg : String)
  deriving DecidableEq, Repr

/-- The rows a `SELECT` on `t` ranges over. -/
def select (sc : Scope) (s : Store) (t : Tbl) : List (Row t) := (s t).rows.filter (sc.reads s t)

/-- What a row must satisfy to be stored. -/
def admissible (sc : Scope) (s : Store) (t : Tbl) (r : Row t) : Except DbErr Unit :=
  if inRange t r = false then .error .outOfRange
  else if sc.writes s t r = false then .error .policy
  else if (refs t r).all (fun q => s.has q.1 q.2) = false then .error .constraint
  else .ok ()

def insert (sc : Scope) (t : Tbl) (r : Row t) (s : Store) : Except DbErr Store :=
  match admissible sc s t r with
  | .error e => .error e
  | .ok () =>
      if (s t).rows.any (clash t r) then .error .constraint
      else
        match (s t).insert? r with
        | none => .error .constraint
        | some x => .ok (s.set t x)

/-- `UPDATE t SET … WHERE p`, with the number of rows affected; a reference is checked only when the
update changes it. -/
def update (sc : Scope) (t : Tbl) (p : Row t → Bool) (f : Row t → Row t)
    (s : Store) (hf : ∀ r, key t (f r) = key t r := by intro; rfl) : Except DbErr (Store × Nat) :=
  let hit := fun r => sc.writes s t r && p r
  let rows := (s t).rows.filter hit
  if rows.any (fun r => !inRange t (f r)) then .error .outOfRange
  else if rows.any (fun r => !sc.writes s t (f r)) then .error .policy
  else if rows.any (fun r => !(refs t (f r)).all fun q => decide (q ∈ refs t r) || s.has q.1 q.2) then
    .error .constraint
  else .ok (s.set t ((s t).update hit f hf), rows.length)

/-! `ON DELETE` of the references to a repository or a connection; no other table that the program
deletes from is referenced by a column of this schema. -/

def nullRepo (ids : List Id) (o : Option Id) : Option Id :=
  match o with
  | some i => if ids.contains i then none else some i
  | none => none

/-- `ON DELETE SET NULL` on the `repo_id` of a row. -/
def clearRepo (ids : List Id) : (t : Tbl) → Row t → Row t
  | .pinnedWorker, r => { r with repoId := nullRepo ids r.repoId }
  | .task, r => { r with repoId := nullRepo ids r.repoId }
  | .pullRequest, r => { r with repoId := nullRepo ids r.repoId }
  | .qaReport, r => { r with repoId := nullRepo ids r.repoId }
  | _, r => r

theorem key_clearRepo (ids : List Id) (t : Tbl) (r : Row t) : key t (clearRepo ids t r) = key t r := by
  cases t <;> rfl

def unlinkRepo (ids : List Id) (t : Tbl) (s : Store) : Store :=
  s.set t ((s t).update (fun _ => true) (clearRepo ids t) (key_clearRepo ids t))

/-- `ON DELETE CASCADE` of `memory.repo_id`. -/
def dropMemories (ids : List Id) (s : Store) : Store :=
  s.set .memory ((s .memory).delete fun r => (r.repoId.map ids.contains).getD false)

def onDeleteRepository (ids : List Id) (s : Store) : Store :=
  dropMemories ids
    (unlinkRepo ids .qaReport (unlinkRepo ids .pullRequest (unlinkRepo ids .task (unlinkRepo ids .pinnedWorker s))))

def onDeleteConnection (ids : List Id) (s : Store) : Store :=
  s.set .repository
    ((s .repository).update (fun _ => true) (fun r => { r with connectionId := nullRepo ids r.connectionId })
      fun _ => rfl)

def onDelete : Tbl → List Id → Store → Store
  | .repository => onDeleteRepository
  | .connection => onDeleteConnection
  | _ => fun _ s => s

def delete (sc : Scope) (t : Tbl) (p : Row t → Bool) (s : Store) : Store × Nat :=
  let hit := fun r => sc.writes s t r && p r
  let gone := (s t).rows.filter hit
  (onDelete t (gone.map fun r => (key t r).1) (s.set t ((s t).delete hit)), gone.length)

/-- An update that adds no reference and keeps a row of the table writable goes through. -/
theorem update_eq_of_inRange (sc : Scope) (t : Tbl) (p : Row t → Bool) (f : Row t → Row t) (s : Store)
    (hf : ∀ r, key t (f r) = key t r) (hr : ∀ r, ∀ q ∈ refs t (f r), q ∈ refs t r)
    (hi : ∀ r ∈ (s t).rows, inRange t (f r) = true)
    (hw : ∀ r, sc.writes s t r = true → sc.writes s t (f r) = true) :
    update sc t p f s hf =
      .ok (s.set t ((s t).update (fun r => sc.writes s t r && p r) f hf),
        ((s t).rows.filter fun r => sc.writes s t r && p r).length) := by
  have hrange : ((s t).rows.filter fun r => sc.writes s t r && p r).any (fun r => !inRange t (f r)) = false := by
    rw [List.any_eq_false]
    intro r hr
    simp [hi r (List.mem_filter.1 hr).1]
  have hcheck : ((s t).rows.filter fun r => sc.writes s t r && p r).any (fun r => !sc.writes s t (f r)) = false := by
    rw [List.any_eq_false]
    intro r hr
    obtain ⟨-, hrp⟩ := List.mem_filter.1 hr
    simp only [Bool.and_eq_true] at hrp
    simp [hw r hrp.1]
  have hrefs : ((s t).rows.filter fun r => sc.writes s t r && p r).any
      (fun r => !(refs t (f r)).all fun q => decide (q ∈ refs t r) || s.has q.1 q.2) = false := by
    rw [List.any_eq_false]
    intro r _
    have hall : (refs t (f r)).all (fun q => decide (q ∈ refs t r) || s.has q.1 q.2) = true := by
      rw [List.all_eq_true]
      intro q hq
      simp [hr r q hq]
    simp only [hall, Bool.not_true, Bool.false_eq_true, not_false_eq_true]
  simp only [update, hrange, hcheck, hrefs, Bool.false_eq_true, if_false]

theorem update_eq (sc : Scope) (t : Tbl) (p : Row t → Bool) (f : Row t → Row t) (s : Store)
    (hf : ∀ r, key t (f r) = key t r) (hr : ∀ r, ∀ q ∈ refs t (f r), q ∈ refs t r)
    (hi : ∀ r, inRange t (f r) = true) (hw : ∀ r, sc.writes s t r = true → sc.writes s t (f r) = true) :
    update sc t p f s hf =
      .ok (s.set t ((s t).update (fun r => sc.writes s t r && p r) f hf),
        ((s t).rows.filter fun r => sc.writes s t r && p r).length) :=
  update_eq_of_inRange sc t p f s hf hr (fun r _ => hi r) hw

/-- The pool that bypasses row-level security may write every row. -/
theorem update_all_eq {t : Tbl} {p : Row t → Bool} {f : Row t → Row t} {s : Store}
    {hf : ∀ r, key t (f r) = key t r} (hr : ∀ r, ∀ q ∈ refs t (f r), q ∈ refs t r)
    (hi : ∀ r, inRange t (f r) = true) :
    update .all t p f s hf = .ok (s.set t ((s t).update p f hf), ((s t).rows.filter p).length) := by
  rw [update_eq .all t p f s hf hr hi fun _ _ => rfl]
  simp only [Scope.writes, Bool.true_and]

theorem map_eq_ok {α β : Type} {x : Except DbErr α} {f : α → β} {b : β} (h : x.map f = .ok b) :
    ∃ r, x = .ok r ∧ f r = b := by
  cases x with
  | error e => cases h
  | ok r => cases h; exact ⟨r, rfl, rfl⟩

theorem update_rows {sc : Scope} {t : Tbl} {p : Row t → Bool} {f : Row t → Row t} {s s' : Store} {n : Nat}
    {hf : ∀ r, key t (f r) = key t r} (h : update sc t p f s hf = .ok (s', n)) :
    (s' t).rows = (s t).rows.map fun r => if sc.writes s t r && p r then f r else r := by
  simp only [update] at h
  split_ifs at h
  cases h
  rw [Store.set_same, Table.rows_update]

/-- A write to `t` leaves the other tables as they were. -/
theorem update_other {sc : Scope} {t t' : Tbl} {p : Row t → Bool} {f : Row t → Row t} {s s' : Store} {n : Nat}
    {hf : ∀ r, key t (f r) = key t r} (h : update sc t p f s hf = .ok (s', n)) (ht : t' ≠ t) : s' t' = s t' := by
  simp only [update] at h
  split_ifs at h
  cases h
  exact Store.set_of_ne s _ ht

theorem insert_eq {sc : Scope} {t : Tbl} {r : Row t} {s s' : Store} (h : insert sc t r s = .ok s') :
    ∃ x, (s t).insert? r = some x ∧ s' = s.set t x := by
  simp only [insert] at h
  split at h
  · cases h
  · split_ifs at h
    split at h
    · cases h
    · next x hx => cases h; exact ⟨x, hx, rfl⟩

theorem insert_other {sc : Scope} {t t' : Tbl} {r : Row t} {s s' : Store} (h : insert sc t r s = .ok s')
    (ht : t' ≠ t) : s' t' = s t' := by
  obtain ⟨x, -, rfl⟩ := insert_eq h
  exact Store.set_of_ne s _ ht

theorem insert_rows {sc : Scope} {t : Tbl} {r : Row t} {s s' : Store} (h : insert sc t r s = .ok s') :
    (s' t).rows = r :: (s t).rows := by
  obtain ⟨x, hx, rfl⟩ := insert_eq h
  rw [Store.set_same, Table.rows_insert hx]

/-- The store that holds the given rows, inserted in order; a row that breaks a constraint is left out. -/
def Store.ofRows (rows : List ((t : Tbl) × Row t)) : Store :=
  rows.foldl (fun s r => ((insert .all r.1 r.2 s).toOption).getD s) Store.empty

end Apifor
