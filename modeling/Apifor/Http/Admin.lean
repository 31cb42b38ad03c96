import Apifor.Http.Billing

/-!
# The superadmin's screens

The handlers under `/v1/admin`. They read and write across orgs on the privileged pool, for a caller
whose role is `superadmin`.
-/

namespace Apifor

namespace API

variable (a : API) (u : Caller) (r : Request)

/-- `requireSuperAdmin`. -/
def superadmin (h : Cmd Response) : Cmd Response :=
  if u.role = "superadmin" then h else pure (fail 403 "forbidden" "requer superadmin")

/-! ## Reads -/

def count {α : Type} (p : α → Bool) (rows : List α) : Val := .int (rows.filter p).length

def optInt : Option Int → Val
  | some n => .int n
  | none => .null

def adminStatsVal (s : Store) : Val :=
  .obj [("total_orgs", .int (s .org).rows.length), ("total_users", .int (s .appUser).rows.length),
    ("plan_free", count (fun o => decide (o.plan = .free)) (s .org).rows),
    ("plan_pro", count (fun o => decide (o.plan = .pro)) (s .org).rows),
    ("plan_team", count (fun o => decide (o.plan = .team)) (s .org).rows),
    ("plan_enterprise", count (fun o => decide (o.plan = .enterprise)) (s .org).rows),
    ("total_tasks", .int (s .task).rows.length), ("total_workers", .int (s .workerInstance).rows.length)]

def emailOf (s : Store) (id : Id) : Val := .text (((s .appUser).get? (id, 0)).map (·.email))

def adminOrgVal (s : Store) (o : Org) : Val :=
  .obj [("id", .str o.id), ("name", .str o.name), ("plan", .enum o.plan), ("created_at", .time "YYYY-MM-DD" o.createdAt),
    ("owner_email", emailOf s o.ownerUserId),
    ("members", count (fun m => decide (m.orgId = o.id ∧ m.status = .active)) (s .membership).rows),
    ("workers", count (fun w => decide (w.orgId = o.id)) (s .workerInstance).rows),
    ("tasks", count (fun t => decide (t.orgId = o.id)) (s .task).rows),
    ("suspended", .str (if o.suspended = some true then "true" else "false"))]

def adminUserVal (v : AppUser) (m : Option Membership) : Val :=
  .obj [("id", .str v.id), ("email", .str v.email), ("name", .text v.name), ("status", .enum v.status),
    ("created_at", .time "YYYY-MM-DD" v.createdAt), ("org_id", .text (m.map (·.orgId))),
    ("role", .text (m.map fun m => PgEnum.text m.permissionTier))]

/-- `LEFT JOIN membership … AND m.status='active'`. -/
def adminUsersVal (s : Store) : List Val :=
  (s .appUser).rows.flatMap fun v =>
    match (s .membership).rows.filter fun m => decide (m.userId = v.id ∧ m.status = .active) with
    | [] => [adminUserVal v none]
    | ms => ms.map fun m => adminUserVal v (some m)

def adminAuditVal (s : Store) (pre : String) (limit : Int) : List Val :=
  (((s .auditLog).rows.filter fun l => Text.hasPrefix l.action pre).take
    (if limit ≤ 0 ∨ limit > 500 then 100 else limit.toNat)).map fun l =>
      .obj [("id", .str l.id), ("action", .str l.action), ("target_type", .text l.targetType),
        ("target_id", .text l.targetId), ("occurred_at", .time isoFmt l.occurredAt), ("org_id", .str l.orgId),
        ("org_name", .text (((s .org).get? (l.orgId, 0)).map (·.name))), ("actor_type", .enum l.actorType),
        ("actor_id", .text l.actorId), ("actor_email", emailOf s (l.actorId.getD ""))]
where isoFmt := DB.isoFmt

/-- In the order of the plans. -/
def adminPlansVal (s : Store) : List Val :=
  (PgEnum.values : List OrgPlan).filterMap fun p =>
    ((s .planCatalog).get? (PgEnum.text p, 0)).map fun c =>
      let orgs := (s .org).rows.filter fun o => decide (o.plan = p)
      .obj [("plan", .enum p), ("price_cents", optInt c.priceCents), ("currency", .str c.currency),
        ("max_workers", optInt c.maxWorkers), ("weekly_worker_hours", optInt c.weeklyWorkerHours),
        ("max_members", optInt c.maxMembers), ("orgs", .int orgs.length),
        ("seats", count (fun m => decide (m.status = .active) && orgs.any fun o => decide (o.id = m.orgId))
          (s .membership).rows)]

def tierRank : PermissionTier → Nat
  | .owner => 0
  | .admin => 1
  | _ => 2

/-- `JOIN app_user`, ordered by tier and e-mail. -/
def adminMembersVal (s : Store) (orgID : Id) : List Val :=
  let ms := (s .membership).rows.filterMap fun m =>
    if m.orgId = orgID ∧ m.status ≠ .removed then ((s .appUser).get? (m.userId, 0)).map fun v => (m, v) else none
  let sorted := ms.mergeSort fun x y =>
    decide (tierRank x.1.permissionTier < tierRank y.1.permissionTier) ||
      (decide (tierRank x.1.permissionTier = tierRank y.1.permissionTier) && decide (¬ y.2.email < x.2.email))
  sorted.map fun q =>
    .obj [("id", .str q.2.id), ("email", .str q.2.email), ("name", .text q.2.name), ("status", .enum q.2.status),
      ("role", .enum q.1.permissionTier), ("membership", .enum q.1.status)]

def adminTasksVal (s : Store) (orgID : Id) (limit : Nat) : List Val :=
  (((s .task).rows.filter fun t => decide (t.orgId = orgID)).take limit).map fun t =>
    .obj [("id", .str t.id), ("title", .str t.title), ("status", .enum t.status),
      ("created_at", .time DB.isoFmt t.createdAt)]

/-- A screen that only reads. -/
def adminScreen (name : String) (f : Store → Response) : Cmd Response :=
  superadmin u do
    match ← read name f with
    | .ok v => pure v
    | .error e => pure (internal e)

def adminStats : Cmd Response := adminScreen u "AdminStats" fun s => writeJSON 200 (adminStatsVal s)

def adminOrgs : Cmd Response :=
  adminScreen u "AdminListOrgs" fun s => dataOf ((s .org).rows.map (adminOrgVal s))

def adminUsers : Cmd Response := adminScreen u "AdminListUsers" fun s => dataOf (adminUsersVal s)

def adminPlans : Cmd Response := adminScreen u "AdminPlanCatalog" fun s => dataOf (adminPlansVal s)

/-- `strconv.Atoi` whose error is dropped. -/
def atoi (s : String) : Int := (Stripe.parseInt s).getD 0

def adminAudit : Cmd Response :=
  adminScreen u "AdminListAudit" fun s =>
    dataOf (adminAuditVal s (if r.get "scope" = "admin" then "admin." else "") (atoi (r.get "limit")))

def adminOrgDetail (orgID : Id) : Cmd Response :=
  adminScreen u "AdminOrgInfo" fun s =>
    match (s .org).get? (orgID, 0) with
    | none => fail 404 "not_found" "org não encontrada"
    | some o =>
        writeJSON 200 (.obj [("org", adminOrgVal s o), ("members", .arr (adminMembersVal s orgID)),
          ("tasks", .arr (adminTasksVal s orgID 20))])

/-! ## Actions -/

def adminSuspendOrg (orgID : Id) (suspend : Bool) : Cmd (Except DbErr Unit) :=
  exec "AdminSuspendOrg" fun _ s =>
    (update .all .org (fun o => decide (o.id = orgID)) (fun o => { o with suspended := some suspend }) s).map
      fun q => (q.1, ())

def adminSetUserStatus (userID : Id) (status : UserStatus) : Cmd (Except DbErr Unit) :=
  exec "AdminSetUserStatus" fun _ s =>
    (update .all .appUser (fun v => decide (v.id = userID)) (fun v => { v with status := status }) s).map
      fun q => (q.1, ())

/-- `WriteAudit` for the org that an action is about. -/
def adminRecord (orgID : Id) (action targetType targetID : String) : Cmd Unit :=
  (DB.writeAudit (B := orgID) (T := settings) u.userID action targetType targetID settings_auditLog).cmd a.server.rls

/-- What an action answers to the outcome of its statement, after the audit. -/
def adminAnswer (res : Except DbErr Unit) (audit : Cmd Unit) (v : Val) : Cmd Response :=
  match res with
  | .error e => pure (internal e)
  | .ok () => do
      audit
      pure (writeJSON 200 v)

def adminPlan (orgID : Id) : Cmd Response := do
  let (b, ok) := planBody r
  if !ok then pure (fail 400 "bad_request" "json inválido")
  else if (PgEnum.ofText? b.plan : Option OrgPlan).isNone then pure (fail 400 "bad_request" "plano inválido")
  else do
    let res ← DB.adminSetOrgPlan orgID b.plan
    adminAnswer res (a.adminRecord u orgID "admin.set_plan" "org" b.plan)
      (.obj [("org_id", .str orgID), ("plan", .str b.plan)])

def adminSuspend (orgID : Id) (suspend : Bool) : Cmd Response := do
  let res ← adminSuspendOrg orgID suspend
  adminAnswer res (a.adminRecord u orgID (if suspend then "admin.suspend" else "admin.unsuspend") "org" orgID)
    (.obj [("org_id", .str orgID), ("suspended", .bool suspend)])

def adminOrgAction : Cmd Response :=
  superadmin u <|
    let (orgID, action) := splitAction (Text.trimPrefix r.path "/v1/admin/orgs/")
    if orgID = "" then pure (fail 404 "not_found" "informe /v1/admin/orgs/\x7bid\x7d")
    else if r.method = "GET" ∧ action = none then adminOrgDetail u orgID
    else if r.method ≠ "POST" then pure (fail 405 "method" "use POST")
    else if action.getD "" = "" then
      pure (fail 404 "not_found" "use POST /v1/admin/orgs/\x7bid\x7d/\x7bplan|suspend|unsuspend\x7d")
    else if action = some "plan" then a.adminPlan u r orgID
    else if action = some "suspend" then a.adminSuspend u orgID true
    else if action = some "unsuspend" then a.adminSuspend u orgID false
    else pure (fail 404 "not_found" "ação inválida: plan|suspend|unsuspend")

/-- `AdminUserOrg`: the org of the user's highest active membership. -/
def adminUserOrg (s : Store) (userID : Id) : Option Id :=
  let ms := (s .membership).rows.filter fun m => decide (m.userId = userID ∧ m.status = .active)
  (ms.find? fun m => ms.all fun q => decide (tierRank m.permissionTier ≤ tierRank q.permissionTier)).map (·.orgId)

def adminUserStatus (userID : Id) (action : String) (status : UserStatus) : Cmd Response := do
  if userID = u.userID then pure (fail 400 "bad_request" "não é possível alterar o próprio status")
  else do
    let res ← adminSetUserStatus userID status
    let audit : Cmd Unit := do
      let org ← read "AdminUserOrg" fun s => (adminUserOrg s userID).getD ""
      match org with
      | .ok org =>
          if org ≠ "" then a.adminRecord u org ("admin.user_" ++ action) "user" userID else pure ()
      | .error _ => pure ()
    adminAnswer res audit (.obj [("user_id", .str userID), ("status", .enum status)])

def adminUserAction : Cmd Response :=
  superadmin u <|
    if r.method ≠ "POST" then pure (fail 405 "method" "use POST")
    else
      let (userID, action) := splitAction (Text.trimPrefix r.path "/v1/admin/users/")
      if action = none ∨ userID = "" then
        pure (fail 404 "not_found" "use POST /v1/admin/users/\x7bid\x7d/\x7bsuspend|activate\x7d")
      else if action = some "suspend" then a.adminUserStatus u userID "suspend" .suspended
      else if action = some "activate" then a.adminUserStatus u userID "activate" .active
      else pure (fail 404 "not_found" "ação inválida: suspend|activate")

end API

end Apifor
