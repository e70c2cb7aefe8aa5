import Mathlib.Data.List.Sort
import HookExecutor.Error

/-!
# The database

The tables, the conditions a statement can select rows by, and the statements
the service issues. A statement is atomic; it either takes effect and answers,
or fails and changes nothing. The constraints it can trip over are the ones the
migrations declare:

* every table has a primary key;
* `api_keys.key_hash`, `api_keys.key_id`, the derived master marker and
  `hooks.name` are unique, as are `(hook_id, param_key)` and
  `(api_key_id, hook_id)`;
* deleting a key cascades to its permissions and sets `api_key_id` to NULL in
  executions and audit rows; deleting a hook cascades to its parameters,
  permissions and executions.

`hooks.owner_key_id` and `api_keys.parent_key_id` are bare columns: no foreign
key protects them.
-/

namespace HookExecutor

structure Database where
  apiKeys : List ApiKey
  hooks : List Hook
  hookParameters : List HookParameter
  permissions : List Permission
  executions : List Execution
  auditLogs : List AuditLog
  deriving DecidableEq

/-! ### Conditions -/

inductive ApiKeyCondition where
  | all
  | idEq (id : Uuid)
  | idIn (ids : List Uuid)
  | keyHashEq (hash : String)
  | isMaster
  | parentKeyIdIn (ids : List Uuid)
  | nameLike (matches_ : String → Bool)

def ApiKeyCondition.holds : ApiKeyCondition → ApiKey → Bool
  | all, _ => true
  | idEq id, k => k.id == id
  | idIn ids, k => ids.contains k.id
  | keyHashEq hash, k => k.keyHash == hash
  | isMaster, k => k.isMaster
  | parentKeyIdIn ids, k => k.parentKeyId.any ids.contains
  | nameLike matches_, k => matches_ k.name

inductive HookCondition where
  | all
  | idEq (id : Uuid)
  | idIn (ids : List Uuid)
  | nameEq (name : String)
  | isDeleted (flag : Bool)
  | ownerKeyIdIn (ids : List Uuid)
  | deletedBefore (threshold : DateTime)
  | and (p q : HookCondition)

def HookCondition.holds : HookCondition → Hook → Bool
  | all, _ => true
  | idEq id, h => h.id == id
  | idIn ids, h => ids.contains h.id
  | nameEq name, h => h.name == name
  | isDeleted flag, h => h.isDeleted == flag
  | ownerKeyIdIn ids, h => h.ownerKeyId.any ids.contains
  | deletedBefore threshold, h => h.deletedAt.any fun t => t < threshold
  | and p q, h => p.holds h && q.holds h

inductive PermissionCondition where
  | apiKeyIdEq (id : Uuid)
  | hookIdEq (id : Uuid)
  | hookIdIn (ids : List Uuid)
  | canExecute
  | canManage
  | canViewExecution
  | and (p q : PermissionCondition)
  | or (p q : PermissionCondition)

def PermissionCondition.holds : PermissionCondition → Permission → Bool
  | apiKeyIdEq id, p => p.apiKeyId == id
  | hookIdEq id, p => p.hookId == id
  | hookIdIn ids, p => ids.contains p.hookId
  | canExecute, p => p.canExecute
  | canManage, p => p.canManage
  | canViewExecution, p => p.canViewExecution
  | and c d, p => c.holds p && d.holds p
  | or c d, p => c.holds p || d.holds p

inductive ExecutionCondition where
  | all
  | idEq (id : Uuid)
  | hookIdEq (id : Uuid)
  | hookIdIn (ids : List Uuid)
  | apiKeyIdEq (id : Uuid)
  | apiKeyIdIn (ids : List Uuid)
  | statusEq (status : ExecutionStatus)
  | since (t : DateTime)
  | before (t : DateTime)
  | and (p q : ExecutionCondition)
  | or (p q : ExecutionCondition)

def ExecutionCondition.holds : ExecutionCondition → Execution → Bool
  | all, _ => true
  | idEq id, x => x.id == id
  | hookIdEq id, x => x.hookId == id
  | hookIdIn ids, x => ids.contains x.hookId
  | apiKeyIdEq id, x => x.apiKeyId == some id
  | apiKeyIdIn ids, x => x.apiKeyId.any ids.contains
  | statusEq status, x => x.status == status
  | since t, x => t ≤ x.timestamp
  | before t, x => x.timestamp < t
  | and p q, x => p.holds x && q.holds x
  | or p q, x => p.holds x || q.holds x

inductive AuditLogCondition where
  | all
  | actionEq (action : String)
  | clientIpLike (matches_ : String → Bool)
  | apiKeyIdIn (ids : List Uuid)
  | since (t : DateTime)
  | before (t : DateTime)
  | and (p q : AuditLogCondition)

def AuditLogCondition.holds : AuditLogCondition → AuditLog → Bool
  | all, _ => true
  | actionEq action, l => l.action == action
  | clientIpLike matches_, l => matches_ l.clientIp
  | apiKeyIdIn ids, l => l.apiKeyId.any ids.contains
  | since t, l => t ≤ l.timestamp
  | before t, l => l.timestamp < t
  | and p q, l => p.holds l && q.holds l

/-! ### Statements -/

inductive ApiKeyOrder where
  | unordered | byCreatedAt

inductive HookOrder where
  | unordered | byName

/-- The verb columns an upsert of a permission row overwrites on conflict. -/
inductive PermissionColumn where
  | canExecute | canManage | canViewExecution
  deriving DecidableEq

structure Page where
  limit : Nat
  offset : Nat

def Page.slice {α : Type} (page : Page) (rows : List α) : List α :=
  (rows.drop page.offset).take page.limit

/-- One SQL statement, indexed by what it answers when it does not fail. -/
inductive Stmt : Type → Type where
  | selectApiKeys (c : ApiKeyCondition) (o : ApiKeyOrder) : Stmt (List ApiKey)
  | insertApiKey (row : ApiKey) : Stmt Unit
  | updateApiKey (id : Uuid) (u : ApiKeyUpdate) : Stmt ApiKey
  | deleteApiKeys (c : ApiKeyCondition) : Stmt Nat
  | selectHooks (c : HookCondition) (o : HookOrder) : Stmt (List Hook)
  | insertHook (row : Hook) : Stmt Unit
  | updateHook (id : Uuid) (u : HookUpdate) : Stmt Hook
  | updateHooks (c : HookCondition) (u : HookUpdate) : Stmt Nat
  | deleteHooks (c : HookCondition) : Stmt Nat
  | selectHookParameters (hookId : Uuid) : Stmt (List HookParameter)
  | findHookParameter (id : Uuid) : Stmt (Option HookParameter)
  | insertHookParameter (row : HookParameter) : Stmt Unit
  | updateHookParameter (id : Uuid) (u : HookParameterUpdate) : Stmt HookParameter
  | deleteHookParameter (id : Uuid) : Stmt Nat
  | selectPermissions (c : PermissionCondition) : Stmt (List Permission)
  | selectPermissionsWithHook (c : PermissionCondition) : Stmt (List (Permission × Option Hook))
  | upsertPermission (row : Permission) (columns : List PermissionColumn) : Stmt Unit
  | deletePermissions (c : PermissionCondition) : Stmt Nat
  | selectExecutions (c : ExecutionCondition) : Stmt (List Execution)
  | selectExecutionsWithHook (c : ExecutionCondition) (page : Page) :
      Stmt (List (Execution × Option Hook))
  | insertExecution (row : Execution) : Stmt Unit
  | deleteExecutions (c : ExecutionCondition) : Stmt Nat
  | insertAuditLog (row : AuditLog) : Stmt Unit
  | selectAuditLogs (c : AuditLogCondition) (page : Page) : Stmt (List AuditLog)

/-! ### What a statement does -/

/-- Declaration order: by creation time, then by name. -/
def HookParameter.before (p q : HookParameter) : Prop :=
  p.createdAt < q.createdAt ∨ p.createdAt = q.createdAt ∧ p.paramKey.toList ≤ q.paramKey.toList

instance : DecidableRel HookParameter.before := fun p q => by
  unfold HookParameter.before; infer_instance

namespace Database

def orderApiKeys : ApiKeyOrder → List ApiKey → List ApiKey
  | .unordered => id
  | .byCreatedAt => List.insertionSort fun k l => k.createdAt ≤ l.createdAt

def orderHooks : HookOrder → List Hook → List Hook
  | .unordered => id
  | .byName => List.insertionSort fun h g => h.name.toList ≤ g.name.toList

def hookWithId (db : Database) (id : Uuid) : Option Hook := db.hooks.find? (·.id == id)

def hasApiKey (db : Database) (id : Uuid) : Bool := db.apiKeys.any (·.id == id)

def hasHook (db : Database) (id : Uuid) : Bool := db.hooks.any (·.id == id)

/-- The unique columns of `api_keys`; two NULLs do not collide. -/
def apiKeyCollides (k row : ApiKey) : Bool :=
  k.id == row.id || k.keyHash == row.keyHash || (row.keyId.isSome && k.keyId == row.keyId) ||
    (k.isMaster && row.isMaster)

def insertApiKey (db : Database) (row : ApiKey) : Except DbErr Unit × Database :=
  if db.apiKeys.any (apiKeyCollides · row) then (.error .uniqueConstraintViolation, db)
  else (.ok (), { db with apiKeys := db.apiKeys ++ [row] })

def updateApiKey (db : Database) (id : Uuid) (u : ApiKeyUpdate) :
    Except DbErr ApiKey × Database :=
  match db.apiKeys.find? (·.id == id) with
  | none => (.error .recordNotUpdated, db)
  | some k =>
    if db.apiKeys.any fun other => other.id != id && apiKeyCollides other (u.apply k) then
      (.error .uniqueConstraintViolation, db)
    else
      (.ok (u.apply k),
        { db with apiKeys := db.apiKeys.map fun k => if k.id == id then u.apply k else k })

/-- Permissions follow their key; history outlives it without its name. -/
def deleteApiKeys (db : Database) (c : ApiKeyCondition) : Nat × Database :=
  let gone := fun id : Uuid => db.apiKeys.any fun k => k.id == id && c.holds k
  ((db.apiKeys.filter c.holds).length,
    { db with
      apiKeys := db.apiKeys.filter fun k => !c.holds k
      permissions := db.permissions.filter fun p => !gone p.apiKeyId
      executions := db.executions.map fun x =>
        if x.apiKeyId.any gone then { x with apiKeyId := none } else x
      auditLogs := db.auditLogs.map fun l =>
        if l.apiKeyId.any gone then { l with apiKeyId := none } else l })

def insertHook (db : Database) (row : Hook) : Except DbErr Unit × Database :=
  if db.hooks.any fun h => h.id == row.id || h.name == row.name then
    (.error .uniqueConstraintViolation, db)
  else (.ok (), { db with hooks := db.hooks ++ [row] })

def updateHook (db : Database) (id : Uuid) (u : HookUpdate) : Except DbErr Hook × Database :=
  match db.hooks.find? (·.id == id) with
  | none => (.error .recordNotUpdated, db)
  | some h =>
    if db.hooks.any fun other => other.id != id && other.name == (u.apply h).name then
      (.error .uniqueConstraintViolation, db)
    else
      (.ok (u.apply h),
        { db with hooks := db.hooks.map fun h => if h.id == id then u.apply h else h })

/-- An `UPDATE` of every row a condition selects, refused as a whole if two
hooks would share a name. -/
def updateHooks (db : Database) (c : HookCondition) (u : HookUpdate) :
    Except DbErr Nat × Database :=
  let hooks := db.hooks.map fun h => if c.holds h then u.apply h else h
  if (hooks.map (·.name)).Nodup then
    (.ok (db.hooks.filter c.holds).length, { db with hooks := hooks })
  else (.error .uniqueConstraintViolation, db)

/-- Parameters, permissions and executions follow their hook. -/
def deleteHooks (db : Database) (c : HookCondition) : Nat × Database :=
  let gone := fun id : Uuid => db.hooks.any fun h => h.id == id && c.holds h
  ((db.hooks.filter c.holds).length,
    { db with
      hooks := db.hooks.filter fun h => !c.holds h
      hookParameters := db.hookParameters.filter fun p => !gone p.hookId
      permissions := db.permissions.filter fun p => !gone p.hookId
      executions := db.executions.filter fun x => !gone x.hookId })

def insertHookParameter (db : Database) (row : HookParameter) : Except DbErr Unit × Database :=
  if db.hookParameters.any fun p =>
      p.id == row.id || (p.hookId == row.hookId && p.paramKey == row.paramKey) then
    (.error .uniqueConstraintViolation, db)
  else if db.hasHook row.hookId then
    (.ok (), { db with hookParameters := db.hookParameters ++ [row] })
  else (.error .foreignKeyConstraintViolation, db)

def updateHookParameter (db : Database) (id : Uuid) (u : HookParameterUpdate) :
    Except DbErr HookParameter × Database :=
  match db.hookParameters.find? (·.id == id) with
  | none => (.error .recordNotUpdated, db)
  | some p =>
    (.ok (u.apply p),
      { db with
        hookParameters := db.hookParameters.map fun p => if p.id == id then u.apply p else p })

def deleteHookParameter (db : Database) (id : Uuid) : Nat × Database :=
  ((db.hookParameters.filter (·.id == id)).length,
    { db with hookParameters := db.hookParameters.filter (·.id != id) })

def overwritePermission (columns : List PermissionColumn) (row p : Permission) : Permission :=
  { p with
    canExecute := if columns.contains .canExecute then row.canExecute else p.canExecute
    canManage := if columns.contains .canManage then row.canManage else p.canManage
    canViewExecution :=
      if columns.contains .canViewExecution then row.canViewExecution else p.canViewExecution }

/-- `INSERT … ON CONFLICT (api_key_id, hook_id) DO UPDATE SET columns`. -/
def upsertPermission (db : Database) (row : Permission) (columns : List PermissionColumn) :
    Except DbErr Unit × Database :=
  let same := fun p : Permission => p.apiKeyId == row.apiKeyId && p.hookId == row.hookId
  if db.permissions.any same then
    (.ok (), { db with
      permissions := db.permissions.map fun p =>
        if same p then overwritePermission columns row p else p })
  else if db.permissions.any (·.id == row.id) then (.error .uniqueConstraintViolation, db)
  else if db.hasApiKey row.apiKeyId && db.hasHook row.hookId then
    (.ok (), { db with permissions := db.permissions ++ [row] })
  else (.error .foreignKeyConstraintViolation, db)

def deletePermissions (db : Database) (c : PermissionCondition) : Nat × Database :=
  ((db.permissions.filter c.holds).length,
    { db with permissions := db.permissions.filter fun p => !c.holds p })

def insertExecution (db : Database) (row : Execution) : Except DbErr Unit × Database :=
  if db.executions.any (·.id == row.id) then (.error .uniqueConstraintViolation, db)
  else if db.hasHook row.hookId && row.apiKeyId.all db.hasApiKey then
    (.ok (), { db with executions := db.executions ++ [row] })
  else (.error .foreignKeyConstraintViolation, db)

def deleteExecutions (db : Database) (c : ExecutionCondition) : Nat × Database :=
  ((db.executions.filter c.holds).length,
    { db with executions := db.executions.filter fun x => !c.holds x })

def insertAuditLog (db : Database) (row : AuditLog) : Except DbErr Unit × Database :=
  if db.auditLogs.any (·.id == row.id) then (.error .uniqueConstraintViolation, db)
  else if row.apiKeyId.all db.hasApiKey then
    (.ok (), { db with auditLogs := db.auditLogs ++ [row] })
  else (.error .foreignKeyConstraintViolation, db)

/-- Newest first. -/
def executionPage (db : Database) (c : ExecutionCondition) (page : Page) :
    List (Execution × Option Hook) :=
  page.slice (((db.executions.filter c.holds).insertionSort
    fun x y => y.timestamp ≤ x.timestamp).map fun x => (x, db.hookWithId x.hookId))

def auditLogPage (db : Database) (c : AuditLogCondition) (page : Page) : List AuditLog :=
  page.slice ((db.auditLogs.filter c.holds).insertionSort
    fun x y => y.timestamp ≤ x.timestamp)

end Database

/-- Execute one statement. -/
def Stmt.exec : {β : Type} → Stmt β → Database → Except DbErr β × Database
  | _, selectApiKeys c o, db => (.ok (Database.orderApiKeys o (db.apiKeys.filter c.holds)), db)
  | _, insertApiKey row, db => db.insertApiKey row
  | _, updateApiKey id u, db => db.updateApiKey id u
  | _, deleteApiKeys c, db => (db.deleteApiKeys c).map .ok id
  | _, selectHooks c o, db => (.ok (Database.orderHooks o (db.hooks.filter c.holds)), db)
  | _, insertHook row, db => db.insertHook row
  | _, updateHook id u, db => db.updateHook id u
  | _, updateHooks c u, db => db.updateHooks c u
  | _, deleteHooks c, db => (db.deleteHooks c).map .ok id
  | _, selectHookParameters hookId, db =>
    (.ok ((db.hookParameters.filter (·.hookId == hookId)).insertionSort HookParameter.before), db)
  | _, findHookParameter id, db => (.ok (db.hookParameters.find? (·.id == id)), db)
  | _, insertHookParameter row, db => db.insertHookParameter row
  | _, updateHookParameter id u, db => db.updateHookParameter id u
  | _, deleteHookParameter paramId, db => (db.deleteHookParameter paramId).map .ok id
  | _, selectPermissions c, db => (.ok (db.permissions.filter c.holds), db)
  | _, selectPermissionsWithHook c, db =>
    (.ok ((db.permissions.filter c.holds).map fun p => (p, db.hookWithId p.hookId)), db)
  | _, upsertPermission row columns, db => db.upsertPermission row columns
  | _, deletePermissions c, db => (db.deletePermissions c).map .ok id
  | _, selectExecutions c, db => (.ok (db.executions.filter c.holds), db)
  | _, selectExecutionsWithHook c page, db => (.ok (db.executionPage c page), db)
  | _, insertExecution row, db => db.insertExecution row
  | _, deleteExecutions c, db => (db.deleteExecutions c).map .ok id
  | _, insertAuditLog row, db => db.insertAuditLog row
  | _, selectAuditLogs c page, db => (.ok (db.auditLogPage c page), db)

end HookExecutor
