import HookExecutor.Database
import HookExecutor.Migration
import HookExecutor.Lib.Statement

/-!
# The statements on the tables

The columns of each entity, how a row is read back, and what each statement of the
service asks of the engine. A statement says which columns it writes and which rows
it selects; what it may not do is up to the schema the migrations have left.
-/

namespace HookExecutor

open Relational (Fault)

/-! ### Values -/

namespace Value

def asUuid : Value → Option Uuid
  | uuid id => some id
  | _ => none

def asText : Value → Option String
  | text s => some s
  | _ => none

def asInt : Value → Option Int
  | int n => some n
  | _ => none

def asBool : Value → Option Bool
  | bool b => some b
  | _ => none

def asDateTime : Value → Option DateTime
  | dateTime t => some t
  | _ => none

end Value

def HmacMode.stringValue : HmacMode → String
  | canonicalV1 => "CANONICAL_V1"

def HmacMode.ofString : String → Option HmacMode
  | "CANONICAL_V1" => some .canonicalV1
  | _ => none

def AuthMode.stringValue : AuthMode → String
  | canonicalV1 => "CANONICAL_V1"
  | apiKeyOnly => "API_KEY_ONLY"
  | hmacOnly => "HMAC_ONLY"
  | noAuth => "NONE"

def AuthMode.ofString : String → Option AuthMode
  | "CANONICAL_V1" => some .canonicalV1
  | "API_KEY_ONLY" => some .apiKeyOnly
  | "HMAC_ONLY" => some .hmacOnly
  | "NONE" => some .noAuth
  | _ => none

def ExecutionStatus.stringValue : ExecutionStatus → String
  | success => "SUCCESS"
  | failed => "FAILED"
  | timeout => "TIMEOUT"

def ExecutionStatus.ofString : String → Option ExecutionStatus
  | "SUCCESS" => some .success
  | "FAILED" => some .failed
  | "TIMEOUT" => some .timeout
  | _ => none

/-! ### Rows -/

/-- The columns an `INSERT` sets. -/
abbrev Cells := List (ColumnName × Option Value)

/-- The columns of an entity, each set or left as it is. -/
abbrev ActiveModel := List (ColumnName × Option (Option Value))

/-- The columns an `UPDATE` sets. -/
def ActiveModel.cells (model : ActiveModel) : Cells :=
  model.filterMap fun entry => entry.2.map fun value => (entry.1, value)

def Cells.row (cells : Cells) : StoredRow := fun c => (cells.lookup c).join

namespace StoredRow

def get {α : Type} (row : StoredRow) (c : ColumnName) (read : Value → Option α) : Option α :=
  (row c).bind read

/-- A column that may be NULL. -/
def get? {α : Type} (row : StoredRow) (c : ColumnName) (read : Value → Option α) :
    Option (Option α) :=
  match row c with
  | none => some none
  | some v => (read v).map some

end StoredRow

namespace ApiKey

def cells (k : ApiKey) : Cells :=
  [(.id, some (.uuid k.id)),
    (.name, some (.text k.name)),
    (.keyHash, some (.text k.keyHash)),
    (.prefixText, some (.text k.prefixText)),
    (.keyId, k.keyId.map .text),
    (.signingSecret, k.signingSecret.map .text),
    (.hmacMode, some (.text k.hmacMode.stringValue)),
    (.boundIps, k.boundIps.map .text),
    (.maxConcurrentJobs, some (.int k.maxConcurrentJobs)),
    (.isMaster, some (.bool k.isMaster)),
    (.canManageKeys, some (.bool k.canManageKeys)),
    (.canManageHooks, some (.bool k.canManageHooks)),
    (.parentKeyId, k.parentKeyId.map .uuid),
    (.createdAt, some (.dateTime k.createdAt)),
    (.updatedAt, some (.dateTime k.updatedAt)),
    (.canonicalTemplate, k.canonicalTemplate.map .text)]

def row (k : ApiKey) : StoredRow := k.cells.row

def fromRow (row : StoredRow) : Option ApiKey := do
  return {
    id := ← StoredRow.get row .id Value.asUuid
    name := ← StoredRow.get row .name Value.asText
    keyHash := ← StoredRow.get row .keyHash Value.asText
    prefixText := ← StoredRow.get row .prefixText Value.asText
    keyId := ← StoredRow.get? row .keyId Value.asText
    signingSecret := ← StoredRow.get? row .signingSecret Value.asText
    hmacMode := ← (← StoredRow.get row .hmacMode Value.asText) |> HmacMode.ofString
    boundIps := ← StoredRow.get? row .boundIps Value.asText
    maxConcurrentJobs := ← StoredRow.get row .maxConcurrentJobs Value.asInt
    isMaster := ← StoredRow.get row .isMaster Value.asBool
    canManageKeys := ← StoredRow.get row .canManageKeys Value.asBool
    canManageHooks := ← StoredRow.get row .canManageHooks Value.asBool
    parentKeyId := ← StoredRow.get? row .parentKeyId Value.asUuid
    createdAt := ← StoredRow.get row .createdAt Value.asDateTime
    updatedAt := ← StoredRow.get row .updatedAt Value.asDateTime
    canonicalTemplate := ← StoredRow.get? row .canonicalTemplate Value.asText }

end ApiKey

namespace Hook

def cells (h : Hook) : Cells :=
  [(.id, some (.uuid h.id)),
    (.name, some (.text h.name)),
    (.description, h.description.map .text),
    (.scriptPath, some (.text h.scriptPath)),
    (.defaultTimeoutSeconds, some (.int h.defaultTimeoutSeconds)),
    (.runAsUser, h.runAsUser.map .text),
    (.ownerKeyId, h.ownerKeyId.map .uuid),
    (.isDeleted, some (.bool h.isDeleted)),
    (.deletedAt, h.deletedAt.map .dateTime),
    (.deletedBy, h.deletedBy.map .text),
    (.createdAt, some (.dateTime h.createdAt)),
    (.updatedAt, some (.dateTime h.updatedAt)),
    (.authMode, some (.text h.authMode.stringValue)),
    (.hmacSecret, h.hmacSecret.map .text),
    (.signatureHeader, h.signatureHeader.map .text),
    (.signaturePrefix, h.signaturePrefix.map .text),
    (.canonicalTemplate, h.canonicalTemplate.map .text),
    (.samplePayloadJson, h.samplePayloadJson.map .text),
    (.argsTemplate, h.argsTemplate.map .text)]

def row (h : Hook) : StoredRow := h.cells.row

def fromRow (row : StoredRow) : Option Hook := do
  return {
    id := ← StoredRow.get row .id Value.asUuid
    name := ← StoredRow.get row .name Value.asText
    description := ← StoredRow.get? row .description Value.asText
    scriptPath := ← StoredRow.get row .scriptPath Value.asText
    defaultTimeoutSeconds := ← StoredRow.get row .defaultTimeoutSeconds Value.asInt
    runAsUser := ← StoredRow.get? row .runAsUser Value.asText
    ownerKeyId := ← StoredRow.get? row .ownerKeyId Value.asUuid
    isDeleted := ← StoredRow.get row .isDeleted Value.asBool
    deletedAt := ← StoredRow.get? row .deletedAt Value.asDateTime
    deletedBy := ← StoredRow.get? row .deletedBy Value.asText
    createdAt := ← StoredRow.get row .createdAt Value.asDateTime
    updatedAt := ← StoredRow.get row .updatedAt Value.asDateTime
    authMode := ← (← StoredRow.get row .authMode Value.asText) |> AuthMode.ofString
    hmacSecret := ← StoredRow.get? row .hmacSecret Value.asText
    signatureHeader := ← StoredRow.get? row .signatureHeader Value.asText
    signaturePrefix := ← StoredRow.get? row .signaturePrefix Value.asText
    canonicalTemplate := ← StoredRow.get? row .canonicalTemplate Value.asText
    samplePayloadJson := ← StoredRow.get? row .samplePayloadJson Value.asText
    argsTemplate := ← StoredRow.get? row .argsTemplate Value.asText }

end Hook

namespace HookParameter

def cells (p : HookParameter) : Cells :=
  [(.id, some (.uuid p.id)),
    (.hookId, some (.uuid p.hookId)),
    (.paramKey, some (.text p.paramKey)),
    (.description, p.description.map .text),
    (.defaultValue, p.defaultValue.map .text),
    (.isRequired, some (.bool p.isRequired)),
    (.createdAt, some (.dateTime p.createdAt))]

def row (p : HookParameter) : StoredRow := p.cells.row

def fromRow (row : StoredRow) : Option HookParameter := do
  return {
    id := ← StoredRow.get row .id Value.asUuid
    hookId := ← StoredRow.get row .hookId Value.asUuid
    paramKey := ← StoredRow.get row .paramKey Value.asText
    description := ← StoredRow.get? row .description Value.asText
    defaultValue := ← StoredRow.get? row .defaultValue Value.asText
    isRequired := ← StoredRow.get row .isRequired Value.asBool
    createdAt := ← StoredRow.get row .createdAt Value.asDateTime }

end HookParameter

namespace Permission

def cells (p : Permission) : Cells :=
  [(.id, some (.uuid p.id)),
    (.apiKeyId, some (.uuid p.apiKeyId)),
    (.hookId, some (.uuid p.hookId)),
    (.canExecute, some (.bool p.canExecute)),
    (.canManage, some (.bool p.canManage)),
    (.canViewExecution, some (.bool p.canViewExecution)),
    (.createdAt, some (.dateTime p.createdAt))]

def row (p : Permission) : StoredRow := p.cells.row

def fromRow (row : StoredRow) : Option Permission := do
  return {
    id := ← StoredRow.get row .id Value.asUuid
    apiKeyId := ← StoredRow.get row .apiKeyId Value.asUuid
    hookId := ← StoredRow.get row .hookId Value.asUuid
    canExecute := ← StoredRow.get row .canExecute Value.asBool
    canManage := ← StoredRow.get row .canManage Value.asBool
    canViewExecution := ← StoredRow.get row .canViewExecution Value.asBool
    createdAt := ← StoredRow.get row .createdAt Value.asDateTime }

end Permission

namespace Execution

def cells (x : Execution) : Cells :=
  [(.id, some (.uuid x.id)),
    (.hookId, some (.uuid x.hookId)),
    (.apiKeyId, x.apiKeyId.map .uuid),
    (.status, some (.text x.status.stringValue)),
    (.exitCode, x.exitCode.map .int),
    (.stdout, some (.text x.stdout)),
    (.stderr, some (.text x.stderr)),
    (.parametersJson, some (.text x.parametersJson)),
    (.durationMs, some (.int x.durationMs)),
    (.timestamp, some (.dateTime x.timestamp))]

def row (x : Execution) : StoredRow := x.cells.row

def fromRow (row : StoredRow) : Option Execution := do
  return {
    id := ← StoredRow.get row .id Value.asUuid
    hookId := ← StoredRow.get row .hookId Value.asUuid
    apiKeyId := ← StoredRow.get? row .apiKeyId Value.asUuid
    status := ← (← StoredRow.get row .status Value.asText) |> ExecutionStatus.ofString
    exitCode := ← StoredRow.get? row .exitCode Value.asInt
    stdout := ← StoredRow.get row .stdout Value.asText
    stderr := ← StoredRow.get row .stderr Value.asText
    parametersJson := ← StoredRow.get row .parametersJson Value.asText
    durationMs := ← StoredRow.get row .durationMs Value.asInt
    timestamp := ← StoredRow.get row .timestamp Value.asDateTime }

end Execution

namespace AuditLog

def cells (l : AuditLog) : Cells :=
  [(.id, some (.uuid l.id)),
    (.apiKeyId, l.apiKeyId.map .uuid),
    (.apiKeyName, some (.text l.apiKeyName)),
    (.apiKeyPrefix, some (.text l.apiKeyPrefix)),
    (.clientIp, some (.text l.clientIp)),
    (.action, some (.text l.action)),
    (.targetResource, l.targetResource.map .text),
    (.details, l.details.map .text),
    (.timestamp, some (.dateTime l.timestamp))]

def row (l : AuditLog) : StoredRow := l.cells.row

def fromRow (row : StoredRow) : Option AuditLog := do
  return {
    id := ← StoredRow.get row .id Value.asUuid
    apiKeyId := ← StoredRow.get? row .apiKeyId Value.asUuid
    apiKeyName := ← StoredRow.get row .apiKeyName Value.asText
    apiKeyPrefix := ← StoredRow.get row .apiKeyPrefix Value.asText
    clientIp := ← StoredRow.get row .clientIp Value.asText
    action := ← StoredRow.get row .action Value.asText
    targetResource := ← StoredRow.get? row .targetResource Value.asText
    details := ← StoredRow.get? row .details Value.asText
    timestamp := ← StoredRow.get row .timestamp Value.asDateTime }

end AuditLog

/-! ### Partial updates -/

def ApiKeyUpdate.activeModel (u : ApiKeyUpdate) : ActiveModel :=
  [(.name, u.name.map fun s => some (.text s)),
    (.keyHash, u.keyHash.map fun s => some (.text s)),
    (.prefixText, u.prefixText.map fun s => some (.text s)),
    (.keyId, u.keyId.map fun s => s.map .text),
    (.signingSecret, u.signingSecret.map fun s => s.map .text),
    (.boundIps, u.boundIps.map fun s => s.map .text),
    (.maxConcurrentJobs, u.maxConcurrentJobs.map fun n => some (.int n)),
    (.canManageKeys, u.canManageKeys.map fun b => some (.bool b)),
    (.canManageHooks, u.canManageHooks.map fun b => some (.bool b)),
    (.canonicalTemplate, u.canonicalTemplate.map fun s => s.map .text),
    (.updatedAt, some (some (.dateTime u.updatedAt)))]

def HookUpdate.activeModel (u : HookUpdate) : ActiveModel :=
  [(.name, u.name.map fun s => some (.text s)),
    (.description, u.description.map fun s => s.map .text),
    (.scriptPath, u.scriptPath.map fun s => some (.text s)),
    (.defaultTimeoutSeconds, u.defaultTimeoutSeconds.map fun n => some (.int n)),
    (.runAsUser, u.runAsUser.map fun s => s.map .text),
    (.ownerKeyId, u.ownerKeyId.map fun id => id.map .uuid),
    (.isDeleted, u.isDeleted.map fun b => some (.bool b)),
    (.deletedAt, u.deletedAt.map fun t => t.map .dateTime),
    (.deletedBy, u.deletedBy.map fun s => s.map .text),
    (.authMode, u.authMode.map fun mode => some (.text mode.stringValue)),
    (.hmacSecret, u.hmacSecret.map fun s => s.map .text),
    (.signatureHeader, u.signatureHeader.map fun s => s.map .text),
    (.signaturePrefix, u.signaturePrefix.map fun s => s.map .text),
    (.canonicalTemplate, u.canonicalTemplate.map fun s => s.map .text),
    (.samplePayloadJson, u.samplePayloadJson.map fun s => s.map .text),
    (.argsTemplate, u.argsTemplate.map fun s => s.map .text),
    (.updatedAt, some (some (.dateTime u.updatedAt)))]

def HookParameterUpdate.activeModel (u : HookParameterUpdate) : ActiveModel :=
  [(.description, u.description.map fun s => s.map .text),
    (.defaultValue, u.defaultValue.map fun s => s.map .text),
    (.isRequired, u.isRequired.map fun b => some (.bool b))]

/-! ### Conditions -/

namespace StoredRow

def eq (row : StoredRow) (c : ColumnName) (v : Value) : Bool := row c == some v

def isIn (row : StoredRow) (c : ColumnName) (vs : List Value) : Bool := (row c).any vs.contains

def matches_ (row : StoredRow) (c : ColumnName) (p : String → Bool) : Bool :=
  ((row c).bind Value.asText).any p

def before (row : StoredRow) (c : ColumnName) (t : DateTime) : Bool :=
  ((row c).bind Value.asDateTime).any fun s => s < t

def since (row : StoredRow) (c : ColumnName) (t : DateTime) : Bool :=
  ((row c).bind Value.asDateTime).any fun s => t ≤ s

end StoredRow

def ApiKeyCondition.onRow : ApiKeyCondition → StoredRow → Bool
  | all, _ => true
  | idEq id, row => StoredRow.eq row .id (.uuid id)
  | idIn ids, row => StoredRow.isIn row .id (ids.map .uuid)
  | keyHashEq hash, row => StoredRow.eq row .keyHash (.text hash)
  | isMaster, row => StoredRow.eq row .isMaster (.bool true)
  | parentKeyIdIn ids, row => StoredRow.isIn row .parentKeyId (ids.map .uuid)
  | nameLike p, row => StoredRow.matches_ row .name p

def HookCondition.onRow : HookCondition → StoredRow → Bool
  | all, _ => true
  | idEq id, row => StoredRow.eq row .id (.uuid id)
  | idIn ids, row => StoredRow.isIn row .id (ids.map .uuid)
  | nameEq name, row => StoredRow.eq row .name (.text name)
  | isDeleted flag, row => StoredRow.eq row .isDeleted (.bool flag)
  | ownerKeyIdIn ids, row => StoredRow.isIn row .ownerKeyId (ids.map .uuid)
  | deletedBefore threshold, row => StoredRow.before row .deletedAt threshold
  | and p q, row => p.onRow row && q.onRow row

def PermissionCondition.onRow : PermissionCondition → StoredRow → Bool
  | apiKeyIdEq id, row => StoredRow.eq row .apiKeyId (.uuid id)
  | hookIdEq id, row => StoredRow.eq row .hookId (.uuid id)
  | hookIdIn ids, row => StoredRow.isIn row .hookId (ids.map .uuid)
  | canExecute, row => StoredRow.eq row .canExecute (.bool true)
  | canManage, row => StoredRow.eq row .canManage (.bool true)
  | canViewExecution, row => StoredRow.eq row .canViewExecution (.bool true)
  | and p q, row => p.onRow row && q.onRow row
  | or p q, row => p.onRow row || q.onRow row

def ExecutionCondition.onRow : ExecutionCondition → StoredRow → Bool
  | all, _ => true
  | idEq id, row => StoredRow.eq row .id (.uuid id)
  | hookIdEq id, row => StoredRow.eq row .hookId (.uuid id)
  | hookIdIn ids, row => StoredRow.isIn row .hookId (ids.map .uuid)
  | apiKeyIdEq id, row => StoredRow.eq row .apiKeyId (.uuid id)
  | apiKeyIdIn ids, row => StoredRow.isIn row .apiKeyId (ids.map .uuid)
  | statusEq status, row => StoredRow.eq row .status (.text status.stringValue)
  | since t, row => StoredRow.since row .timestamp t
  | before t, row => StoredRow.before row .timestamp t
  | and p q, row => p.onRow row && q.onRow row
  | or p q, row => p.onRow row || q.onRow row

def AuditLogCondition.onRow : AuditLogCondition → StoredRow → Bool
  | all, _ => true
  | actionEq action, row => StoredRow.eq row .action (.text action)
  | clientIpLike p, row => StoredRow.matches_ row .clientIp p
  | apiKeyIdIn ids, row => StoredRow.isIn row .apiKeyId (ids.map .uuid)
  | since t, row => StoredRow.since row .timestamp t
  | before t, row => StoredRow.before row .timestamp t
  | and p q, row => p.onRow row && q.onRow row

/-! ### Orders -/

/-- The values a statement orders by are times and texts. -/
def Value.le : Value → Value → Bool
  | dateTime s, dateTime t => s ≤ t
  | text s, text t => s.toList ≤ t.toList
  | _, _ => false

/-- `ORDER BY` a list of columns. -/
def sortsBefore : List ColumnName → StoredRow → StoredRow → Bool
  | [], _, _ => true
  | c :: rest, r, s =>
    if r c = s c then sortsBefore rest r s
    else (r c).any fun v => (s c).any fun w => v.le w

def orderBy (columns : List ColumnName) (rows : List StoredRow) : List StoredRow :=
  rows.insertionSort fun r s => sortsBefore columns r s = true

def orderByDesc (columns : List ColumnName) (rows : List StoredRow) : List StoredRow :=
  rows.insertionSort fun r s => sortsBefore columns s r = true

def ApiKeyOrder.onRows : ApiKeyOrder → List StoredRow → List StoredRow
  | unordered => id
  | byCreatedAt => orderBy [.createdAt]

def HookOrder.onRows : HookOrder → List StoredRow → List StoredRow
  | unordered => id
  | byName => orderBy [.name]

def PermissionColumn.column : PermissionColumn → ColumnName
  | canExecute => .canExecute
  | canManage => .canManage
  | canViewExecution => .canViewExecution

/-! ### Statements -/

def DbErr.ofFault : Fault → DbErr
  | .unique => .uniqueConstraintViolation
  | .foreignKey => .foreignKeyConstraintViolation
  | .column => .other "a value does not fit its column"
  | .alreadyThere => .other "already exists"
  | .missing => .other "no such table or column"
  | .inUse => .other "still in use"

/-- The rows of an answer, if every one of them can be read. -/
def readRows {ρ α : Type} (fromRow : ρ → Option α) (rows : List ρ) : Except DbErr (List α) :=
  match rows.mapM fromRow with
  | some answers => .ok answers
  | none => .error (.other "a column could not be read")

/-- The answer of a write that was not refused. -/
def written {β : Type} (a : β) (result : Except Fault Unit × StoredDb) :
    Except DbErr β × StoredDb :=
  match result with
  | (.ok (), db) => (.ok a, db)
  | (.error f, db) => (.error (.ofFault f), db)

/-- `UPDATE … WHERE id = …`, answered with the row it leaves. -/
def updateRow {α : Type} (name : TableName) (fromRow : StoredRow → Option α) (id : Uuid)
    (model : ActiveModel) (db : StoredDb) : Except DbErr α × StoredDb :=
  match db.update name (fun row => StoredRow.eq row .id (.uuid id)) model.cells with
  | (.error f, db) => (.error (.ofFault f), db)
  | (.ok (), db) =>
    match readRows fromRow (db.select name fun row => StoredRow.eq row .id (.uuid id)) with
    | .ok [] => (.error .recordNotUpdated, db)
    | .ok (answer :: _) => (.ok answer, db)
    | .error e => (.error e, db)

/-- `DELETE`, answered with the number of rows it selects. -/
def deleteRows (name : TableName) (p : StoredRow → Bool) (db : StoredDb) :
    Except DbErr Nat × StoredDb :=
  (.ok (db.select name p).length, db.delete name p)

/-- `LEFT JOIN hooks ON hooks.id = hook_id`. -/
def joinHooks (db : StoredDb) (rows : List StoredRow) : List (StoredRow × Option StoredRow) :=
  rows.flatMap fun row =>
    match db.select .hooks fun hook => (hook .id).isSome && hook .id == row .hookId with
    | [] => [(row, none)]
    | hooks => hooks.map fun hook => (row, some hook)

def readJoined {α : Type} (fromRow : StoredRow → Option α) (row : StoredRow × Option StoredRow) :
    Option (α × Option Hook) := do
  let a ← fromRow row.1
  match row.2 with
  | none => return (a, none)
  | some hook => return (a, some (← Hook.fromRow hook))

/-- What a statement does to the tables. -/
def Stmt.onTables : {β : Type} → Stmt β → StoredDb → Except DbErr β × StoredDb
  | _, selectApiKeys c o, db =>
    (readRows ApiKey.fromRow (o.onRows (db.select .apiKeys c.onRow)), db)
  | _, insertApiKey row, db => written () (db.insert .apiKeys row.cells)
  | _, updateApiKey id u, db => updateRow .apiKeys ApiKey.fromRow id u.activeModel db
  | _, deleteApiKeys c, db => deleteRows .apiKeys c.onRow db
  | _, selectHooks c o, db => (readRows Hook.fromRow (o.onRows (db.select .hooks c.onRow)), db)
  | _, insertHook row, db => written () (db.insert .hooks row.cells)
  | _, updateHook id u, db => updateRow .hooks Hook.fromRow id u.activeModel db
  | _, updateHooks c u, db =>
    written (db.select .hooks c.onRow).length (db.update .hooks c.onRow u.activeModel.cells)
  | _, deleteHooks c, db => deleteRows .hooks c.onRow db
  | _, selectHookParameters hookId, db =>
    (readRows HookParameter.fromRow (orderBy [.createdAt, .paramKey]
      (db.select .hookParameters fun row => StoredRow.eq row .hookId (.uuid hookId))), db)
  | _, findHookParameter id, db =>
    ((readRows HookParameter.fromRow
      (db.select .hookParameters fun row => StoredRow.eq row .id (.uuid id))).map (·.head?), db)
  | _, insertHookParameter row, db => written () (db.insert .hookParameters row.cells)
  | _, updateHookParameter id u, db =>
    updateRow .hookParameters HookParameter.fromRow id u.activeModel db
  | _, deleteHookParameter id, db =>
    deleteRows .hookParameters (fun row => StoredRow.eq row .id (.uuid id)) db
  | _, selectPermissions c, db =>
    (readRows Permission.fromRow (db.select .apiKeyHookPermissions c.onRow), db)
  | _, selectPermissionsWithHook c, db =>
    (readRows (readJoined Permission.fromRow)
      (joinHooks db (db.select .apiKeyHookPermissions c.onRow)), db)
  | _, upsertPermission row columns, db =>
    written () (db.upsert .apiKeyHookPermissions row.cells [.apiKeyId, .hookId]
      (columns.map (·.column)))
  | _, deletePermissions c, db => deleteRows .apiKeyHookPermissions c.onRow db
  | _, selectExecutions c, db =>
    (readRows Execution.fromRow (db.select .executions c.onRow), db)
  | _, selectExecutionsWithHook c page, db =>
    (readRows (readJoined Execution.fromRow)
      (page.slice (joinHooks db (orderByDesc [.timestamp] (db.select .executions c.onRow)))), db)
  | _, insertExecution row, db => written () (db.insert .executions row.cells)
  | _, deleteExecutions c, db => deleteRows .executions c.onRow db
  | _, insertAuditLog row, db => written () (db.insert .auditLogs row.cells)
  | _, selectAuditLogs c page, db =>
    (readRows AuditLog.fromRow
      (page.slice (orderByDesc [.timestamp] (db.select .auditLogs c.onRow))), db)

end HookExecutor
