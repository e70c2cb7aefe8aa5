import HookExecutor.Entities
import HookExecutor.Lib.SchemaChange

/-!
# The migrations

The thirteen migrations, each a script of changes, and the runner that applies the
ones a database has not recorded yet. What a migration that fails half
way leaves behind depends on the transaction it runs in, and that on the engine.
-/

namespace HookExecutor

open Relational (Column Change Fault)

inductive Value where
  | uuid (id : Uuid)
  | text (s : String)
  | int (n : Int)
  | bool (b : Bool)
  | dateTime (t : DateTime)
  deriving DecidableEq

inductive TableName where
  | apiKeys | hooks | hookParameters | apiKeyHookPermissions | executions | auditLogs
  deriving DecidableEq

inductive ColumnName where
  | id | name | keyHash | prefixText | boundIps | maxConcurrentJobs | isMaster | canManageKeys
  | canManageHooks | createdAt | updatedAt | keyId | signingSecret | hmacMode | masterMarker
  | parentKeyId | ownerKeyId | canonicalTemplate
  | description | scriptPath | defaultTimeoutSeconds | runAsUser | isDeleted | deletedAt | deletedBy
  | authMode | hmacSecret | signatureHeader | signaturePrefix | samplePayloadJson | argsTemplate
  | hookId | paramKey | defaultValue | isRequired
  | apiKeyId | canExecute | canManage | canViewExecution
  | status | exitCode | stdout | stderr | parametersJson | durationMs | timestamp
  | apiKeyName | apiKeyPrefix | clientIp | action | targetResource | details
  deriving DecidableEq

namespace Value

def isUuid : Value → Bool
  | uuid _ => true
  | _ => false

def isText : Value → Bool
  | text _ => true
  | _ => false

def isInt : Value → Bool
  | int _ => true
  | _ => false

def isBool : Value → Bool
  | bool _ => true
  | _ => false

def isDateTime : Value → Bool
  | dateTime _ => true
  | _ => false

/-- What `CASE WHEN` takes for true. -/
def isTrue : Value → Bool
  | bool b => b
  | _ => false

end Value

abbrev StoredRow := Relational.Row ColumnName Value
abbrev SchemaTable := Relational.Table TableName ColumnName Value
abbrev StoredSchema := Relational.Schema TableName ColumnName Value
abbrev StoredDb := Relational.Db TableName ColumnName Value
abbrev SchemaChange := Relational.Change TableName ColumnName Value

/-! ### Columns -/

namespace ColumnDef

/-- A nullable column of one type, without a default. -/
def ofType (fits : Value → Bool) (c : ColumnName) : Column ColumnName Value :=
  ⟨c, .stored fits false none⟩

def uuid := ofType Value.isUuid
def string := ofType Value.isText
def text := ofType Value.isText
def integer := ofType Value.isInt
def boolean := ofType Value.isBool
def dateTime := ofType Value.isDateTime

end ColumnDef

open ColumnDef

/-- A migration, recorded by its name once it has been applied. -/
structure Migration where
  name : String
  up : List SchemaChange

/-! ### The initial schema -/

namespace InitialSchema

def apiKeys : SchemaTable where
  name := .apiKeys
  columns :=
    [(uuid .id).notNull,
      (string .name).notNull,
      (string .keyHash).notNull,
      (string .prefixText).notNull,
      (text .boundIps).defaultTo (.text "0.0.0.0/0,::/0"),
      (integer .maxConcurrentJobs).notNull.defaultTo (.int 10),
      (boolean .isMaster).notNull.defaultTo (.bool false),
      (boolean .canManageKeys).notNull.defaultTo (.bool false),
      (boolean .canManageHooks).notNull.defaultTo (.bool false),
      (dateTime .createdAt).notNull,
      (dateTime .updatedAt).notNull]
  uniques := [[.id], [.keyHash]]
  foreignKeys := []

def hooks : SchemaTable where
  name := .hooks
  columns :=
    [(uuid .id).notNull,
      (string .name).notNull,
      text .description,
      (string .scriptPath).notNull,
      (integer .defaultTimeoutSeconds).notNull.defaultTo (.int 30),
      (dateTime .createdAt).notNull,
      (dateTime .updatedAt).notNull]
  uniques := [[.id], [.name]]
  foreignKeys := []

def hookParameters : SchemaTable where
  name := .hookParameters
  columns :=
    [(uuid .id).notNull,
      (uuid .hookId).notNull,
      (string .paramKey).notNull,
      text .description,
      text .defaultValue,
      (boolean .isRequired).notNull.defaultTo (.bool true),
      (dateTime .createdAt).notNull]
  uniques := [[.id]]
  foreignKeys := [⟨.hookId, .hooks, .id, .cascade⟩]

def apiKeyHookPermissions : SchemaTable where
  name := .apiKeyHookPermissions
  columns :=
    [(uuid .id).notNull,
      (uuid .apiKeyId).notNull,
      (uuid .hookId).notNull,
      (boolean .canExecute).notNull.defaultTo (.bool true),
      (boolean .canManage).notNull.defaultTo (.bool false),
      (dateTime .createdAt).notNull]
  uniques := [[.id]]
  foreignKeys := [⟨.apiKeyId, .apiKeys, .id, .cascade⟩, ⟨.hookId, .hooks, .id, .cascade⟩]

def executions : SchemaTable where
  name := .executions
  columns :=
    [(uuid .id).notNull,
      (uuid .hookId).notNull,
      uuid .apiKeyId,
      (string .status).notNull,
      integer .exitCode,
      (text .stdout).notNull.defaultTo (.text ""),
      (text .stderr).notNull.defaultTo (.text ""),
      (text .parametersJson).notNull.defaultTo (.text "\x7b\x7d"),
      (integer .durationMs).notNull.defaultTo (.int 0),
      (dateTime .timestamp).notNull]
  uniques := [[.id]]
  foreignKeys := [⟨.hookId, .hooks, .id, .cascade⟩, ⟨.apiKeyId, .apiKeys, .id, .setNull⟩]

def auditLogs : SchemaTable where
  name := .auditLogs
  columns :=
    [(uuid .id).notNull,
      uuid .apiKeyId,
      (string .apiKeyName).notNull,
      (string .apiKeyPrefix).notNull,
      (string .clientIp).notNull,
      (string .action).notNull,
      string .targetResource,
      text .details,
      (dateTime .timestamp).notNull]
  uniques := [[.id]]
  foreignKeys := [⟨.apiKeyId, .apiKeys, .id, .setNull⟩]

def migration : Migration where
  name := "m20230101_090000_initial_schema"
  up :=
    [.createTable apiKeys,
      .createIndex ⟨"idx-api_keys-prefix", .apiKeys, [.prefixText], false⟩,
      .createTable hooks,
      .createTable hookParameters,
      .createIndex ⟨"idx-hook_parameters-hook_id-param_key", .hookParameters,
        [.hookId, .paramKey], true⟩,
      .createTable apiKeyHookPermissions,
      .createIndex ⟨"idx-akhp-api_key_id-hook_id", .apiKeyHookPermissions,
        [.apiKeyId, .hookId], true⟩,
      .createTable executions,
      .createIndex ⟨"idx-executions-timestamp", .executions, [.timestamp], false⟩,
      .createIndex ⟨"idx-executions-hook_id", .executions, [.hookId], false⟩,
      .createTable auditLogs,
      .createIndex ⟨"idx-audit_logs-action", .auditLogs, [.action], false⟩,
      .createIndex ⟨"idx-audit_logs-timestamp", .auditLogs, [.timestamp], false⟩]
end InitialSchema

/-! ### What came later -/

def addRunAsUser : Migration where
  name := "m20230102_090000_add_run_as_user"
  up := [.addColumn .hooks (string .runAsUser)]

def addSigningSecret : Migration where
  name := "m20230103_090000_add_signing_secret"
  up :=
    [.addColumn .apiKeys (string .keyId),
      .addColumn .apiKeys (text .signingSecret),
      .createIndex ⟨"idx-api_keys-key_id", .apiKeys, [.keyId], true⟩]
def addHmacMode : Migration where
  name := "m20230104_090000_add_hmac_mode"
  up := [.addColumn .apiKeys ((string .hmacMode).notNull.defaultTo (.text "CANONICAL_V1"))]

def addHookSoftDelete : Migration where
  name := "m20230105_090000_add_hook_soft_delete"
  up :=
    [.addColumn .hooks ((boolean .isDeleted).notNull.defaultTo (.bool false)),
      .addColumn .hooks (dateTime .deletedAt),
      .addColumn .hooks (text .deletedBy)]
def markerIndex : String := "idx_api_keys_master_marker"

/-- The marker is derived by the engine, so no writer can leave it out. -/
def masterKeyUniqueness : Migration where
  name := "m20230106_090000_master_key_uniqueness"
  up :=
    [.addColumn .apiKeys ⟨.masterMarker, .derived .isMaster Value.isTrue (.int 1)⟩,
      .createIndex ⟨markerIndex, .apiKeys, [.masterMarker], true⟩]

def ownerIndex : String := "idx_api_keys_owner_key_id"

def keyLineageAndResourceOwnership : Migration where
  name := "m20230107_090000_key_lineage_and_resource_ownership"
  up :=
    [.addColumn .apiKeys (uuid .parentKeyId),
      .addColumn .apiKeys (uuid .ownerKeyId),
      .addColumn .hooks (uuid .ownerKeyId),
      .createIndex ⟨"idx_api_keys_parent_key_id", .apiKeys, [.parentKeyId], false⟩,
      .createIndex ⟨ownerIndex, .apiKeys, [.ownerKeyId], false⟩,
      .createIndex ⟨"idx_hooks_owner_key_id", .hooks, [.ownerKeyId], false⟩]
def addCanViewExecution : Migration where
  name := "m20260809_090000_add_can_view_execution"
  up :=
    [.addColumn .apiKeyHookPermissions
      ((boolean .canViewExecution).notNull.defaultTo (.bool false))]

def dropApiKeyOwnerKeyId : Migration where
  name := "m20260810_090000_drop_api_key_owner_key_id"
  up := [.dropIndex ownerIndex, .dropColumn .apiKeys .ownerKeyId]
def addHookAuthMode : Migration where
  name := "m20260819_120414_add_hook_auth_mode"
  up :=
    [.addColumn .hooks ((string .authMode).notNull.defaultTo (.text "CANONICAL_V1")),
      .addColumn .hooks (text .hmacSecret),
      .addColumn .hooks (string .signatureHeader),
      .addColumn .hooks (string .signaturePrefix),
      .addColumn .hooks (text .canonicalTemplate)]
/-- `BODY_ONLY` is retired: no row may hold it once the code cannot read it. -/
def consolidateHmacModes : Migration where
  name := "m20260819_141730_consolidate_hmac_modes"
  up :=
    [.updateWhere .apiKeys .hmacMode (.text "BODY_ONLY") (.text "CANONICAL_V1"),
      .addColumn .apiKeys (text .canonicalTemplate)]

def addHookSamplePayload : Migration where
  name := "m20260820_090000_add_hook_sample_payload"
  up := [.addColumn .hooks (text .samplePayloadJson)]

def addHookArgsTemplate : Migration where
  name := "m20260821_090000_add_hook_args_template"
  up := [.addColumn .hooks (text .argsTemplate)]

/-! ### The runner -/

namespace Migrator

def migrations : List Migration :=
  [InitialSchema.migration, addRunAsUser, addSigningSecret, addHmacMode, addHookSoftDelete,
    masterKeyUniqueness, keyLineageAndResourceOwnership, addCanViewExecution,
    dropApiKeyOwnerKeyId, addHookAuthMode, consolidateHmacModes, addHookSamplePayload,
    addHookArgsTemplate]

/-- A database and the names of the migrations it has recorded. -/
structure Migrated where
  applied : List String
  db : StoredDb

def pending (s : Migrated) : List Migration :=
  migrations.filter fun migration => !s.applied.contains migration.name

/-- What a transaction is put around: nothing, each migration or the whole run. -/
inductive Transactions where
  | none | each | whole
  deriving DecidableEq

/-- One migration after the other. Without a transaction, what a failed one did
before it failed is left. -/
def applyAll (transactions : Transactions) :
    List Migration → Migrated → Except Fault Unit × Migrated
  | [], s => (.ok (), s)
  | migration :: rest, s =>
    match Change.execAll migration.up s.db with
    | (.ok (), db) => applyAll transactions rest ⟨s.applied ++ [migration.name], db⟩
    | (.error f, db) => (.error f, if transactions = .none then ⟨s.applied, db⟩ else s)

/-- A recorded migration that is not among these stops the run. -/
def up (transactions : Transactions) (s : Migrated) : Except Fault Unit × Migrated :=
  if s.applied.all (migrations.map (·.name)).contains then
    match applyAll transactions (pending s) s with
    | (.ok (), s') => (.ok (), s')
    | (.error f, s') => (.error f, if transactions = .whole then s else s')
  else (.error .missing, s)

end Migrator

def runMigrations (transactions : Migrator.Transactions) (s : Migrator.Migrated) :
    Except Fault Unit × Migrator.Migrated :=
  Migrator.up transactions s

end HookExecutor
