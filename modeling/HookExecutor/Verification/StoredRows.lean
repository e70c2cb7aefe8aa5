import HookExecutor.Verification.StoredTables

/-!
# Entities as rows

The six entities and their tables: what a row reads back as, when two rows collide,
what a reference finds, and what conditions, orders, partial updates and deletions
come to on rows.
-/

namespace HookExecutor

open Relational (Change Column Fault)

/-! ### Reading back -/

theorem get?_text (row : StoredRow) (c : ColumnName) (o : Option String) (h : row c = o.map .text) :
    StoredRow.get? row c Value.asText = some o := by
  cases o <;> simp [StoredRow.get?, h, Value.asText]

theorem get?_uuid (row : StoredRow) (c : ColumnName) (o : Option Uuid) (h : row c = o.map .uuid) :
    StoredRow.get? row c Value.asUuid = some o := by
  cases o <;> simp [StoredRow.get?, h, Value.asUuid]

theorem get?_int (row : StoredRow) (c : ColumnName) (o : Option Int) (h : row c = o.map .int) :
    StoredRow.get? row c Value.asInt = some o := by
  cases o <;> simp [StoredRow.get?, h, Value.asInt]

theorem get?_dateTime (row : StoredRow) (c : ColumnName) (o : Option DateTime)
    (h : row c = o.map .dateTime) : StoredRow.get? row c Value.asDateTime = some o := by
  cases o <;> simp [StoredRow.get?, h, Value.asDateTime]

theorem Hook.fromRow_row (h : Hook) : Hook.fromRow h.row = some h := by
  simp only [Hook.fromRow,
    get?_text h.row .description h.description rfl,
    get?_text h.row .runAsUser h.runAsUser rfl,
    get?_uuid h.row .ownerKeyId h.ownerKeyId rfl,
    get?_dateTime h.row .deletedAt h.deletedAt rfl,
    get?_text h.row .deletedBy h.deletedBy rfl,
    get?_text h.row .hmacSecret h.hmacSecret rfl,
    get?_text h.row .signatureHeader h.signatureHeader rfl,
    get?_text h.row .signaturePrefix h.signaturePrefix rfl,
    get?_text h.row .canonicalTemplate h.canonicalTemplate rfl,
    get?_text h.row .samplePayloadJson h.samplePayloadJson rfl,
    get?_text h.row .argsTemplate h.argsTemplate rfl]
  have hmode : AuthMode.ofString h.authMode.stringValue = some h.authMode := by
    cases h.authMode <;> rfl
  change (AuthMode.ofString h.authMode.stringValue).bind _ = some h
  rw [hmode]
  rfl

theorem ApiKey.fromRow_row (k : ApiKey) : ApiKey.fromRow k.row = some k := by
  simp only [ApiKey.fromRow,
    get?_text k.row .keyId k.keyId rfl,
    get?_text k.row .signingSecret k.signingSecret rfl,
    get?_text k.row .boundIps k.boundIps rfl,
    get?_uuid k.row .parentKeyId k.parentKeyId rfl,
    get?_text k.row .canonicalTemplate k.canonicalTemplate rfl]
  rfl

theorem HookParameter.fromRow_row (p : HookParameter) : HookParameter.fromRow p.row = some p := by
  simp only [HookParameter.fromRow, get?_text p.row .description p.description rfl,
    get?_text p.row .defaultValue p.defaultValue rfl]
  rfl

theorem Permission.fromRow_row (p : Permission) : Permission.fromRow p.row = some p := rfl

theorem Execution.fromRow_row (x : Execution) : Execution.fromRow x.row = some x := by
  simp only [Execution.fromRow, get?_uuid x.row .apiKeyId x.apiKeyId rfl,
    get?_int x.row .exitCode x.exitCode rfl]
  have hstatus : ExecutionStatus.ofString x.status.stringValue = some x.status := by
    cases x.status <;> rfl
  change (ExecutionStatus.ofString x.status.stringValue).bind _ = some x
  rw [hstatus]
  rfl

theorem AuditLog.fromRow_row (l : AuditLog) : AuditLog.fromRow l.row = some l := by
  simp only [AuditLog.fromRow, get?_uuid l.row .apiKeyId l.apiKeyId rfl,
    get?_text l.row .targetResource l.targetResource rfl, get?_text l.row .details l.details rfl]
  rfl

theorem admits_map {α : Type} {column : Column ColumnName Value} {f : α → Value} (o : Option α)
    (hnone : column.admits none = true) (hsome : ∀ a, column.admits (some (f a)) = true) :
    column.admits (o.map f) = true := by
  cases o with
  | none => exact hnone
  | some a => exact hsome a

theorem collide_two {t : SchemaTable} {c : ColumnName} {r s : StoredRow} {v w : Value}
    (hr : t.read r c = some v) (hs : t.read s c = some w) : t.collide [c] r s = (v == w) := by
  simp [Relational.Table.collide, hr, hs]

theorem collide_pair {t : SchemaTable} {c c' : ColumnName} {r s : StoredRow} {v w v' w' : Value}
    (hr : t.read r c = some v) (hs : t.read s c = some w) (hr' : t.read r c' = some v')
    (hs' : t.read s c' = some w') : t.collide [c, c'] r s = (v == w && v' == w') := by
  simp [Relational.Table.collide, hr, hs, hr', hs']

theorem uuid_beq (a b : Uuid) : (Value.uuid a == Value.uuid b) = (a == b) := by
  rw [Bool.eq_iff_iff, beq_iff_eq, beq_iff_eq, Value.uuid.injEq]

theorem text_beq (a b : String) : (Value.text a == Value.text b) = (a == b) := by
  rw [Bool.eq_iff_iff, beq_iff_eq, beq_iff_eq, Value.text.injEq]

theorem collideAny_apiKeys (k l : ApiKey) :
    CurrentSchema.apiKeys.collideAny (currentSchema.keys CurrentSchema.apiKeys) k.row l.row =
      Database.apiKeyCollides k l := by
  have hid : CurrentSchema.apiKeys.collide [.id] k.row l.row = (k.id == l.id) :=
    (collide_two rfl rfl).trans (uuid_beq k.id l.id)
  have hhash : CurrentSchema.apiKeys.collide [.keyHash] k.row l.row = (k.keyHash == l.keyHash) :=
    (collide_two rfl rfl).trans (text_beq k.keyHash l.keyHash)
  have hkeyId : CurrentSchema.apiKeys.collide [.keyId] k.row l.row =
      (l.keyId.isSome && k.keyId == l.keyId) := by
    have hread : ∀ m : ApiKey, CurrentSchema.apiKeys.read m.row .keyId = m.keyId.map .text :=
      fun _ => rfl
    simp only [Relational.Table.collide, List.all_cons, List.all_nil, hread]
    cases k.keyId <;> cases l.keyId <;> simp
  have hmarker : CurrentSchema.apiKeys.collide [.masterMarker] k.row l.row =
      (k.isMaster && l.isMaster) := by
    have hread : ∀ m : ApiKey, CurrentSchema.apiKeys.read m.row .masterMarker =
        if m.isMaster then some (.int 1) else none := fun _ => rfl
    simp only [Relational.Table.collide, List.all_cons, List.all_nil, hread]
    cases k.isMaster <;> cases l.isMaster <;> rfl
  rw [keys_apiKeys]
  simp only [Relational.Table.collideAny, List.any_cons, List.any_nil, hid, hhash, hkeyId, hmarker,
    Bool.or_false, Database.apiKeyCollides, Bool.or_assoc]

theorem collideAny_hooks (h g : Hook) :
    CurrentSchema.hooks.collideAny (currentSchema.keys CurrentSchema.hooks) h.row g.row =
      (h.id == g.id || h.name == g.name) := by
  have hid : CurrentSchema.hooks.collide [.id] h.row g.row = (h.id == g.id) :=
    (collide_two rfl rfl).trans (uuid_beq h.id g.id)
  have hname : CurrentSchema.hooks.collide [.name] h.row g.row = (h.name == g.name) :=
    (collide_two rfl rfl).trans (text_beq h.name g.name)
  rw [keys_hooks]
  simp only [Relational.Table.collideAny, List.any_cons, List.any_nil, hid, hname, Bool.or_false]

theorem collideAny_hookParameters (p q : HookParameter) :
    InitialSchema.hookParameters.collideAny (currentSchema.keys InitialSchema.hookParameters)
      p.row q.row = (p.id == q.id || (p.hookId == q.hookId && p.paramKey == q.paramKey)) := by
  have hid : InitialSchema.hookParameters.collide [.id] p.row q.row = (p.id == q.id) :=
    (collide_two rfl rfl).trans (uuid_beq p.id q.id)
  have hname : InitialSchema.hookParameters.collide [.hookId, .paramKey] p.row q.row =
      (p.hookId == q.hookId && p.paramKey == q.paramKey) := by
    rw [← uuid_beq, ← text_beq]
    exact (collide_pair rfl rfl rfl rfl)
  rw [keys_hookParameters]
  simp only [Relational.Table.collideAny, List.any_cons, List.any_nil, hid, hname, Bool.or_false]

theorem collideAny_permissions (p q : Permission) :
    CurrentSchema.apiKeyHookPermissions.collideAny
      (currentSchema.keys CurrentSchema.apiKeyHookPermissions) p.row q.row =
        (p.id == q.id || (p.apiKeyId == q.apiKeyId && p.hookId == q.hookId)) := by
  have hid : CurrentSchema.apiKeyHookPermissions.collide [.id] p.row q.row = (p.id == q.id) :=
    (collide_two rfl rfl).trans (uuid_beq p.id q.id)
  have hpair : CurrentSchema.apiKeyHookPermissions.collide [.apiKeyId, .hookId] p.row q.row =
      (p.apiKeyId == q.apiKeyId && p.hookId == q.hookId) := by
    rw [← uuid_beq, ← uuid_beq]
    exact collide_pair rfl rfl rfl rfl
  rw [keys_apiKeyHookPermissions]
  simp only [Relational.Table.collideAny, List.any_cons, List.any_nil, hid, hpair, Bool.or_false]

theorem collideAny_executions (x y : Execution) :
    InitialSchema.executions.collideAny (currentSchema.keys InitialSchema.executions)
      x.row y.row = (x.id == y.id) := by
  have hid : InitialSchema.executions.collide [.id] x.row y.row = (x.id == y.id) :=
    (collide_two rfl rfl).trans (uuid_beq x.id y.id)
  rw [keys_executions]
  simp only [Relational.Table.collideAny, List.any_cons, List.any_nil, hid, Bool.or_false]

theorem collideAny_auditLogs (l m : AuditLog) :
    InitialSchema.auditLogs.collideAny (currentSchema.keys InitialSchema.auditLogs)
      l.row m.row = (l.id == m.id) := by
  have hid : InitialSchema.auditLogs.collide [.id] l.row m.row = (l.id == m.id) :=
    (collide_two rfl rfl).trans (uuid_beq l.id m.id)
  rw [keys_auditLogs]
  simp only [Relational.Table.collideAny, List.any_cons, List.any_nil, hid, Bool.or_false]

section References

variable {db : Database} {row : StoredRow} {o : Option Uuid} {onDelete : Relational.OnDelete}

theorem resolves_apiKeys (h : row .apiKeyId = o.map .uuid) :
    (⟨.apiKeyId, .apiKeys, .id, onDelete⟩ : Relational.ForeignKey TableName ColumnName).resolves
      db.tables row = o.all db.hasApiKey := by
  rw [Relational.ForeignKey.resolves, h]
  cases o with
  | none => rfl
  | some id =>
    change ((db.apiKeys.map (·.row)).any fun target => target .id == some (.uuid id)) = _
    rw [List.any_map]
    refine congrArg db.apiKeys.any (funext fun k => ?_)
    exact (Option.some_beq_some).trans (uuid_beq k.id id)

theorem resolves_hooks (h : row .hookId = o.map .uuid) :
    (⟨.hookId, .hooks, .id, onDelete⟩ : Relational.ForeignKey TableName ColumnName).resolves
      db.tables row = o.all db.hasHook := by
  rw [Relational.ForeignKey.resolves, h]
  cases o with
  | none => rfl
  | some id =>
    change ((db.hooks.map (·.row)).any fun target => target .id == some (.uuid id)) = _
    rw [List.any_map]
    refine congrArg db.hooks.any (funext fun g => ?_)
    exact (Option.some_beq_some).trans (uuid_beq g.id id)

end References

/-! ### The six tables -/

def ApiKey.entity : StoredEntity ApiKey where
  table := CurrentSchema.apiKeys
  cells := ApiKey.cells
  fromRow := ApiKey.fromRow
  rows := Database.apiKeys
  put := fun db keys => { db with apiKeys := keys }
  id := ApiKey.id
  collides := Database.apiKeyCollides
  refers := fun _ _ => true
  table_mem := by simp [currentSchema_tables]
  tables_eq := fun _ => rfl
  put_tables := by
    intro db keys
    funext name
    cases name <;> rfl
  rows_put := fun _ _ => rfl
  put_rows := fun _ => rfl
  stores := fun _ => rfl
  newRow_eq := by
    intro k
    funext c
    cases c <;> rfl
  fromRow_eq := ApiKey.fromRow_row
  id_eq := fun _ => rfl
  admits := fun k => List.forall_iff_forall_mem.mp
    ⟨rfl, rfl, rfl, rfl, admits_map k.boundIps rfl fun _ => rfl, rfl, rfl, rfl, rfl, rfl, rfl,
      admits_map k.keyId rfl fun _ => rfl, admits_map k.signingSecret rfl fun _ => rfl, rfl, rfl,
      admits_map k.parentKeyId rfl fun _ => rfl, admits_map k.canonicalTemplate rfl fun _ => rfl⟩
  collides_eq := collideAny_apiKeys
  collides_symm := by
    intro k l
    rw [Bool.eq_iff_iff]
    simp only [Database.apiKeyCollides, Bool.or_eq_true, Bool.and_eq_true, beq_iff_eq]
    grind
  collides_id := by
    intro k l h
    simp [Database.apiKeyCollides, h]
  refers_eq := fun _ _ => rfl

def Hook.entity : StoredEntity Hook where
  table := CurrentSchema.hooks
  cells := Hook.cells
  fromRow := Hook.fromRow
  rows := Database.hooks
  put := fun db hooks => { db with hooks := hooks }
  id := Hook.id
  collides := fun h g => h.id == g.id || h.name == g.name
  refers := fun _ _ => true
  table_mem := by simp [currentSchema_tables]
  tables_eq := fun _ => rfl
  put_tables := by
    intro db hooks
    funext name
    cases name <;> rfl
  rows_put := fun _ _ => rfl
  put_rows := fun _ => rfl
  stores := fun _ => rfl
  newRow_eq := by
    intro h
    funext c
    cases c <;> rfl
  fromRow_eq := Hook.fromRow_row
  id_eq := fun _ => rfl
  admits := fun h => List.forall_iff_forall_mem.mp
    ⟨rfl, rfl, admits_map h.description rfl fun _ => rfl, rfl, rfl, rfl, rfl,
      admits_map h.runAsUser rfl fun _ => rfl, rfl, admits_map h.deletedAt rfl fun _ => rfl,
      admits_map h.deletedBy rfl fun _ => rfl, admits_map h.ownerKeyId rfl fun _ => rfl, rfl,
      admits_map h.hmacSecret rfl fun _ => rfl, admits_map h.signatureHeader rfl fun _ => rfl,
      admits_map h.signaturePrefix rfl fun _ => rfl,
      admits_map h.canonicalTemplate rfl fun _ => rfl,
      admits_map h.samplePayloadJson rfl fun _ => rfl, admits_map h.argsTemplate rfl fun _ => rfl⟩
  collides_eq := collideAny_hooks
  collides_symm := by
    intro h g
    rw [BEq.comm (a := h.id), BEq.comm (a := h.name)]
  collides_id := by
    intro h g heq
    simp [heq]
  refers_eq := fun _ _ => rfl

def HookParameter.entity : StoredEntity HookParameter where
  table := InitialSchema.hookParameters
  cells := HookParameter.cells
  fromRow := HookParameter.fromRow
  rows := Database.hookParameters
  put := fun db parameters => { db with hookParameters := parameters }
  id := HookParameter.id
  collides := fun p q => p.id == q.id || (p.hookId == q.hookId && p.paramKey == q.paramKey)
  refers := fun db p => db.hasHook p.hookId
  table_mem := by simp [currentSchema_tables]
  tables_eq := fun _ => rfl
  put_tables := by
    intro db parameters
    funext name
    cases name <;> rfl
  rows_put := fun _ _ => rfl
  put_rows := fun _ => rfl
  stores := fun _ => rfl
  newRow_eq := by
    intro p
    funext c
    cases c <;> rfl
  fromRow_eq := HookParameter.fromRow_row
  id_eq := fun _ => rfl
  admits := fun p => List.forall_iff_forall_mem.mp
    ⟨rfl, rfl, rfl, admits_map p.description rfl fun _ => rfl,
      admits_map p.defaultValue rfl fun _ => rfl, rfl, rfl⟩
  collides_eq := collideAny_hookParameters
  collides_symm := by
    intro p q
    rw [BEq.comm (a := p.id), BEq.comm (a := p.hookId), BEq.comm (a := p.paramKey)]
  collides_id := by
    intro p q heq
    simp [heq]
  refers_eq := by
    intro db p
    refine List.all_cons.trans (Eq.trans ?_ (Bool.and_true _))
    exact congrArg (· && true) (resolves_hooks (o := some p.hookId) rfl)

def Permission.entity : StoredEntity Permission where
  table := CurrentSchema.apiKeyHookPermissions
  cells := Permission.cells
  fromRow := Permission.fromRow
  rows := Database.permissions
  put := fun db permissions => { db with permissions := permissions }
  id := Permission.id
  collides := fun p q => p.id == q.id || (p.apiKeyId == q.apiKeyId && p.hookId == q.hookId)
  refers := fun db p => db.hasApiKey p.apiKeyId && db.hasHook p.hookId
  table_mem := by simp [currentSchema_tables]
  tables_eq := fun _ => rfl
  put_tables := by
    intro db permissions
    funext name
    cases name <;> rfl
  rows_put := fun _ _ => rfl
  put_rows := fun _ => rfl
  stores := fun _ => rfl
  newRow_eq := by
    intro p
    funext c
    cases c <;> rfl
  fromRow_eq := Permission.fromRow_row
  id_eq := fun _ => rfl
  admits := fun p => List.forall_iff_forall_mem.mp ⟨rfl, rfl, rfl, rfl, rfl, rfl, rfl⟩
  collides_eq := collideAny_permissions
  collides_symm := by
    intro p q
    rw [BEq.comm (a := p.id), BEq.comm (a := p.apiKeyId), BEq.comm (a := p.hookId)]
  collides_id := by
    intro p q heq
    simp [heq]
  refers_eq := by
    intro db p
    simp only [CurrentSchema.apiKeyHookPermissions, List.all_cons, List.all_nil, Bool.and_true]
    rw [resolves_apiKeys (o := some p.apiKeyId) rfl, resolves_hooks (o := some p.hookId) rfl]
    rfl

def Execution.entity : StoredEntity Execution where
  table := InitialSchema.executions
  cells := Execution.cells
  fromRow := Execution.fromRow
  rows := Database.executions
  put := fun db executions => { db with executions := executions }
  id := Execution.id
  collides := fun x y => x.id == y.id
  refers := fun db x => db.hasHook x.hookId && x.apiKeyId.all db.hasApiKey
  table_mem := by simp [currentSchema_tables]
  tables_eq := fun _ => rfl
  put_tables := by
    intro db executions
    funext name
    cases name <;> rfl
  rows_put := fun _ _ => rfl
  put_rows := fun _ => rfl
  stores := fun _ => rfl
  newRow_eq := by
    intro x
    funext c
    cases c <;> rfl
  fromRow_eq := Execution.fromRow_row
  id_eq := fun _ => rfl
  admits := fun x => List.forall_iff_forall_mem.mp
    ⟨rfl, rfl, admits_map x.apiKeyId rfl fun _ => rfl, rfl,
      admits_map x.exitCode rfl fun _ => rfl, rfl, rfl, rfl, rfl, rfl⟩
  collides_eq := collideAny_executions
  collides_symm := fun _ _ => BEq.comm
  collides_id := by
    intro x y heq
    simp [heq]
  refers_eq := by
    intro db x
    simp only [InitialSchema.executions, List.all_cons, List.all_nil, Bool.and_true]
    rw [resolves_apiKeys (o := x.apiKeyId) rfl, resolves_hooks (o := some x.hookId) rfl]
    rfl

def AuditLog.entity : StoredEntity AuditLog where
  table := InitialSchema.auditLogs
  cells := AuditLog.cells
  fromRow := AuditLog.fromRow
  rows := Database.auditLogs
  put := fun db logs => { db with auditLogs := logs }
  id := AuditLog.id
  collides := fun l m => l.id == m.id
  refers := fun db l => l.apiKeyId.all db.hasApiKey
  table_mem := by simp [currentSchema_tables]
  tables_eq := fun _ => rfl
  put_tables := by
    intro db logs
    funext name
    cases name <;> rfl
  rows_put := fun _ _ => rfl
  put_rows := fun _ => rfl
  stores := fun _ => rfl
  newRow_eq := by
    intro l
    funext c
    cases c <;> rfl
  fromRow_eq := AuditLog.fromRow_row
  id_eq := fun _ => rfl
  admits := fun l => List.forall_iff_forall_mem.mp
    ⟨rfl, admits_map l.apiKeyId rfl fun _ => rfl, rfl, rfl, rfl, rfl,
      admits_map l.targetResource rfl fun _ => rfl, admits_map l.details rfl fun _ => rfl, rfl⟩
  collides_eq := collideAny_auditLogs
  collides_symm := fun _ _ => BEq.comm
  collides_id := by
    intro l m heq
    simp [heq]
  refers_eq := by
    intro db l
    simp only [InitialSchema.auditLogs, List.all_cons, List.all_nil, Bool.and_true]
    exact resolves_apiKeys rfl

/-! ### Conditions and orders on rows -/

section Conditions

variable {row r s : StoredRow} {c : ColumnName} {a b : Uuid} {o : Option Uuid} {ids : List Uuid}

theorem eq_uuid (h : row c = some (.uuid a)) : StoredRow.eq row c (.uuid b) = (a == b) := by
  rw [StoredRow.eq, h]
  exact (Option.some_beq_some).trans (uuid_beq a b)

theorem eq_uuid? (h : row c = o.map .uuid) : StoredRow.eq row c (.uuid b) = (o == some b) := by
  cases o with
  | none =>
    rw [StoredRow.eq, h]
    rfl
  | some a => exact (eq_uuid h).trans Option.some_beq_some.symm

theorem eq_text {x y : String} (h : row c = some (.text x)) :
    StoredRow.eq row c (.text y) = (x == y) := by
  rw [StoredRow.eq, h]
  exact (Option.some_beq_some).trans (text_beq x y)

theorem eq_bool {x y : Bool} (h : row c = some (.bool x)) :
    StoredRow.eq row c (.bool y) = (x == y) := by
  rw [StoredRow.eq, h]
  cases x <;> cases y <;> rfl

theorem isIn_uuid? (h : row c = o.map .uuid) :
    StoredRow.isIn row c (ids.map .uuid) = o.any ids.contains := by
  rw [StoredRow.isIn, h]
  cases o with
  | none => rfl
  | some a =>
    rw [Option.map_some, Option.any_some, Option.any_some, Bool.eq_iff_iff, List.contains_iff_mem,
      List.contains_iff_mem]
    exact List.mem_map_of_injective fun x y hxy => Value.uuid.inj hxy

theorem isIn_uuid (h : row c = some (.uuid a)) :
    StoredRow.isIn row c (ids.map .uuid) = ids.contains a :=
  isIn_uuid? (o := some a) h

theorem ApiKeyCondition.onRow_row (c : ApiKeyCondition) (k : ApiKey) :
    c.onRow k.row = c.holds k := by
  cases c with
  | all => rfl
  | idEq id => exact eq_uuid rfl
  | idIn ids => exact isIn_uuid rfl
  | keyHashEq hash => exact eq_text rfl
  | isMaster => exact (eq_bool rfl).trans (beq_true k.isMaster)
  | parentKeyIdIn ids => exact isIn_uuid? rfl
  | nameLike p => rfl

theorem HookCondition.onRow_row (c : HookCondition) (h : Hook) : c.onRow h.row = c.holds h := by
  induction c with
  | all => rfl
  | idEq id => exact eq_uuid rfl
  | idIn ids => exact isIn_uuid rfl
  | nameEq name => exact eq_text rfl
  | isDeleted flag => exact eq_bool rfl
  | ownerKeyIdIn ids => exact isIn_uuid? rfl
  | deletedBefore threshold =>
    change (((h.deletedAt.map .dateTime).bind Value.asDateTime).any fun t => t < threshold) = _
    rw [HookCondition.holds]
    cases h.deletedAt <;> rfl
  | and p q hp hq => exact congrArg₂ (· && ·) hp hq

theorem PermissionCondition.onRow_row (c : PermissionCondition) (p : Permission) :
    c.onRow p.row = c.holds p := by
  induction c with
  | apiKeyIdEq id => exact eq_uuid rfl
  | hookIdEq id => exact eq_uuid rfl
  | hookIdIn ids => exact isIn_uuid rfl
  | canExecute => exact (eq_bool rfl).trans (beq_true p.canExecute)
  | canManage => exact (eq_bool rfl).trans (beq_true p.canManage)
  | canViewExecution => exact (eq_bool rfl).trans (beq_true p.canViewExecution)
  | and c d hc hd => exact congrArg₂ (· && ·) hc hd
  | or c d hc hd => exact congrArg₂ (· || ·) hc hd

theorem stringValue_beq (a b : ExecutionStatus) :
    (a.stringValue == b.stringValue) = (a == b) := by
  cases a <;> cases b <;> decide

theorem ExecutionCondition.onRow_row (c : ExecutionCondition) (x : Execution) :
    c.onRow x.row = c.holds x := by
  induction c with
  | all => rfl
  | idEq id => exact eq_uuid rfl
  | hookIdEq id => exact eq_uuid rfl
  | hookIdIn ids => exact isIn_uuid rfl
  | apiKeyIdEq id => exact eq_uuid? rfl
  | apiKeyIdIn ids => exact isIn_uuid? rfl
  | statusEq status => exact (eq_text rfl).trans (stringValue_beq x.status status)
  | since t => rfl
  | before t => rfl
  | and p q hp hq => exact congrArg₂ (· && ·) hp hq
  | or p q hp hq => exact congrArg₂ (· || ·) hp hq

theorem AuditLogCondition.onRow_row (c : AuditLogCondition) (l : AuditLog) :
    c.onRow l.row = c.holds l := by
  induction c with
  | all => rfl
  | actionEq action => exact eq_text rfl
  | clientIpLike p => rfl
  | apiKeyIdIn ids => exact isIn_uuid? rfl
  | since t => rfl
  | before t => rfl
  | and p q hp hq => exact congrArg₂ (· && ·) hp hq

theorem sortsBefore_dateTime {rest : List ColumnName} {x y : DateTime}
    (hr : r c = some (.dateTime x)) (hs : s c = some (.dateTime y)) :
    sortsBefore (c :: rest) r s = if x = y then sortsBefore rest r s else decide (x ≤ y) := by
  rw [sortsBefore, hr, hs]
  by_cases h : x = y
  · rw [if_pos h, if_pos (by rw [h])]
  · rw [if_neg h, if_neg (by simpa using h)]
    rfl

theorem sortsBefore_text {x y : String} (hr : r c = some (.text x)) (hs : s c = some (.text y)) :
    sortsBefore [c] r s = decide (x.toList ≤ y.toList) := by
  rw [sortsBefore, hr, hs]
  by_cases h : x = y
  · rw [if_pos (by rw [h]), h]
    simp [sortsBefore]
  · rw [if_neg (by simpa using h)]
    rfl

theorem sortsBefore_time {x y : DateTime} (hr : r c = some (.dateTime x))
    (hs : s c = some (.dateTime y)) : sortsBefore [c] r s = decide (x ≤ y) := by
  rw [sortsBefore_dateTime hr hs]
  by_cases h : x = y
  · simp [h, sortsBefore]
  · rw [if_neg h]

theorem ApiKeyOrder.onRows_row (o : ApiKeyOrder) (keys : List ApiKey) :
    o.onRows (keys.map (·.row)) = (Database.orderApiKeys o keys).map (·.row) := by
  cases o with
  | unordered => rfl
  | byCreatedAt =>
    refine (List.map_insertionSort _ _ _ _ fun k _ l _ => ?_).symm
    rw [sortsBefore_time (x := k.createdAt) (y := l.createdAt) rfl rfl, decide_eq_true_iff]

theorem HookOrder.onRows_row (o : HookOrder) (hooks : List Hook) :
    o.onRows (hooks.map (·.row)) = (Database.orderHooks o hooks).map (·.row) := by
  cases o with
  | unordered => rfl
  | byName =>
    refine (List.map_insertionSort _ _ _ _ fun h _ g _ => ?_).symm
    rw [sortsBefore_text (x := h.name) (y := g.name) rfl rfl, decide_eq_true_iff]

theorem orderBy_hookParameters (parameters : List HookParameter) :
    orderBy [.createdAt, .paramKey] (parameters.map (·.row)) =
      (parameters.insertionSort HookParameter.before).map (·.row) := by
  refine (List.map_insertionSort _ _ _ _ fun p _ q _ => ?_).symm
  rw [sortsBefore_dateTime (x := p.createdAt) (y := q.createdAt) rfl rfl,
    sortsBefore_text (x := p.paramKey) (y := q.paramKey) rfl rfl, HookParameter.before]
  by_cases h : p.createdAt = q.createdAt
  · simp [h]
  · rw [if_neg h, decide_eq_true_iff]
    exact ⟨fun hbefore => hbefore.elim le_of_lt fun hsame => absurd hsame.1 h,
      fun hle => .inl (lt_of_le_of_ne hle h)⟩

theorem orderByDesc_executions (executions : List Execution) :
    orderByDesc [.timestamp] (executions.map (·.row)) =
      (executions.insertionSort fun x y => y.timestamp ≤ x.timestamp).map (·.row) := by
  refine (List.map_insertionSort _ _ _ _ fun x _ y _ => ?_).symm
  rw [sortsBefore_time (x := y.timestamp) (y := x.timestamp) rfl rfl, decide_eq_true_iff]

theorem orderByDesc_auditLogs (logs : List AuditLog) :
    orderByDesc [.timestamp] (logs.map (·.row)) =
      (logs.insertionSort fun l m => m.timestamp ≤ l.timestamp).map (·.row) := by
  refine (List.map_insertionSort _ _ _ _ fun l _ m _ => ?_).symm
  rw [sortsBefore_time (x := m.timestamp) (y := l.timestamp) rfl rfl, decide_eq_true_iff]

end Conditions

/-! ### Partial updates on rows -/

section Updates

variable {model : ActiveModel} {c : ColumnName}

theorem ActiveModel.lookup_cells (hkeys : (model.map (·.1)).Nodup) :
    model.cells.lookup c = (model.lookup c).join := by
  induction model with
  | nil => rfl
  | cons entry rest ih =>
    obtain ⟨a, value⟩ := entry
    rw [List.map_cons, List.nodup_cons] at hkeys
    cases value with
    | none =>
      change List.lookup c (ActiveModel.cells rest) = _
      rw [ih hkeys.2, List.lookup_cons]
      by_cases hc : c = a
      · have hnone : List.lookup c rest = none := by
          refine List.lookup_eq_none_iff.mpr fun entry hmem => bne_iff_ne.mpr fun heq => ?_
          exact hkeys.1 (List.mem_map.mpr ⟨entry, hmem, (hc.symm.trans heq).symm⟩)
        simp only [beq_iff_eq.mpr hc, hnone]
        rfl
      · simp only [beq_eq_false_iff_ne.mpr hc]
    | some v =>
      change List.lookup c ((a, v) :: ActiveModel.cells rest) = _
      rw [List.lookup_cons, List.lookup_cons]
      by_cases hc : c = a
      · simp only [beq_iff_eq.mpr hc]
        rfl
      · simp only [beq_eq_false_iff_ne.mpr hc, ih hkeys.2]

theorem getD_some {α : Type} (o : Option α) (f : α → Value) (a : α) :
    (o.map fun x => some (f x)).getD (some (f a)) = some (f (o.getD a)) := by
  cases o <;> rfl

theorem getD_map {α : Type} (o : Option (Option α)) (f : α → Value) (a : Option α) :
    (o.map fun x => x.map f).getD (a.map f) = (o.getD a).map f := by
  cases o <;> rfl

theorem ApiKeyUpdate.set_row (u : ApiKeyUpdate) (k : ApiKey) :
    Relational.Row.set k.row u.activeModel.cells = (u.apply k).row := by
  funext c
  have hkeys : (u.activeModel.map (·.1)).Nodup := by
    simp [ApiKeyUpdate.activeModel]
  rw [Relational.Row.set, ActiveModel.lookup_cells hkeys]
  cases c <;> first | rfl | exact getD_some _ _ _ | exact getD_map _ _ _

theorem HookUpdate.set_row (u : HookUpdate) (h : Hook) :
    Relational.Row.set h.row u.activeModel.cells = (u.apply h).row := by
  funext c
  have hkeys : (u.activeModel.map (·.1)).Nodup := by
    simp [HookUpdate.activeModel]
  rw [Relational.Row.set, ActiveModel.lookup_cells hkeys]
  cases c <;> first | rfl | exact getD_some _ _ _ | exact getD_map _ _ _

theorem HookParameterUpdate.set_row (u : HookParameterUpdate) (p : HookParameter) :
    Relational.Row.set p.row u.activeModel.cells = (u.apply p).row := by
  funext c
  have hkeys : (u.activeModel.map (·.1)).Nodup := by
    simp [HookParameterUpdate.activeModel]
  rw [Relational.Row.set, ActiveModel.lookup_cells hkeys]
  cases c <;> first | rfl | exact getD_some _ _ _ | exact getD_map _ _ _

theorem ActiveModel.cells_all {p : ColumnName → Bool}
    (h : (model.all fun entry => p entry.1) = true) :
    (model.cells.all fun cell => p cell.1) = true := by
  rw [List.all_eq_true] at h ⊢
  intro cell hcell
  obtain ⟨entry, hentry, hsome⟩ := List.mem_filterMap.mp hcell
  obtain ⟨v, -, rfl⟩ := Option.map_eq_some_iff.mp hsome
  exact h entry hentry

end Updates

/-! ### Deletions -/

namespace Database

variable (db : Database) (gk : ApiKey → Bool) (gh : Hook → Bool) (gp : HookParameter → Bool)
  (gm : Permission → Bool) (gx : Execution → Bool) (gl : AuditLog → Bool)

def goneKey (id : Uuid) : Bool := db.apiKeys.any fun k => k.id == id && gk k

def goneHook (id : Uuid) : Bool := db.hooks.any fun h => h.id == id && gh h

/-- The database without some of its rows, and without what has to go with them. -/
def without : Database where
  apiKeys := db.apiKeys.filter fun k => !gk k
  hooks := db.hooks.filter fun h => !gh h
  hookParameters := db.hookParameters.filter fun p => !(gp p || db.goneHook gh p.hookId)
  permissions := db.permissions.filter fun p =>
    !(gm p || (db.goneKey gk p.apiKeyId || db.goneHook gh p.hookId))
  executions := (db.executions.filter fun x => !(gx x || db.goneHook gh x.hookId)).map fun x =>
    if x.apiKeyId.any (db.goneKey gk) then { x with apiKeyId := none } else x
  auditLogs := (db.auditLogs.filter fun l => !gl l).map fun l =>
    if l.apiKeyId.any (db.goneKey gk) then { l with apiKeyId := none } else l

end Database

section Deletions

variable {db : Database} {doomed : TableName → StoredRow → Bool} {row : StoredRow}
  {o : Option Uuid} {onDelete : Relational.OnDelete} {gk : ApiKey → Bool} {gh : Hook → Bool}

theorem severed_apiKeys (h : row .apiKeyId = o.map .uuid)
    (hk : ∀ k : ApiKey, doomed .apiKeys k.row = gk k) :
    (⟨.apiKeyId, .apiKeys, .id, onDelete⟩ : Relational.ForeignKey TableName ColumnName).severed
      db.tables doomed row = o.any (db.goneKey gk) := by
  rw [Relational.ForeignKey.severed, h]
  cases o with
  | none => rfl
  | some id =>
    change (true && (db.apiKeys.map (·.row)).any fun target =>
      doomed .apiKeys target && target .id == some (.uuid id)) = _
    rw [Bool.true_and, List.any_map]
    refine congrArg db.apiKeys.any (funext fun k => ?_)
    rw [Function.comp_apply, hk, Bool.and_comm]
    exact congrArg (· && gk k) ((Option.some_beq_some).trans (uuid_beq k.id id))

theorem severed_hooks (h : row .hookId = o.map .uuid)
    (hh : ∀ h : Hook, doomed .hooks h.row = gh h) :
    (⟨.hookId, .hooks, .id, onDelete⟩ : Relational.ForeignKey TableName ColumnName).severed
      db.tables doomed row = o.any (db.goneHook gh) := by
  rw [Relational.ForeignKey.severed, h]
  cases o with
  | none => rfl
  | some id =>
    change (true && (db.hooks.map (·.row)).any fun target =>
      doomed .hooks target && target .id == some (.uuid id)) = _
    rw [Bool.true_and, List.any_map]
    refine congrArg db.hooks.any (funext fun g => ?_)
    rw [Function.comp_apply, hh, Bool.and_comm]
    exact congrArg (· && gh g) ((Option.some_beq_some).trans (uuid_beq g.id id))

/-- The rows that are kept of one table, and what is cleared of them. -/
theorem kept_rows {α : Type} {rows : List α} {toRow : α → StoredRow} {name : TableName}
    {g : α → Bool} {f : α → α} (hdoomed : ∀ x, doomed name (toRow x) = g x)
    (hclear : ∀ x, currentSchema.clear db.tables doomed name (toRow x) = toRow (f x)) :
    ((rows.map toRow).filter fun row => !doomed name row).map
        (currentSchema.clear db.tables doomed name) =
      ((rows.filter fun x => !g x).map f).map toRow := by
  rw [List.filter_map, List.map_map, List.map_map]
  refine (congrArg (fun q => (rows.filter q).map _) (funext fun x => ?_)).trans
    (List.map_congr_left fun x _ => hclear x)
  rw [Function.comp_apply, hdoomed]

theorem clear_eq {t : SchemaTable} (ht : t ∈ currentSchema.tables) (row : StoredRow) :
    currentSchema.clear db.tables doomed t.name row = t.clear db.tables doomed row := by
  rw [Relational.Schema.clear, closed_currentSchema.table?_eq ht]

/-- A reference that can be cleared, in a table that has no other. -/
theorem clear_apiKeyId {t : SchemaTable} (ht : t ∈ currentSchema.tables) {row w : StoredRow}
    (hreferences : t.foreignKeys.filter (·.onDelete == .setNull) =
      [⟨.apiKeyId, .apiKeys, .id, .setNull⟩])
    (h : row .apiKeyId = o.map .uuid) (hk : ∀ k : ApiKey, doomed .apiKeys k.row = gk k)
    (hcell : w .apiKeyId = none) (hothers : ∀ c ≠ .apiKeyId, w c = row c) :
    currentSchema.clear db.tables doomed t.name row =
      if o.any (db.goneKey gk) then w else row := by
  rw [clear_eq ht]
  funext c
  have hany : (t.foreignKeys.any fun fk => fk.onDelete == .setNull && fk.column == c &&
      fk.severed db.tables doomed row) = (ColumnName.apiKeyId == c && o.any (db.goneKey gk)) := by
    have hfilter : (t.foreignKeys.any fun fk => fk.onDelete == .setNull && fk.column == c &&
        fk.severed db.tables doomed row) = (t.foreignKeys.filter (·.onDelete == .setNull)).any
          fun fk => fk.column == c && fk.severed db.tables doomed row := by
      rw [List.any_filter]
      simp only [Bool.and_assoc]
    rw [hfilter, hreferences, List.any_cons, List.any_nil, Bool.or_false, severed_apiKeys h hk]
  rw [Relational.Table.clear, hany]
  by_cases hc : c = .apiKeyId
  · subst hc
    cases hgone : o.any (db.goneKey gk) with
    | true => simp [hcell]
    | false => simp
  · have hne : (ColumnName.apiKeyId == c) = false := beq_eq_false_iff_ne.mpr (Ne.symm hc)
    rw [hne, Bool.false_and, if_neg Bool.false_ne_true]
    split
    · exact (hothers c hc).symm
    · rfl

theorem mem_tables : CurrentSchema.apiKeys ∈ currentSchema.tables ∧
    CurrentSchema.hooks ∈ currentSchema.tables ∧
    InitialSchema.hookParameters ∈ currentSchema.tables ∧
    CurrentSchema.apiKeyHookPermissions ∈ currentSchema.tables ∧
    InitialSchema.executions ∈ currentSchema.tables ∧
    InitialSchema.auditLogs ∈ currentSchema.tables := by
  simp [currentSchema_tables]

/-- What a deletion selects of each table. -/
structure Selects (name : TableName) (p : StoredRow → Bool) (gk : ApiKey → Bool)
    (gh : Hook → Bool) (gp : HookParameter → Bool) (gm : Permission → Bool)
    (gx : Execution → Bool) (gl : AuditLog → Bool) : Prop where
  apiKeys : ∀ k : ApiKey, (TableName.apiKeys == name && p k.row) = gk k
  hooks : ∀ h : Hook, (TableName.hooks == name && p h.row) = gh h
  hookParameters : ∀ q : HookParameter, (TableName.hookParameters == name && p q.row) = gp q
  permissions : ∀ q : Permission, (TableName.apiKeyHookPermissions == name && p q.row) = gm q
  executions : ∀ x : Execution, (TableName.executions == name && p x.row) = gx x
  auditLogs : ∀ l : AuditLog, (TableName.auditLogs == name && p l.row) = gl l

namespace Selects

variable {name : TableName} {p : StoredRow → Bool} {gp : HookParameter → Bool}
  {gm : Permission → Bool} {gx : Execution → Bool} {gl : AuditLog → Bool}

theorem goes {t : SchemaTable} (ht : t ∈ currentSchema.tables) (row : StoredRow) :
    currentSchema.doomed db.tables name p t.name row =
      t.goes db.tables name p (currentSchema.doomed db.tables name p) row :=
  congrFun (Relational.Schema.doomed_eq closed_currentSchema layered_currentSchema ht) row

theorem doomed_apiKeys (h : Selects name p gk gh gp gm gx gl) (k : ApiKey) :
    currentSchema.doomed db.tables name p .apiKeys k.row = gk k :=
  (goes mem_tables.1 k.row).trans ((Bool.or_false _).trans (h.apiKeys k))

theorem doomed_hooks (h : Selects name p gk gh gp gm gx gl) (g : Hook) :
    currentSchema.doomed db.tables name p .hooks g.row = gh g :=
  (goes mem_tables.2.1 g.row).trans ((Bool.or_false _).trans (h.hooks g))

theorem severed_apiKey (h : Selects name p gk gh gp gm gx gl) {id : Uuid}
    (hrow : row .apiKeyId = some (.uuid id)) :
    (⟨.apiKeyId, .apiKeys, .id, onDelete⟩ : Relational.ForeignKey TableName ColumnName).severed
      db.tables (currentSchema.doomed db.tables name p) row = db.goneKey gk id :=
  severed_apiKeys (o := some id) hrow h.doomed_apiKeys

theorem severed_hook (h : Selects name p gk gh gp gm gx gl) {id : Uuid}
    (hrow : row .hookId = some (.uuid id)) :
    (⟨.hookId, .hooks, .id, onDelete⟩ : Relational.ForeignKey TableName ColumnName).severed
      db.tables (currentSchema.doomed db.tables name p) row = db.goneHook gh id :=
  severed_hooks (o := some id) hrow h.doomed_hooks

theorem doomed_hookParameters (h : Selects name p gk gh gp gm gx gl) (q : HookParameter) :
    currentSchema.doomed db.tables name p .hookParameters q.row =
      (gp q || db.goneHook gh q.hookId) := by
  refine (goes mem_tables.2.2.1 q.row).trans (congrArg₂ (· || ·) (h.hookParameters q) ?_)
  have hhook : q.row .hookId = some (.uuid q.hookId) := rfl
  simp only [InitialSchema.hookParameters, List.any_cons, List.any_nil, Bool.or_false,
    h.severed_hook hhook]
  rfl

theorem doomed_permissions (h : Selects name p gk gh gp gm gx gl) (q : Permission) :
    currentSchema.doomed db.tables name p .apiKeyHookPermissions q.row =
      (gm q || (db.goneKey gk q.apiKeyId || db.goneHook gh q.hookId)) := by
  refine (goes mem_tables.2.2.2.1 q.row).trans (congrArg₂ (· || ·) (h.permissions q) ?_)
  have hkey : q.row .apiKeyId = some (.uuid q.apiKeyId) := rfl
  have hhook : q.row .hookId = some (.uuid q.hookId) := rfl
  simp only [CurrentSchema.apiKeyHookPermissions, List.any_cons, List.any_nil, Bool.or_false,
    h.severed_apiKey hkey, h.severed_hook hhook]
  rfl

theorem doomed_executions (h : Selects name p gk gh gp gm gx gl) (x : Execution) :
    currentSchema.doomed db.tables name p .executions x.row =
      (gx x || db.goneHook gh x.hookId) := by
  refine (goes mem_tables.2.2.2.2.1 x.row).trans (congrArg₂ (· || ·) (h.executions x) ?_)
  have hhook : x.row .hookId = some (.uuid x.hookId) := rfl
  simp only [InitialSchema.executions, List.any_cons, List.any_nil, Bool.or_false,
    h.severed_hook hhook]
  exact Bool.or_false _

theorem doomed_auditLogs (h : Selects name p gk gh gp gm gx gl) (l : AuditLog) :
    currentSchema.doomed db.tables name p .auditLogs l.row = gl l :=
  (goes mem_tables.2.2.2.2.2 l.row).trans ((Bool.or_false _).trans (h.auditLogs l))

/-- A deletion takes the rows it selects, the rows that refer to them and cannot do
without, and the references of the others. -/
theorem delete_eq (h : Selects name p gk gh gp gm gx gl) :
    db.stored.delete name p = (db.without gk gh gp gm gx gl).stored := by
  obtain ⟨hkeys, hhooks, hparameters, hpermissions, hexecutions, hlogs⟩ := mem_tables
  refine congrArg (Relational.Db.mk currentSchema) (funext fun n => ?_)
  cases n with
  | apiKeys =>
    refine (kept_rows (f := id) h.doomed_apiKeys fun k => clear_eq hkeys k.row).trans ?_
    rw [List.map_id]
    rfl
  | hooks =>
    refine (kept_rows (f := id) h.doomed_hooks fun g => clear_eq hhooks g.row).trans ?_
    rw [List.map_id]
    rfl
  | hookParameters =>
    refine (kept_rows (f := id) h.doomed_hookParameters
      fun q => clear_eq hparameters q.row).trans ?_
    rw [List.map_id]
    rfl
  | apiKeyHookPermissions =>
    refine (kept_rows (f := id) h.doomed_permissions
      fun q => clear_eq hpermissions q.row).trans ?_
    rw [List.map_id]
    rfl
  | executions =>
    refine kept_rows h.doomed_executions fun x => ?_
    refine (clear_apiKeyId hexecutions (w := ({ x with apiKeyId := none } : Execution).row) rfl
      rfl h.doomed_apiKeys rfl fun c hc => ?_).trans (apply_ite Execution.row _ _ _).symm
    cases c <;> first | rfl | exact absurd rfl hc
  | auditLogs =>
    refine kept_rows h.doomed_auditLogs fun l => ?_
    refine (clear_apiKeyId hlogs (w := { l with apiKeyId := none }.row) rfl rfl h.doomed_apiKeys
      rfl fun c hc => ?_).trans (apply_ite AuditLog.row _ _ _).symm
    cases c <;> first | rfl | exact absurd rfl hc

end Selects

end Deletions

end HookExecutor
