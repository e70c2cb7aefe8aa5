import HookExecutor.Tables
import HookExecutor.Verification.Upgrade

/-!
# The tables hold the database

The database the service is written against, kept in the tables the migrations have
left. What a statement answers and what it leaves are the same on both, refusals
included: the constraints the statements are modelled with are the ones the schema
declares, and no statement trips over any other.
-/

namespace HookExecutor

open Relational (Change Column Fault)
open ColumnDef

/-! ### The schema the migrations come to -/

namespace CurrentSchema

def apiKeys : SchemaTable where
  name := .apiKeys
  columns := InitialSchema.apiKeys.columns ++
    [string .keyId,
      text .signingSecret,
      (string .hmacMode).notNull.defaultTo (.text "CANONICAL_V1"),
      ⟨.masterMarker, .derived .isMaster Value.isTrue (.int 1)⟩,
      uuid .parentKeyId,
      text .canonicalTemplate]
  uniques := [[.id], [.keyHash]]
  foreignKeys := []

def hooks : SchemaTable where
  name := .hooks
  columns := InitialSchema.hooks.columns ++
    [string .runAsUser,
      (boolean .isDeleted).notNull.defaultTo (.bool false),
      dateTime .deletedAt,
      text .deletedBy,
      uuid .ownerKeyId,
      (string .authMode).notNull.defaultTo (.text "CANONICAL_V1"),
      text .hmacSecret,
      string .signatureHeader,
      string .signaturePrefix,
      text .canonicalTemplate,
      text .samplePayloadJson,
      text .argsTemplate]
  uniques := [[.id], [.name]]
  foreignKeys := []

def apiKeyHookPermissions : SchemaTable where
  name := .apiKeyHookPermissions
  columns := InitialSchema.apiKeyHookPermissions.columns ++
    [(boolean .canViewExecution).notNull.defaultTo (.bool false)]
  uniques := [[.id]]
  foreignKeys := [⟨.apiKeyId, .apiKeys, .id, .cascade⟩, ⟨.hookId, .hooks, .id, .cascade⟩]

end CurrentSchema

def currentSchema : StoredSchema where
  tables :=
    [CurrentSchema.apiKeys, CurrentSchema.hooks, InitialSchema.hookParameters,
      CurrentSchema.apiKeyHookPermissions, InitialSchema.executions, InitialSchema.auditLogs]
  indexes :=
    [⟨"idx-api_keys-prefix", .apiKeys, [.prefixText], false⟩,
      ⟨"idx-hook_parameters-hook_id-param_key", .hookParameters, [.hookId, .paramKey], true⟩,
      ⟨"idx-akhp-api_key_id-hook_id", .apiKeyHookPermissions, [.apiKeyId, .hookId], true⟩,
      ⟨"idx-executions-timestamp", .executions, [.timestamp], false⟩,
      ⟨"idx-executions-hook_id", .executions, [.hookId], false⟩,
      ⟨"idx-audit_logs-action", .auditLogs, [.action], false⟩,
      ⟨"idx-audit_logs-timestamp", .auditLogs, [.timestamp], false⟩,
      ⟨"idx-api_keys-key_id", .apiKeys, [.keyId], true⟩,
      ⟨markerIndex, .apiKeys, [.masterMarker], true⟩,
      ⟨"idx_api_keys_parent_key_id", .apiKeys, [.parentKeyId], false⟩,
      ⟨"idx_hooks_owner_key_id", .hooks, [.ownerKeyId], false⟩]

set_option maxRecDepth 4000 in
/-- This is where the migrations lead. -/
theorem schemaAt_length : Migrator.schemaAt Migrator.migrations.length = currentSchema := rfl

theorem keys_apiKeys : currentSchema.keys CurrentSchema.apiKeys =
    [[.id], [.keyHash], [.keyId], [.masterMarker]] := by
  decide

theorem keys_hooks : currentSchema.keys CurrentSchema.hooks = [[.id], [.name]] := by
  decide

theorem keys_hookParameters : currentSchema.keys InitialSchema.hookParameters =
    [[.id], [.hookId, .paramKey]] := by
  decide

theorem keys_apiKeyHookPermissions : currentSchema.keys CurrentSchema.apiKeyHookPermissions =
    [[.id], [.apiKeyId, .hookId]] := by
  decide

theorem keys_executions : currentSchema.keys InitialSchema.executions = [[.id]] := by
  decide

theorem keys_auditLogs : currentSchema.keys InitialSchema.auditLogs = [[.id]] := by
  decide

theorem closed_currentSchema : currentSchema.Closed := by decide

theorem layered_currentSchema : currentSchema.Layered := by decide

theorem clearable_currentSchema : ∀ t ∈ currentSchema.tables, ∀ fk ∈ t.foreignKeys,
    fk.onDelete = .setNull → currentSchema.Clearable t fk.column := by
  decide

/-- Other tables refer to a row by its identifier. -/
theorem foreignKeys_id : ∀ t ∈ currentSchema.tables, ∀ fk ∈ t.foreignKeys, fk.key = .id := by
  decide

theorem currentSchema_tables : currentSchema.tables =
    [CurrentSchema.apiKeys, CurrentSchema.hooks, InitialSchema.hookParameters,
      CurrentSchema.apiKeyHookPermissions, InitialSchema.executions, InitialSchema.auditLogs] :=
  rfl

attribute [irreducible] currentSchema

/-! ### The database in its tables -/

def Database.tables (db : Database) : TableName → List StoredRow
  | .apiKeys => db.apiKeys.map (·.row)
  | .hooks => db.hooks.map (·.row)
  | .hookParameters => db.hookParameters.map (·.row)
  | .apiKeyHookPermissions => db.permissions.map (·.row)
  | .executions => db.executions.map (·.row)
  | .auditLogs => db.auditLogs.map (·.row)

def Database.stored (db : Database) : StoredDb := ⟨currentSchema, db.tables⟩

/-- An entity and its table: how its rows are written and read back, and what the
table's keys and references say of them. -/
structure StoredEntity (α : Type) where
  table : SchemaTable
  cells : α → Cells
  fromRow : StoredRow → Option α
  rows : Database → List α
  put : Database → List α → Database
  id : α → Uuid
  collides : α → α → Bool
  refers : Database → α → Bool
  table_mem : table ∈ currentSchema.tables
  tables_eq : ∀ db, db.tables table.name = (rows db).map fun x => (cells x).row
  put_tables : ∀ db xs, (put db xs).tables =
    Function.update db.tables table.name (xs.map fun x => (cells x).row)
  rows_put : ∀ db xs, rows (put db xs) = xs
  put_rows : ∀ db, put db (rows db) = db
  stores : ∀ x, ((cells x).all fun cell => table.stores cell.1) = true
  newRow_eq : ∀ x, table.newRow (cells x) = (cells x).row
  fromRow_eq : ∀ x, fromRow (cells x).row = some x
  id_eq : ∀ x, (cells x).row .id = some (.uuid (id x))
  admits : ∀ x, ∀ column ∈ table.columns, column.admits ((cells x).row column.name) = true
  collides_eq : ∀ x y, table.collideAny (currentSchema.keys table) (cells x).row (cells y).row =
    collides x y
  collides_symm : ∀ x y, collides x y = collides y x
  collides_id : ∀ x y, id x = id y → collides x y = true
  refers_eq : ∀ db x, (table.foreignKeys.all fun fk => fk.resolves db.tables (cells x).row) =
    refers db x

namespace StoredEntity

variable {α : Type} (E : StoredEntity α) {db : Database} {xs : List α}

def row (x : α) : StoredRow := (E.cells x).row

theorem stored_rows (db : Database) :
    db.stored.rows E.table.name = (E.rows db).map E.row := E.tables_eq db

/-- A table is written if no two of its rows collide and all they refer to is there. -/
theorem replace_eq (h : db.stored.Valid)
    (hids : ∀ x ∈ E.rows db, ∃ y ∈ xs, E.id y = E.id x) :
    db.stored.replace E.table.name (xs.map E.row) =
      if xs.Pairwise fun x y => E.collides x y = false then
        if xs.all (E.refers db) then (.ok (), (E.put db xs).stored)
        else (.error .foreignKey, db.stored)
      else (.error .unique, db.stored) := by
  have hput : Function.update db.tables E.table.name (xs.map E.row) = (E.put db xs).tables :=
    (E.put_tables db xs).symm
  have hrows : (E.put db xs).tables E.table.name = xs.map E.row := by
    rw [E.put_tables]
    exact Function.update_self _ _ _
  have hself : ∀ x, (E.table.foreignKeys.all fun fk =>
      fk.resolves (E.put db xs).tables (E.row x)) = E.refers db x := by
    intro x
    rw [← E.refers_eq db x, Bool.eq_iff_iff, List.all_eq_true, List.all_eq_true]
    refine forall₂_congr fun fk hfk => ?_
    have hother : (E.put db xs).tables fk.table = db.tables fk.table := by
      rw [E.put_tables]
      exact Function.update_of_ne (layered_currentSchema.2 E.table E.table_mem fk hfk) _ _
    rw [Relational.ForeignKey.resolves, Relational.ForeignKey.resolves, hother]
    rfl
  have hcollides : (xs.map E.row).Pairwise (fun r s =>
      E.table.collideAny (currentSchema.keys E.table) r s = false) ↔
        xs.Pairwise fun x y => E.collides x y = false := by
    rw [List.pairwise_map]
    exact List.Pairwise.iff fun x y => by rw [← E.collides_eq]; rfl
  have hrefers : ((xs.map E.row).all fun row => E.table.foreignKeys.all fun fk =>
      fk.resolves (E.put db xs).tables row) = xs.all (E.refers db) := by
    rw [List.all_map]
    exact congrArg xs.all (funext hself)
  have hfault : Relational.Db.fault? (E.put db xs).stored =
      if xs.Pairwise fun x y => E.collides x y = false then
        if xs.all (E.refers db) then none else some .foreignKey
      else some .unique := by
    have halone : Relational.Db.fault? ⟨db.stored.schema,
        Function.update db.stored.rows E.table.name (xs.map E.row)⟩ =
          db.stored.schema.tableFault?
            (Function.update db.stored.rows E.table.name (xs.map E.row)) E.table := by
      refine h.fault?_update closed_currentSchema E.table_mem ?_
      intro u hu fk hfk _ target htarget
      rw [foreignKeys_id u hu fk hfk]
      rw [E.stored_rows] at htarget
      obtain ⟨x, hx, rfl⟩ := List.mem_map.mp htarget
      obtain ⟨y, hy, hid⟩ := hids x hx
      exact ⟨E.row y, List.mem_map_of_mem hy, by rw [row, row, E.id_eq, E.id_eq, hid]⟩
    rw [Database.stored, ← hput]
    refine halone.trans ?_
    rw [show db.stored.rows = db.tables from rfl, hput, Relational.Schema.tableFault?_eq]
    · simp only [hrows, hrefers]
      exact if_congr hcollides rfl rfl
    · intro row hrow
      rw [hrows] at hrow
      obtain ⟨x, -, rfl⟩ := List.mem_map.mp hrow
      exact E.admits x
  rw [Relational.Db.replace, show db.stored.rows = db.tables from rfl, hput,
    show (⟨db.stored.schema, (E.put db xs).tables⟩ : StoredDb) = (E.put db xs).stored from rfl,
    hfault]
  by_cases hpairs : xs.Pairwise fun x y => E.collides x y = false
  · simp only [if_pos hpairs]
    by_cases hrefs : xs.all (E.refers db) = true
    · simp only [if_pos hrefs]
    · simp only [if_neg hrefs]
  · simp only [if_neg hpairs]

/-- The rows of a valid database do not collide, and what they refer to is there. -/
theorem pairwise_rows (h : db.stored.Valid) :
    (E.rows db).Pairwise fun x y => E.collides x y = false := by
  have hkeys := Relational.Table.distinct_all_iff.mp (h.keys E.table E.table_mem)
  rw [E.stored_rows, List.pairwise_map] at hkeys
  exact hkeys.imp fun hxy => (E.collides_eq _ _).symm.trans hxy

theorem refers_rows (h : db.stored.Valid) : (E.rows db).all (E.refers db) = true := by
  refine List.all_eq_true.mpr fun x hx => ?_
  rw [← E.refers_eq, List.all_eq_true]
  refine fun fk hfk => h.references E.table E.table_mem _ ?_ fk hfk
  rw [E.stored_rows]
  exact List.mem_map_of_mem hx

theorem table?_eq : currentSchema.table? E.table.name = some E.table :=
  closed_currentSchema.table?_eq E.table_mem

theorem select_eq {p : StoredRow → Bool} {c : α → Bool} (hp : ∀ x, p (E.row x) = c x) :
    db.stored.select E.table.name p = ((E.rows db).filter c).map E.row := by
  rw [Relational.Db.select, E.stored_rows]
  change ((E.rows db).map E.row).filter p = _
  rw [List.filter_map]
  exact congrArg (fun q => ((E.rows db).filter q).map E.row) (funext hp)

theorem readRows_eq : readRows E.fromRow (xs.map E.row) = .ok xs := by
  have hread : (xs.map E.row).mapM E.fromRow = some xs := by
    induction xs with
    | nil => rfl
    | cons x xs ih => simp [List.mapM_cons, row, E.fromRow_eq, ih]
  rw [readRows, hread]

theorem readRows_select {p : StoredRow → Bool} {c : α → Bool} (hp : ∀ x, p (E.row x) = c x) :
    readRows E.fromRow (db.stored.select E.table.name p) = .ok ((E.rows db).filter c) := by
  rw [E.select_eq hp, E.readRows_eq]

/-- A row is inserted if it collides with none and what it refers to is there. -/
theorem insert_eq (h : db.stored.Valid) (x : α) :
    db.stored.insert E.table.name (E.cells x) =
      if (E.rows db).any (E.collides · x) then (.error .unique, db.stored)
      else if E.refers db x then (.ok (), (E.put db (E.rows db ++ [x])).stored)
      else (.error .foreignKey, db.stored) := by
  have hrows : db.stored.rows E.table.name ++ [E.table.newRow (E.cells x)] =
      (E.rows db ++ [x]).map E.row := by
    rw [E.stored_rows, E.newRow_eq, List.map_append]
    rfl
  rw [Relational.Db.insert, show db.stored.schema = currentSchema from rfl, E.table?_eq]
  simp only [E.stores, if_true, hrows]
  rw [E.replace_eq h fun y hy => ⟨y, List.mem_append_left _ hy, rfl⟩]
  have hpairs : (E.rows db ++ [x]).Pairwise (fun x y => E.collides x y = false) ↔
      ¬(E.rows db).any (E.collides · x) = true := by
    simp [List.pairwise_append, E.pairwise_rows h]
  have hrefers : (E.rows db ++ [x]).all (E.refers db) = E.refers db x := by
    rw [List.all_append, E.refers_rows h]
    simp
  rw [hrefers]
  by_cases hany : (E.rows db).any (E.collides · x) = true
  · rw [if_neg (fun hall => hpairs.mp hall hany), if_pos hany]
  · rw [if_pos (hpairs.mpr hany), if_neg hany]

/-- An update is refused if two of the rows it leaves collide. -/
theorem update_eq (h : db.stored.Valid) {p : StoredRow → Bool} {c : α → Bool} {f : α → α}
    {cells : Cells} (hp : ∀ x, p (E.row x) = c x)
    (hset : ∀ x, (E.row x).set cells = E.row (f x))
    (hstores : (cells.all fun cell => E.table.stores cell.1) = true)
    (hid : ∀ x, E.id (f x) = E.id x) (hrefers : ∀ x, E.refers db (f x) = E.refers db x) :
    db.stored.update E.table.name p cells =
      if ((E.rows db).map fun x => if c x then f x else x).Pairwise
          fun x y => E.collides x y = false then
        (.ok (), (E.put db ((E.rows db).map fun x => if c x then f x else x)).stored)
      else (.error .unique, db.stored) := by
  have hrows : (db.stored.rows E.table.name).map
      (fun row => if p row then Relational.Row.set row cells else row) =
        ((E.rows db).map fun x => if c x then f x else x).map E.row := by
    rw [E.stored_rows, List.map_map, List.map_map]
    refine List.map_congr_left fun x _ => ?_
    by_cases hx : c x = true
    · simp only [Function.comp_apply, hp, hset, if_pos hx]
    · simp only [Function.comp_apply, hp, if_neg hx]
  rw [Relational.Db.update, show db.stored.schema = currentSchema from rfl, E.table?_eq]
  simp only [hstores, if_true, hrows]
  rw [E.replace_eq h]
  · have hall : ((E.rows db).map fun x => if c x then f x else x).all (E.refers db) = true := by
      refine (List.all_map.trans ?_).trans (E.refers_rows h)
      refine congrArg (E.rows db).all (funext fun x => ?_)
      by_cases hx : c x = true
      · simp only [Function.comp_apply, if_pos hx, hrefers]
      · simp only [Function.comp_apply, if_neg hx]
    rw [if_pos hall]
  · intro x hx
    refine ⟨_, List.mem_map_of_mem hx, ?_⟩
    by_cases hc : c x = true
    · rw [if_pos hc, hid]
    · rw [if_neg hc]

theorem eq_row_id (x : α) (id : Uuid) :
    StoredRow.eq (E.row x) .id (.uuid id) = (E.id x == id) := by
  rw [StoredRow.eq, row, E.id_eq, Bool.eq_iff_iff, beq_iff_eq, beq_iff_eq, Option.some.injEq,
    Value.uuid.injEq]

theorem readRows_byId (id : Uuid) :
    readRows E.fromRow (db.stored.select E.table.name fun row => StoredRow.eq row .id (.uuid id)) =
      .ok ((E.rows db).filter (E.id · == id)) :=
  E.readRows_select fun x => E.eq_row_id x id

theorem ids_nodup (h : db.stored.Valid) : ((E.rows db).map E.id).Nodup := by
  refine List.pairwise_map.mpr ((E.pairwise_rows h).imp ?_)
  intro x y hxy heq
  rw [E.collides_id x y heq] at hxy
  cases hxy

section UpdateRow

variable {f : α → α} {model : ActiveModel} {id : Uuid}

/-- The update of a row that is not there. -/
theorem updateRow_of_none (h : db.stored.Valid)
    (hset : ∀ x, (E.row x).set model.cells = E.row (f x))
    (hstores : (model.cells.all fun cell => E.table.stores cell.1) = true)
    (hid : ∀ x, E.id (f x) = E.id x) (hrefers : ∀ x, E.refers db (f x) = E.refers db x)
    (hnone : (E.rows db).find? (E.id · == id) = none) :
    updateRow E.table.name E.fromRow id model db.stored =
      (.error .recordNotUpdated, db.stored) := by
  have hother : ∀ x ∈ E.rows db, (E.id x == id) = false := by
    simpa using List.find?_eq_none.mp hnone
  have hsame : (E.rows db).map (fun x => if E.id x == id then f x else x) = E.rows db := by
    refine (List.map_congr_left fun x hx => ?_).trans (List.map_id _)
    rw [hother x hx]
    rfl
  have hnothing : (E.rows db).filter (E.id · == id) = [] := by
    refine List.filter_eq_nil_iff.mpr fun x hx => ?_
    rw [hother x hx]
    exact Bool.false_ne_true
  rw [updateRow, E.update_eq h (fun x => E.eq_row_id x id) hset hstores hid hrefers, hsame,
    if_pos (E.pairwise_rows h), E.put_rows]
  simp only [E.readRows_byId, hnothing]

/-- The update of one row, which may come to collide with another. -/
theorem updateRow_of_some (h : db.stored.Valid)
    (hset : ∀ x, (E.row x).set model.cells = E.row (f x))
    (hstores : (model.cells.all fun cell => E.table.stores cell.1) = true)
    (hid : ∀ x, E.id (f x) = E.id x) (hrefers : ∀ x, E.refers db (f x) = E.refers db x) {x : α}
    (hsome : (E.rows db).find? (E.id · == id) = some x) :
    updateRow E.table.name E.fromRow id model db.stored =
      if (E.rows db).any fun y => E.id y != id && E.collides y (f x) then
        (.error .uniqueConstraintViolation, db.stored)
      else (.ok (f x), (E.put db ((E.rows db).map fun y =>
        if E.id y == id then f y else y)).stored) := by
  have hx : x ∈ E.rows db := List.mem_of_find?_eq_some hsome
  have hxid : E.id x = id := by simpa using List.find?_some hsome
  have hunique : ∀ y ∈ E.rows db, E.id y = id → y = x := fun y hy hyid =>
    List.inj_on_of_nodup_map (E.ids_nodup h) hy hx (hyid.trans hxid.symm)
  have hpairs : ((E.rows db).map fun y => if E.id y == id then f y else y).Pairwise
      (fun y z => E.collides y z = false) ↔
        ¬((E.rows db).any fun y => E.id y != id && E.collides y (f x)) = true := by
    rw [Relational.pairwise_map_update (fun {y z} hyz => (E.collides_symm z y).trans hyz) ?_
      (E.pairwise_rows h)]
    · simp only [beq_iff_eq, List.any_eq_true, Bool.and_eq_true, bne_iff_ne, not_exists, not_and,
        Bool.not_eq_true]
      constructor
      · exact fun hall y hy => hall x hx hxid y hy
      · intro hall z hz hzid
        rw [hunique z hz hzid]
        exact hall
    · rintro y z hyz ⟨hy, hz⟩
      rw [E.collides_id y z ((eq_of_beq hy).trans (eq_of_beq hz).symm)] at hyz
      cases hyz
  rw [updateRow, E.update_eq h (fun x => E.eq_row_id x id) hset hstores hid hrefers]
  by_cases hany : ((E.rows db).any fun y => E.id y != id && E.collides y (f x)) = true
  · rw [if_neg fun hall => hpairs.mp hall hany, if_pos hany]
    rfl
  · rw [if_pos (hpairs.mpr hany), if_neg hany]
    have hhead : (((E.rows db).map fun y => if E.id y == id then f y else y).filter
        fun y => E.id y == id).head? = some (f x) := by
      rw [List.head?_filter, List.find?_map]
      have hkept : ((fun y => E.id y == id) ∘ fun y => if E.id y == id then f y else y) =
          fun y => E.id y == id := by
        funext y
        by_cases hy : (E.id y == id) = true
        · simp only [Function.comp_apply, if_pos hy, hid]
        · simp only [Function.comp_apply, if_neg hy]
      rw [hkept, hsome, Option.map_some, if_pos (beq_iff_eq.mpr hxid)]
    obtain ⟨rest, hrest⟩ := List.head?_eq_some_iff.mp hhead
    simp only [E.readRows_byId, E.rows_put, hrest]

end UpdateRow

end StoredEntity

end HookExecutor
