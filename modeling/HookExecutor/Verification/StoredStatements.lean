import Mathlib.Data.List.Pairwise
import HookExecutor.Verification.StoredRows

/-!
# The statements, on the tables and on the database

Every statement answers the same and leaves the same on the tables as on the database
they hold, and leaves the tables valid. The constraints a statement is modelled with
are then the schema's, and no other constraint of the schema can refuse it.
-/

namespace HookExecutor

variable {db : Database}

/-- An answer, and the tables it leaves. -/
abbrev Database.inTables {γ : Type} (result : γ × Database) : γ × StoredDb :=
  Prod.map id Database.stored result

theorem inTables_ite {γ : Type} {P : Prop} [Decidable P] (x y : γ × Database) :
    Database.inTables (if P then x else y) =
      if P then Database.inTables x else Database.inTables y :=
  apply_ite Database.inTables P x y

/-! ### Reading -/

theorem readRows_map {ρ α β : Type} {fromRow : ρ → Option β} {toRow : α → ρ} {g : α → β}
    (h : ∀ x, fromRow (toRow x) = some (g x)) (xs : List α) :
    readRows fromRow (xs.map toRow) = .ok (xs.map g) := by
  have hread : (xs.map toRow).mapM fromRow = some (xs.map g) := by
    induction xs with
    | nil => rfl
    | cons x xs ih => simp [List.mapM_cons, h, ih]
  rw [readRows, hread]

/-- At most one row has a given key. -/
theorem filter_key_eq {α κ : Type} [DecidableEq κ] {key : α → κ} {rows : List α}
    (h : (rows.map key).Nodup) (k : κ) :
    rows.filter (key · == k) = (rows.find? (key · == k)).toList := by
  induction rows with
  | nil => rfl
  | cons x rows ih =>
    rw [List.map_cons, List.nodup_cons] at h
    by_cases hx : key x = k
    · have hrest : rows.filter (key · == k) = [] := by
        refine List.filter_eq_nil_iff.mpr fun y hy heq => h.1 ?_
        rw [hx, ← eq_of_beq heq]
        exact List.mem_map_of_mem hy
      have hfirst : (key x == k) = true := beq_iff_eq.mpr hx
      rw [List.filter_cons, if_pos hfirst, hrest, List.find?_cons, hfirst]
      rfl
    · have hfirst : (key x == k) = false := beq_eq_false_iff_ne.mpr hx
      rw [List.filter_cons, if_neg (Bool.eq_false_iff.mp hfirst), List.find?_cons, hfirst]
      exact ih h.2

theorem map_slice {α β : Type} (f : α → β) (page : Page) (rows : List α) :
    page.slice (rows.map f) = (page.slice rows).map f := by
  rw [Page.slice, Page.slice, List.map_take, List.map_drop]

section Joins

variable {α : Type} {toRow : α → StoredRow}

theorem select_hooks (h : db.stored.Valid) (id : Uuid) :
    (db.stored.select .hooks fun hook => (hook .id).isSome && hook .id == some (.uuid id)) =
      ((db.hookWithId id).map (·.row)).toList := by
  have hid : ∀ g : Hook, ((g.row .id).isSome && g.row .id == some (.uuid id)) = (g.id == id) :=
    fun g => (Bool.true_and _).trans (Hook.entity.eq_row_id g id)
  refine (Hook.entity.select_eq hid).trans ?_
  have hfilter : db.hooks.filter (·.id == id) = (db.hooks.find? (·.id == id)).toList :=
    filter_key_eq (Hook.entity.ids_nodup h) id
  change (db.hooks.filter (·.id == id)).map (·.row) = _
  rw [hfilter, Database.hookWithId]
  cases db.hooks.find? (·.id == id) <;> rfl

/-- The join finds the one hook a row names. -/
theorem joinHooks_map (h : db.stored.Valid) (hookId : α → Uuid)
    (hhook : ∀ x, toRow x .hookId = some (.uuid (hookId x))) (rows : List α) :
    joinHooks db.stored (rows.map toRow) =
      rows.map fun x => (toRow x, (db.hookWithId (hookId x)).map (·.row)) := by
  rw [joinHooks, List.flatMap_map, ← List.flatMap_pure_eq_map]
  refine List.flatMap_congr fun x _ => ?_
  rw [hhook, select_hooks h]
  change _ = [(toRow x, (db.hookWithId (hookId x)).map (·.row))]
  cases db.hookWithId (hookId x) <;> rfl

theorem readJoined_row {fromRow : StoredRow → Option α} (hread : ∀ x, fromRow (toRow x) = some x)
    (x : α) (o : Option Hook) :
    readJoined fromRow (toRow x, o.map (·.row)) = some (x, o) := by
  rw [readJoined, hread]
  cases o with
  | none => rfl
  | some g =>
    simp only [Option.map_some, Option.bind_eq_bind, Option.bind_some, Hook.fromRow_row]
    rfl

end Joins

theorem onTables_selectApiKeys (c : ApiKeyCondition) (o : ApiKeyOrder) :
    (Stmt.selectApiKeys c o).onTables db.stored =
      Database.inTables ((Stmt.selectApiKeys c o).exec db) := by
  change (readRows ApiKey.fromRow (o.onRows (db.stored.select .apiKeys c.onRow)), db.stored) = _
  rw [show db.stored.select .apiKeys c.onRow = (db.apiKeys.filter c.holds).map (·.row) from
    ApiKey.entity.select_eq c.onRow_row, o.onRows_row, readRows_map ApiKey.fromRow_row,
    List.map_id']
  rfl

theorem onTables_selectHooks (c : HookCondition) (o : HookOrder) :
    (Stmt.selectHooks c o).onTables db.stored =
      Database.inTables ((Stmt.selectHooks c o).exec db) := by
  change (readRows Hook.fromRow (o.onRows (db.stored.select .hooks c.onRow)), db.stored) = _
  rw [show db.stored.select .hooks c.onRow = (db.hooks.filter c.holds).map (·.row) from
    Hook.entity.select_eq c.onRow_row, o.onRows_row, readRows_map Hook.fromRow_row, List.map_id']
  rfl

theorem onTables_selectHookParameters (hookId : Uuid) :
    (Stmt.selectHookParameters hookId).onTables db.stored =
      Database.inTables ((Stmt.selectHookParameters hookId).exec db) := by
  change (readRows HookParameter.fromRow (orderBy [.createdAt, .paramKey]
    (db.stored.select .hookParameters fun row => StoredRow.eq row .hookId (.uuid hookId))),
      db.stored) = _
  rw [show (db.stored.select .hookParameters fun row => StoredRow.eq row .hookId (.uuid hookId)) =
      (db.hookParameters.filter (·.hookId == hookId)).map (·.row) from
    HookParameter.entity.select_eq fun _ => eq_uuid rfl, orderBy_hookParameters,
    readRows_map HookParameter.fromRow_row, List.map_id']
  rfl

theorem onTables_findHookParameter (paramId : Uuid) :
    (Stmt.findHookParameter paramId).onTables db.stored =
      Database.inTables ((Stmt.findHookParameter paramId).exec db) := by
  have hread : readRows HookParameter.fromRow
      (db.stored.select .hookParameters fun row => StoredRow.eq row .id (.uuid paramId)) =
        .ok (db.hookParameters.filter (·.id == paramId)) :=
    HookParameter.entity.readRows_byId paramId
  change ((readRows HookParameter.fromRow (db.stored.select .hookParameters
    fun row => StoredRow.eq row .id (.uuid paramId))).map (·.head?), db.stored) = _
  rw [hread]
  exact congrArg (fun found => (Except.ok found, db.stored)) List.head?_filter

theorem onTables_selectPermissions (c : PermissionCondition) :
    (Stmt.selectPermissions c).onTables db.stored =
      Database.inTables ((Stmt.selectPermissions c).exec db) :=
  congrArg (·, db.stored) (Permission.entity.readRows_select c.onRow_row)

theorem onTables_selectPermissionsWithHook (h : db.stored.Valid) (c : PermissionCondition) :
    (Stmt.selectPermissionsWithHook c).onTables db.stored =
      Database.inTables ((Stmt.selectPermissionsWithHook c).exec db) := by
  change (readRows (readJoined Permission.fromRow)
    (joinHooks db.stored (db.stored.select .apiKeyHookPermissions c.onRow)), db.stored) = _
  rw [show db.stored.select .apiKeyHookPermissions c.onRow =
      (db.permissions.filter c.holds).map (·.row) from Permission.entity.select_eq c.onRow_row,
    joinHooks_map h Permission.hookId fun _ => rfl,
    readRows_map fun p => readJoined_row Permission.fromRow_row p _]
  rfl

theorem onTables_selectExecutions (c : ExecutionCondition) :
    (Stmt.selectExecutions c).onTables db.stored =
      Database.inTables ((Stmt.selectExecutions c).exec db) :=
  congrArg (·, db.stored) (Execution.entity.readRows_select c.onRow_row)

theorem onTables_selectExecutionsWithHook (h : db.stored.Valid) (c : ExecutionCondition)
    (page : Page) :
    (Stmt.selectExecutionsWithHook c page).onTables db.stored =
      Database.inTables ((Stmt.selectExecutionsWithHook c page).exec db) := by
  change (readRows (readJoined Execution.fromRow) (page.slice (joinHooks db.stored
    (orderByDesc [.timestamp] (db.stored.select .executions c.onRow)))), db.stored) = _
  rw [show db.stored.select .executions c.onRow = (db.executions.filter c.holds).map (·.row) from
      Execution.entity.select_eq c.onRow_row, orderByDesc_executions,
    joinHooks_map h Execution.hookId fun _ => rfl, map_slice,
    readRows_map fun x => readJoined_row Execution.fromRow_row x _, ← map_slice]
  rfl

theorem onTables_selectAuditLogs (c : AuditLogCondition) (page : Page) :
    (Stmt.selectAuditLogs c page).onTables db.stored =
      Database.inTables ((Stmt.selectAuditLogs c page).exec db) := by
  change (readRows AuditLog.fromRow (page.slice
    (orderByDesc [.timestamp] (db.stored.select .auditLogs c.onRow))), db.stored) = _
  rw [show db.stored.select .auditLogs c.onRow = (db.auditLogs.filter c.holds).map (·.row) from
      AuditLog.entity.select_eq c.onRow_row, orderByDesc_auditLogs, map_slice,
    readRows_map AuditLog.fromRow_row, List.map_id']
  rfl

/-! ### Inserting -/

theorem StoredEntity.written_insert {α : Type} (E : StoredEntity α) (h : db.stored.Valid)
    (x : α) :
    written () (db.stored.insert E.table.name (E.cells x)) =
      Database.inTables
        (if (E.rows db).any (E.collides · x) then (.error .uniqueConstraintViolation, db)
        else if E.refers db x then (.ok (), E.put db (E.rows db ++ [x]))
        else (.error .foreignKeyConstraintViolation, db)) := by
  rw [E.insert_eq h]
  by_cases hany : (E.rows db).any (E.collides · x) = true
  · simp only [if_pos hany]
    rfl
  · simp only [if_neg hany]
    by_cases hrefers : E.refers db x = true
    · simp only [if_pos hrefers]
      rfl
    · simp only [if_neg hrefers]
      rfl

theorem onTables_insertApiKey (h : db.stored.Valid) (row : ApiKey) :
    (Stmt.insertApiKey row).onTables db.stored =
      Database.inTables ((Stmt.insertApiKey row).exec db) :=
  ApiKey.entity.written_insert h row

theorem onTables_insertHook (h : db.stored.Valid) (row : Hook) :
    (Stmt.insertHook row).onTables db.stored =
      Database.inTables ((Stmt.insertHook row).exec db) :=
  Hook.entity.written_insert h row

theorem onTables_insertHookParameter (h : db.stored.Valid) (row : HookParameter) :
    (Stmt.insertHookParameter row).onTables db.stored =
      Database.inTables ((Stmt.insertHookParameter row).exec db) :=
  HookParameter.entity.written_insert h row

theorem onTables_insertExecution (h : db.stored.Valid) (row : Execution) :
    (Stmt.insertExecution row).onTables db.stored =
      Database.inTables ((Stmt.insertExecution row).exec db) :=
  Execution.entity.written_insert h row

theorem onTables_insertAuditLog (h : db.stored.Valid) (row : AuditLog) :
    (Stmt.insertAuditLog row).onTables db.stored =
      Database.inTables ((Stmt.insertAuditLog row).exec db) :=
  AuditLog.entity.written_insert h row

/-! ### Updating -/

theorem onTables_updateApiKey (h : db.stored.Valid) (id : Uuid) (u : ApiKeyUpdate) :
    (Stmt.updateApiKey id u).onTables db.stored =
      Database.inTables ((Stmt.updateApiKey id u).exec db) := by
  have hstores : (u.activeModel.cells.all fun cell => CurrentSchema.apiKeys.stores cell.1) = true :=
    ActiveModel.cells_all rfl
  change updateRow .apiKeys ApiKey.fromRow id u.activeModel db.stored =
    Database.inTables (db.updateApiKey id u)
  rw [Database.updateApiKey]
  cases hfind : db.apiKeys.find? (·.id == id) with
  | none =>
    exact ApiKey.entity.updateRow_of_none h u.set_row hstores (fun _ => rfl) (fun _ => rfl) hfind
  | some k =>
    dsimp only
    rw [inTables_ite]
    exact ApiKey.entity.updateRow_of_some h u.set_row hstores (fun _ => rfl) (fun _ => rfl) hfind

theorem onTables_updateHook (h : db.stored.Valid) (id : Uuid) (u : HookUpdate) :
    (Stmt.updateHook id u).onTables db.stored =
      Database.inTables ((Stmt.updateHook id u).exec db) := by
  have hstores : (u.activeModel.cells.all fun cell => CurrentSchema.hooks.stores cell.1) = true :=
    ActiveModel.cells_all rfl
  change updateRow .hooks Hook.fromRow id u.activeModel db.stored =
    Database.inTables (db.updateHook id u)
  rw [Database.updateHook]
  cases hfind : db.hooks.find? (·.id == id) with
  | none =>
    exact Hook.entity.updateRow_of_none h u.set_row hstores (fun _ => rfl) (fun _ => rfl) hfind
  | some g =>
    have hid : g.id = id := by simpa using List.find?_some hfind
    have hcollides :
        (fun other : Hook => other.id != id && Hook.entity.collides other (u.apply g)) =
          fun other => other.id != id && other.name == (u.apply g).name := by
      funext other
      change (other.id != id && (other.id == g.id || other.name == (u.apply g).name)) = _
      rw [hid]
      cases hother : other.id == id with
      | true => simp [bne, hother]
      | false => simp
    dsimp only
    rw [inTables_ite, ← hcollides]
    exact Hook.entity.updateRow_of_some h u.set_row hstores (fun _ => rfl) (fun _ => rfl) hfind

theorem onTables_updateHookParameter (h : db.stored.Valid) (id : Uuid)
    (u : HookParameterUpdate) :
    (Stmt.updateHookParameter id u).onTables db.stored =
      Database.inTables ((Stmt.updateHookParameter id u).exec db) := by
  have hstores : (u.activeModel.cells.all
      fun cell => InitialSchema.hookParameters.stores cell.1) = true := ActiveModel.cells_all rfl
  change updateRow .hookParameters HookParameter.fromRow id u.activeModel db.stored =
    Database.inTables (db.updateHookParameter id u)
  rw [Database.updateHookParameter]
  cases hfind : db.hookParameters.find? (·.id == id) with
  | none =>
    exact HookParameter.entity.updateRow_of_none h u.set_row hstores (fun _ => rfl) (fun _ => rfl)
      hfind
  | some p =>
    have hp : p ∈ db.hookParameters := List.mem_of_find?_eq_some hfind
    have hid : p.id = id := by simpa using List.find?_some hfind
    -- Nothing it changes is in a key.
    have hapart : (db.hookParameters.any fun other =>
        other.id != id && HookParameter.entity.collides other (u.apply p)) = false := by
      refine List.any_eq_false.mpr fun other hother hboth => ?_
      obtain ⟨hne, hcollides⟩ := Bool.and_eq_true_iff.mp hboth
      have hrows := HookParameter.entity.pairwise_rows h
      have hother' : other ≠ p := by
        rintro rfl
        exact absurd hid (bne_iff_ne.mp hne)
      have hsymm : Std.Symm fun x y => HookParameter.entity.collides x y = false :=
        ⟨fun x y hxy => (HookParameter.entity.collides_symm y x).trans hxy⟩
      have hfalse : HookParameter.entity.collides other p = false :=
        hrows.forall hother hp hother'
      exact Bool.false_ne_true (hfalse.symm.trans hcollides)
    refine (HookParameter.entity.updateRow_of_some h u.set_row hstores (fun _ => rfl)
      (fun _ => rfl) hfind).trans ?_
    exact if_neg (Bool.eq_false_iff.mp hapart)

theorem onTables_updateHooks (h : db.stored.Valid) (c : HookCondition) (u : HookUpdate) :
    (Stmt.updateHooks c u).onTables db.stored =
      Database.inTables ((Stmt.updateHooks c u).exec db) := by
  have hstores : (u.activeModel.cells.all fun cell => CurrentSchema.hooks.stores cell.1) = true :=
    ActiveModel.cells_all rfl
  have hupdate := Hook.entity.update_eq h c.onRow_row u.set_row hstores (fun _ => rfl) fun _ => rfl
  have hcount : (db.stored.select .hooks c.onRow).length = (db.hooks.filter c.holds).length :=
    (congrArg List.length (Hook.entity.select_eq c.onRow_row)).trans (List.length_map _)
  have hids : ((db.hooks.map fun g => if c.holds g then u.apply g else g).map (·.id)).Nodup := by
    have hsame : (db.hooks.map fun g => if c.holds g then u.apply g else g).map (·.id) =
        db.hooks.map (·.id) := by
      rw [List.map_map]
      refine List.map_congr_left fun g _ => ?_
      rw [Function.comp_apply]
      split <;> rfl
    rw [hsame]
    exact Hook.entity.ids_nodup h
  have hapart : (db.hooks.map fun g => if c.holds g then u.apply g else g).Pairwise
      fun x y => x.id ≠ y.id := List.pairwise_map.mp hids
  have hnames : (db.hooks.map fun g => if c.holds g then u.apply g else g).Pairwise
      (fun x y => Hook.entity.collides x y = false) ↔
        ((db.hooks.map fun g => if c.holds g then u.apply g else g).map (·.name)).Nodup := by
    constructor
    · intro hpairs
      refine List.pairwise_map.mpr (hpairs.imp ?_)
      intro x y hxy heq
      simp [Hook.entity, heq] at hxy
    · intro hdistinct
      refine ((List.pairwise_map.mp hdistinct).and hapart).imp ?_
      intro x y hxy
      simpa [Hook.entity] using And.symm hxy
  change written (db.stored.select .hooks c.onRow).length
    (db.stored.update .hooks c.onRow u.activeModel.cells) = Database.inTables (db.updateHooks c u)
  rw [hcount, Database.updateHooks]
  by_cases hnodup : ((db.hooks.map fun g => if c.holds g then u.apply g else g).map
      (·.name)).Nodup
  · simp only [if_pos hnodup]
    rw [show db.stored.update .hooks c.onRow u.activeModel.cells = _ from hupdate,
      show Hook.entity.rows db = db.hooks from rfl, if_pos (hnames.mpr hnodup)]
    rfl
  · simp only [if_neg hnodup]
    rw [show db.stored.update .hooks c.onRow u.activeModel.cells = _ from hupdate,
      show Hook.entity.rows db = db.hooks from rfl, if_neg (mt hnames.mp hnodup)]
    rfl

/-! ### Inserting or updating -/

section Upsert

variable {columns : List PermissionColumn} {column : PermissionColumn} {c : ColumnName}

theorem contains_column :
    (columns.map (·.column)).contains column.column = columns.contains column := by
  rw [Bool.eq_iff_iff, List.contains_iff_mem, List.contains_iff_mem]
  refine List.mem_map_of_injective fun x y hxy => ?_
  cases x <;> cases y <;> first | rfl | cases hxy

theorem contains_column_of_ne (h : ∀ x : PermissionColumn, x.column ≠ c) :
    (columns.map (·.column)).contains c = false := by
  rw [← Bool.not_eq_true, List.contains_iff_mem, List.mem_map]
  rintro ⟨x, -, hx⟩
  exact h x hx

theorem lookup_filter (cells : Cells) (p : ColumnName → Bool) (c : ColumnName) :
    (cells.filter fun cell => p cell.1).lookup c = if p c then cells.lookup c else none := by
  induction cells with
  | nil => simp
  | cons cell cells ih =>
    obtain ⟨a, v⟩ := cell
    rw [List.filter_cons, List.lookup_cons]
    by_cases ha : p a = true
    · rw [if_pos ha, List.lookup_cons, ih]
      by_cases hc : c = a
      · simp only [hc, beq_self_eq_true, ha, if_true]
      · simp only [beq_eq_false_iff_ne.mpr hc]
    · rw [if_neg ha, ih]
      by_cases hc : c = a
      · rw [hc, if_neg ha, if_neg ha]
      · simp only [beq_eq_false_iff_ne.mpr hc]

/-- What an upsert overwrites of a permission. -/
theorem overwritePermission_row (columns : List PermissionColumn) (row p : Permission) :
    Relational.Row.set p.row
        (row.cells.filter fun cell => (columns.map (·.column)).contains cell.1) =
      (Database.overwritePermission columns row p).row := by
  funext c
  rw [Relational.Row.set, lookup_filter]
  cases c with
  | canExecute =>
    rw [show ColumnName.canExecute = PermissionColumn.canExecute.column from rfl, contains_column]
    change _ = some (Value.bool (if columns.contains .canExecute then row.canExecute
      else p.canExecute))
    cases columns.contains PermissionColumn.canExecute <;> rfl
  | canManage =>
    rw [show ColumnName.canManage = PermissionColumn.canManage.column from rfl, contains_column]
    change _ = some (Value.bool (if columns.contains .canManage then row.canManage
      else p.canManage))
    cases columns.contains PermissionColumn.canManage <;> rfl
  | canViewExecution =>
    rw [show ColumnName.canViewExecution = PermissionColumn.canViewExecution.column from rfl,
      contains_column]
    change _ = some (Value.bool (if columns.contains .canViewExecution then row.canViewExecution
      else p.canViewExecution))
    cases columns.contains PermissionColumn.canViewExecution <;> rfl
  | _ =>
    rw [contains_column_of_ne fun x => by cases x <;> exact fun hx => by cases hx]
    rfl

end Upsert

theorem collide_pairs (p q : Permission) :
    CurrentSchema.apiKeyHookPermissions.collide [.apiKeyId, .hookId] p.row q.row =
      (p.apiKeyId == q.apiKeyId && p.hookId == q.hookId) := by
  rw [← uuid_beq, ← uuid_beq]
  exact collide_pair rfl rfl rfl rfl

theorem onTables_upsertPermission (h : db.stored.Valid) (row : Permission)
    (columns : List PermissionColumn) :
    (Stmt.upsertPermission row columns).onTables db.stored =
      Database.inTables ((Stmt.upsertPermission row columns).exec db) := by
  have hsame : ∀ p : Permission, CurrentSchema.apiKeyHookPermissions.collide [.apiKeyId, .hookId]
      p.row (CurrentSchema.apiKeyHookPermissions.newRow row.cells) =
        (p.apiKeyId == row.apiKeyId && p.hookId == row.hookId) := by
    intro p
    rw [show CurrentSchema.apiKeyHookPermissions.newRow row.cells = row.row from
      Permission.entity.newRow_eq row]
    exact collide_pairs p row
  have hany : ((db.stored.rows .apiKeyHookPermissions).any fun r =>
      CurrentSchema.apiKeyHookPermissions.collide [.apiKeyId, .hookId] r
        (CurrentSchema.apiKeyHookPermissions.newRow row.cells)) =
          db.permissions.any fun p => p.apiKeyId == row.apiKeyId && p.hookId == row.hookId := by
    change (db.permissions.map (·.row)).any _ = _
    rw [List.any_map]
    exact congrArg db.permissions.any (funext hsame)
  change written () (db.stored.upsert .apiKeyHookPermissions row.cells [.apiKeyId, .hookId]
    (columns.map (·.column))) = Database.inTables (db.upsertPermission row columns)
  rw [Relational.Db.upsert, show db.stored.schema.table? .apiKeyHookPermissions =
    some CurrentSchema.apiKeyHookPermissions from Permission.entity.table?_eq]
  simp only [hany]
  rw [Database.upsertPermission]
  by_cases hthere : (db.permissions.any fun p =>
      p.apiKeyId == row.apiKeyId && p.hookId == row.hookId) = true
  · simp only [if_pos hthere]
    have hupdate := Permission.entity.update_eq h
      (p := fun r => CurrentSchema.apiKeyHookPermissions.collide [.apiKeyId, .hookId] r
        (CurrentSchema.apiKeyHookPermissions.newRow row.cells))
      (c := fun p => p.apiKeyId == row.apiKeyId && p.hookId == row.hookId) hsame
      (overwritePermission_row columns row)
      (List.all_eq_true.mpr fun cell hcell => List.all_eq_true.mp (Permission.entity.stores row)
        cell (List.mem_filter.mp hcell).1) (fun _ => rfl) fun _ => rfl
    have hapart : (db.permissions.map fun p =>
        if (p.apiKeyId == row.apiKeyId && p.hookId == row.hookId) = true then
          Database.overwritePermission columns row p else p).Pairwise
            fun x y => Permission.entity.collides x y = false := by
      refine List.pairwise_map.mpr ((Permission.entity.pairwise_rows h).imp fun hxy => ?_)
      refine Eq.trans ?_ hxy
      split <;> split <;> rfl
    rw [show db.stored.update .apiKeyHookPermissions _ _ = _ from hupdate,
      show Permission.entity.rows db = db.permissions from rfl, if_pos hapart]
    rfl
  · simp only [if_neg hthere]
    have hids : (db.permissions.any (Permission.entity.collides · row)) =
        db.permissions.any (·.id == row.id) := by
      rw [Bool.eq_iff_iff, List.any_eq_true, List.any_eq_true]
      refine exists_congr fun p => and_congr_right fun hp => ?_
      have hnot := List.any_eq_false.mp (Bool.not_eq_true _ ▸ hthere) p hp
      change (p.id == row.id || (p.apiKeyId == row.apiKeyId && p.hookId == row.hookId)) = true ↔ _
      rw [Bool.or_eq_true, or_iff_left hnot]
    refine (Permission.entity.written_insert h row).trans ?_
    rw [show Permission.entity.rows db = db.permissions from rfl, hids]
    rfl

/-! ### Deleting -/

section Deleting

variable {α : Type}

theorem StoredEntity.deleteRows_eq (E : StoredEntity α) {p : StoredRow → Bool} {c : α → Bool}
    (after : Database) (hp : ∀ x, p (E.row x) = c x)
    (hafter : db.stored.delete E.table.name p = after.stored) :
    deleteRows E.table.name p db.stored =
      Database.inTables (.ok ((E.rows db).filter c).length, after) := by
  rw [deleteRows, hafter, E.select_eq hp, List.length_map]
  rfl

theorem goneKey_none : db.goneKey (fun _ => false) = fun _ => false := by
  funext id
  simp [Database.goneKey]

theorem goneHook_none : db.goneHook (fun _ => false) = fun _ => false := by
  funext id
  simp [Database.goneHook]

theorem goneHook_eq (g : Hook → Bool) :
    db.goneHook g = fun id => db.hooks.any fun h => h.id == id && g h := rfl

theorem onTables_deleteApiKeys (c : ApiKeyCondition) :
    (Stmt.deleteApiKeys c).onTables db.stored =
      Database.inTables ((Stmt.deleteApiKeys c).exec db) := by
  have hselects : Selects .apiKeys c.onRow c.holds (fun _ => false) (fun _ => false)
      (fun _ => false) (fun _ => false) (fun _ => false) :=
    ⟨fun x => (Bool.true_and _).trans (c.onRow_row x), fun _ => rfl, fun _ => rfl,
      fun _ => rfl, fun _ => rfl, fun _ => rfl⟩
  refine ApiKey.entity.deleteRows_eq (db.deleteApiKeys c).2 c.onRow_row
    (hselects.delete_eq.trans (congrArg Database.stored ?_))
  simp only [Database.without, goneHook_none, Bool.false_or, Bool.or_false, Bool.not_false,
    List.filter_true]
  rfl

theorem onTables_deleteHooks (c : HookCondition) :
    (Stmt.deleteHooks c).onTables db.stored =
      Database.inTables ((Stmt.deleteHooks c).exec db) := by
  have hselects : Selects .hooks c.onRow (fun _ => false) c.holds (fun _ => false)
      (fun _ => false) (fun _ => false) (fun _ => false) :=
    ⟨fun _ => rfl, fun x => (Bool.true_and _).trans (c.onRow_row x), fun _ => rfl,
      fun _ => rfl, fun _ => rfl, fun _ => rfl⟩
  refine Hook.entity.deleteRows_eq (db.deleteHooks c).2 c.onRow_row
    (hselects.delete_eq.trans (congrArg Database.stored ?_))
  simp [Database.without, Database.deleteHooks, goneHook_eq, goneKey_none]

theorem onTables_deleteHookParameter (paramId : Uuid) :
    (Stmt.deleteHookParameter paramId).onTables db.stored =
      Database.inTables ((Stmt.deleteHookParameter paramId).exec db) := by
  have hid : ∀ p : HookParameter, StoredRow.eq p.row .id (.uuid paramId) = (p.id == paramId) :=
    fun p => HookParameter.entity.eq_row_id p paramId
  have hselects : Selects .hookParameters (fun row => StoredRow.eq row .id (.uuid paramId))
      (fun _ => false) (fun _ => false) (·.id == paramId) (fun _ => false) (fun _ => false)
      (fun _ => false) :=
    ⟨fun _ => rfl, fun _ => rfl, fun p => (Bool.true_and _).trans (hid p), fun _ => rfl,
      fun _ => rfl, fun _ => rfl⟩
  refine HookParameter.entity.deleteRows_eq (db.deleteHookParameter paramId).2 hid
    (hselects.delete_eq.trans (congrArg Database.stored ?_))
  simp [Database.without, Database.deleteHookParameter, goneKey_none, goneHook_none, bne]

theorem onTables_deletePermissions (c : PermissionCondition) :
    (Stmt.deletePermissions c).onTables db.stored =
      Database.inTables ((Stmt.deletePermissions c).exec db) := by
  have hselects : Selects .apiKeyHookPermissions c.onRow (fun _ => false) (fun _ => false)
      (fun _ => false) c.holds (fun _ => false) (fun _ => false) :=
    ⟨fun _ => rfl, fun _ => rfl, fun _ => rfl,
      fun x => (Bool.true_and _).trans (c.onRow_row x), fun _ => rfl, fun _ => rfl⟩
  refine Permission.entity.deleteRows_eq (db.deletePermissions c).2 c.onRow_row
    (hselects.delete_eq.trans (congrArg Database.stored ?_))
  simp [Database.without, Database.deletePermissions, goneKey_none, goneHook_none]

theorem onTables_deleteExecutions (c : ExecutionCondition) :
    (Stmt.deleteExecutions c).onTables db.stored =
      Database.inTables ((Stmt.deleteExecutions c).exec db) := by
  have hselects : Selects .executions c.onRow (fun _ => false) (fun _ => false) (fun _ => false)
      (fun _ => false) c.holds (fun _ => false) :=
    ⟨fun _ => rfl, fun _ => rfl, fun _ => rfl,
      fun _ => rfl, fun x => (Bool.true_and _).trans (c.onRow_row x), fun _ => rfl⟩
  refine Execution.entity.deleteRows_eq (db.deleteExecutions c).2 c.onRow_row
    (hselects.delete_eq.trans (congrArg Database.stored ?_))
  simp [Database.without, Database.deleteExecutions, goneKey_none, goneHook_none]

end Deleting

/-! ### Any statement -/

/-- A statement comes to the same on the tables as on the database they hold. -/
theorem onTables_stored {β : Type} (h : db.stored.Valid) (s : Stmt β) :
    s.onTables db.stored = Database.inTables (s.exec db) := by
  cases s with
  | selectApiKeys c o => exact onTables_selectApiKeys c o
  | insertApiKey row => exact onTables_insertApiKey h row
  | updateApiKey id u => exact onTables_updateApiKey h id u
  | deleteApiKeys c => exact onTables_deleteApiKeys c
  | selectHooks c o => exact onTables_selectHooks c o
  | insertHook row => exact onTables_insertHook h row
  | updateHook id u => exact onTables_updateHook h id u
  | updateHooks c u => exact onTables_updateHooks h c u
  | deleteHooks c => exact onTables_deleteHooks c
  | selectHookParameters hookId => exact onTables_selectHookParameters hookId
  | findHookParameter id => exact onTables_findHookParameter id
  | insertHookParameter row => exact onTables_insertHookParameter h row
  | updateHookParameter id u => exact onTables_updateHookParameter h id u
  | deleteHookParameter id => exact onTables_deleteHookParameter id
  | selectPermissions c => exact onTables_selectPermissions c
  | selectPermissionsWithHook c => exact onTables_selectPermissionsWithHook h c
  | upsertPermission row columns => exact onTables_upsertPermission h row columns
  | deletePermissions c => exact onTables_deletePermissions c
  | selectExecutions c => exact onTables_selectExecutions c
  | selectExecutionsWithHook c page => exact onTables_selectExecutionsWithHook h c page
  | insertExecution row => exact onTables_insertExecution h row
  | deleteExecutions c => exact onTables_deleteExecutions c
  | insertAuditLog row => exact onTables_insertAuditLog h row
  | selectAuditLogs c page => exact onTables_selectAuditLogs c page

theorem written_snd {β : Type} (a : β) (result : Except Relational.Fault Unit × StoredDb) :
    (written a result).2 = result.2 := by
  obtain ⟨answer, t⟩ := result
  cases answer <;> rfl

theorem updateRow_snd {α : Type} {name : TableName} {fromRow : StoredRow → Option α} {id : Uuid}
    {model : ActiveModel} {t : StoredDb} :
    (updateRow name fromRow id model t).2 =
      (t.update name (fun row => StoredRow.eq row .id (.uuid id)) model.cells).2 := by
  rw [updateRow]
  split
  · rename_i hupdate
    rw [hupdate]
  · rename_i hupdate
    rw [hupdate]
    split <;> rfl

theorem stored_delete_valid (h : db.stored.Valid) (name : TableName) (p : StoredRow → Bool) :
    (db.stored.delete name p).Valid :=
  h.delete closed_currentSchema layered_currentSchema clearable_currentSchema

/-- A statement leaves what the schema declares. -/
theorem onTables_valid {β : Type} (h : db.stored.Valid) (s : Stmt β) :
    (s.onTables db.stored).2.Valid := by
  have hinsert : ∀ name cells, (written () (db.stored.insert name cells)).2.Valid :=
    fun name cells => written_snd () _ ▸ h.insert name cells
  have hupdate : ∀ {α : Type} (name : TableName) (fromRow : StoredRow → Option α) id model,
      (updateRow name fromRow id model db.stored).2.Valid :=
    fun name fromRow id model => updateRow_snd ▸ h.update name _ _
  cases s with
  | insertApiKey row => exact hinsert _ _
  | insertHook row => exact hinsert _ _
  | insertHookParameter row => exact hinsert _ _
  | insertExecution row => exact hinsert _ _
  | insertAuditLog row => exact hinsert _ _
  | updateApiKey id u => exact hupdate _ _ _ _
  | updateHook id u => exact hupdate _ _ _ _
  | updateHookParameter id u => exact hupdate _ _ _ _
  | updateHooks c u => exact written_snd (db.stored.select .hooks c.onRow).length _ ▸ h.update _ _ _
  | upsertPermission row columns => exact written_snd () _ ▸ h.upsert _ _ _ _
  | deleteApiKeys c => exact stored_delete_valid h _ _
  | deleteHooks c => exact stored_delete_valid h _ _
  | deleteHookParameter id => exact stored_delete_valid h _ _
  | deletePermissions c => exact stored_delete_valid h _ _
  | deleteExecutions c => exact stored_delete_valid h _ _
  | _ => exact h

theorem exec_valid {β : Type} (h : db.stored.Valid) (s : Stmt β) : (s.exec db).2.stored.Valid := by
  have hvalid := onTables_valid h s
  rwa [onTables_stored h s] at hvalid

end HookExecutor
