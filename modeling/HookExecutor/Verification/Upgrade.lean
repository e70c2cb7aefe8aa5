import HookExecutor.Migration

/-!
# Upgrading a database

A database at any level comes to the current one if no more than one of its keys is
the master, which only matters below the level that declares it unique. What it
holds is carried over cell by cell: a cell of a column that stays is kept, one of a
new column is its default, and a retired mode is replaced.
-/

namespace HookExecutor

open Relational (Change Fault)

namespace Migrator

/-- The schema the first migrations come to, on nothing. -/
def schemaAt (n : Nat) : StoredSchema :=
  Change.schemaAfter ((migrations.take n).flatMap (·.up)) ⟨[], []⟩

/-- A database as some release left it: it has recorded the first migrations, and its
rows are what their schema declares. -/
structure AtLevel (n : Nat) (s : Migrated) : Prop where
  level : n ≤ migrations.length
  applied : s.applied = (migrations.take n).map (·.name)
  schema : s.db.schema = schemaAt n
  valid : s.db.Valid
  tidy : s.db.Tidy

/-- No two keys are the master. -/
def OneMaster (db : StoredDb) : Prop :=
  (db.rows .apiKeys).Pairwise fun r s =>
    ¬(r .isMaster = some (.bool true) ∧ s .isMaster = some (.bool true))

section Levels

variable {n : Nat} {s : Migrated} {migration : Migration}

theorem names_nodup : (migrations.map (·.name)).Nodup := by decide

/-- Each migration is allowed where the ones before it lead. -/
theorem allowed_schemaAt : ∀ n : Fin migrations.length,
    Change.allowed (migrations.get n).up (schemaAt n) = true := by
  decide

theorem schemaAt_succ (h : n < migrations.length) :
    schemaAt (n + 1) = Change.schemaAfter migrations[n].up (schemaAt n) := by
  simp only [schemaAt, Change.schemaAfter, List.take_succ_eq_append_getElem h, List.flatMap_append,
    List.flatMap_singleton, List.foldl_append]

theorem pending_eq (h : s.applied = (migrations.take n).map (·.name)) :
    pending s = migrations.drop n := by
  have hsplit := names_nodup
  rw [← List.take_append_drop n migrations, List.map_append, List.nodup_append] at hsplit
  unfold Migrator.pending
  conv_lhs => rw [← List.take_append_drop n migrations]
  rw [List.filter_append, h]
  have hdone : (migrations.take n).filter
      (fun m => !((migrations.take n).map (·.name)).contains m.name) = [] := by
    refine List.filter_eq_nil_iff.mpr fun m hm => ?_
    rw [List.contains_iff_mem.mpr (List.mem_map_of_mem hm)]
    exact Bool.false_ne_true
  have hrest : (migrations.drop n).filter
      (fun m => !((migrations.take n).map (·.name)).contains m.name) = migrations.drop n := by
    refine List.filter_eq_self.mpr fun m hm => ?_
    rw [Bool.not_eq_true', ← Bool.not_eq_true, List.contains_iff_mem]
    exact fun hmem => hsplit.2.2 _ hmem _ (List.mem_map_of_mem hm) rfl
  rw [hdone, hrest, List.nil_append]

theorem known (h : s.applied = (migrations.take n).map (·.name)) :
    s.applied.all (migrations.map (·.name)).contains = true := by
  rw [h, List.all_eq_true]
  intro name hname
  obtain ⟨m, hm, rfl⟩ := List.mem_map.mp hname
  exact List.contains_iff_mem.mpr (List.mem_map_of_mem (List.mem_of_mem_take hm))

/-- One migration takes a database to the next level. -/
theorem AtLevel.step (h : AtLevel n s) (hn : n < migrations.length)
    (haccepted : Change.Accepted migrations[n].up s.db) :
    Change.execAll migrations[n].up s.db =
        (.ok (), ⟨schemaAt (n + 1), Change.onRowsAll migrations[n].up s.db.rows⟩) ∧
      AtLevel (n + 1) ⟨s.applied ++ [migrations[n].name],
        ⟨schemaAt (n + 1), Change.onRowsAll migrations[n].up s.db.rows⟩⟩ := by
  have hallowed : Change.allowed migrations[n].up s.db.schema = true := by
    rw [h.schema]
    exact allowed_schemaAt ⟨n, hn⟩
  obtain ⟨hexec, hvalid, htidy⟩ :=
    Change.execAll_of_allowed hallowed haccepted h.valid h.tidy
  rw [h.schema, ← schemaAt_succ hn] at hexec hvalid htidy
  refine ⟨hexec, hn, ?_, rfl, hvalid, htidy⟩
  simp only [h.applied, List.take_succ_eq_append_getElem hn, List.map_append, List.map_cons,
    List.map_nil]

/-! ### What each migration needs of the rows -/

/-- All but three migrations need nothing. -/
theorem isSafe_up : ∀ n : Fin migrations.length, n.val = 0 ∨ n.val = 2 ∨ n.val = 5 ∨ n.val = 10 ∨
    ∀ change ∈ (migrations.get n).up, change.isSafe = true := by
  decide

theorem isSafe_initialSchema : ∀ change ∈ InitialSchema.migration.up,
    change.isSafe = true ∨ ∃ i, change = .createIndex i := by
  simp [InitialSchema.migration, Change.isSafe]

theorem AtLevel.empty (h : AtLevel 0 s) (name : TableName) : s.db.rows name = [] := by
  refine h.tidy.rows name ?_
  rw [h.schema]
  rfl

/-- The new identifiers are all NULL, and do not collide. -/
theorem accepted_addSigningSecret {db : StoredDb} (hclosed : db.schema.Closed) :
    Change.Accepted addSigningSecret.up db := by
  refine ⟨rfl, fun σ₁ h₁ => ⟨rfl, fun σ₂ h₂ => ⟨?_, fun _ _ => trivial⟩⟩⟩
  intro _ t ht hname
  obtain ⟨u, hu, hunamed, hcolumn⟩ :=
    Change.column?_addColumn_of_ne (c := ColumnName.keyId) h₂ ht (by decide)
  have hnew : u.column? .keyId = some (ColumnDef.string .keyId) :=
    Change.column?_addColumn hclosed h₁ hu (hunamed.trans hname)
  rw [hnew] at hcolumn
  have hstores : t.stores .keyId = true := by
    rw [Relational.Table.stores, hcolumn]
    rfl
  refine decide_eq_true (List.pairwise_of_forall_mem_list fun r hr s _ => ?_)
  have hnull : t.read r .keyId = none := by
    rw [Relational.Table.read_of_stores hstores]
    rw [hname] at hr
    obtain ⟨row₁, hrow₁, rfl⟩ := List.mem_map.mp hr
    obtain ⟨row, -, rfl⟩ := List.mem_map.mp hrow₁
    rfl
  simp [Relational.Table.collide, hnull]

theorem any_isTrue {cell : Option Value} : cell.any Value.isTrue = true ↔
    cell = some (.bool true) := by
  cases cell with
  | none => simp
  | some v => cases v <;> simp [Value.isTrue]

def addMarker : SchemaChange :=
  .addColumn .apiKeys ⟨.masterMarker, .derived .isMaster Value.isTrue (.int 1)⟩

/-- The unique marker is accepted if no two keys are the master. -/
theorem accepted_masterKeyUniqueness {db : StoredDb} (hclosed : db.schema.Closed) {σ : StoredSchema}
    (hschema : addMarker.onSchema db.schema = .ok σ)
    (htable : ∃ t ∈ σ.tables, t.name = TableName.apiKeys) :
    Change.Accepted masterKeyUniqueness.up db ↔ OneMaster db := by
  have hcollide : ∀ t ∈ σ.tables, t.name = TableName.apiKeys → ∀ r s : StoredRow,
      t.collide [.masterMarker] r s = true ↔
        r .isMaster = some (.bool true) ∧ s .isMaster = some (.bool true) := by
    intro t ht hname r s
    have hread : ∀ row : StoredRow, t.read row .masterMarker =
        if (row .isMaster).any Value.isTrue then some (.int 1) else none := by
      intro row
      rw [Relational.Table.read, Change.column?_addColumn hclosed hschema ht hname]
      rfl
    rw [← any_isTrue, ← any_isTrue]
    simp only [Relational.Table.collide, List.all_cons, List.all_nil, hread]
    cases (r .isMaster).any Value.isTrue <;> cases (s .isMaster).any Value.isTrue <;> simp
  have hrows : ∀ t ∈ σ.tables, t.name = TableName.apiKeys →
      (t.distinct [.masterMarker] (addMarker.onRows db.rows t.name) = true ↔ OneMaster db) := by
    intro t ht hname
    have hafter : addMarker.onRows db.rows .apiKeys =
        (db.rows .apiKeys).map (addMarker.onRow .apiKeys) := rfl
    rw [hname, hafter, Relational.Table.distinct, decide_eq_true_iff, List.pairwise_map]
    refine List.Pairwise.iff fun r s => ?_
    rw [← Bool.not_eq_true, hcollide t ht hname]
    rfl
  constructor
  · rintro ⟨-, hrest⟩
    obtain ⟨t, ht, hname⟩ := htable
    exact (hrows t ht hname).mp ((hrest σ hschema).1 rfl t ht hname)
  · intro hone
    refine ⟨rfl, fun σ' hσ' => ⟨fun _ t ht hname => ?_, fun _ _ => trivial⟩⟩
    obtain rfl := Except.ok.inj (hschema.symm.trans hσ')
    exact (hrows t ht hname).mpr hone

/-- The schema with the marker and without its index. -/
def markedSchema : StoredSchema := Change.schemaAfter [addMarker] (schemaAt 5)

theorem onSchema_addMarker : addMarker.onSchema (schemaAt 5) = .ok markedSchema := rfl

theorem apiKeys_mem_markedSchema : ∃ t ∈ markedSchema.tables, t.name = TableName.apiKeys := by
  decide

set_option maxRecDepth 4000 in
theorem accepted_consolidateHmacModes {db : StoredDb} (h : db.schema = schemaAt 10) :
    Change.Accepted consolidateHmacModes.up db := by
  have hunused : (schemaAt 10).uses .apiKeys .hmacMode = false ∧
      ∀ t ∈ (schemaAt 10).tables, t.name = .apiKeys → ∀ column ∈ t.columns,
        column.name = .hmacMode → column.admits (some (.text "CANONICAL_V1")) = true := by
    decide
  refine ⟨?_, fun _ _ => ⟨rfl, fun _ _ => trivial⟩⟩
  rwa [← h] at hunused

theorem AtLevel.closed (h : AtLevel n s) (hn : n < migrations.length) : s.db.schema.Closed := by
  have hallowed : ∀ n : Fin migrations.length, (schemaAt n).Closed := by decide
  rw [h.schema]
  exact hallowed ⟨n, hn⟩

/-- Only the migration that declares the master unique depends on the rows. -/
theorem AtLevel.accepted (h : AtLevel n s) (hn : n < migrations.length)
    (hone : n = 5 → OneMaster s.db) : Change.Accepted migrations[n].up s.db := by
  obtain rfl | rfl | rfl | rfl | hsafe : n = 0 ∨ n = 2 ∨ n = 5 ∨ n = 10 ∨
      ∀ change ∈ migrations[n].up, change.isSafe = true := isSafe_up ⟨n, hn⟩
  · exact Change.accepted_of_empty isSafe_initialSchema h.empty
  · exact accepted_addSigningSecret (h.closed hn)
  · have hmarked : addMarker.onSchema s.db.schema = .ok markedSchema := by
      rw [h.schema]
      exact onSchema_addMarker
    exact (accepted_masterKeyUniqueness (h.closed hn) hmarked apiKeys_mem_markedSchema).mpr
      (hone rfl)
  · exact accepted_consolidateHmacModes h.schema
  · exact Change.accepted_of_isSafe hsafe

/-! ### The run -/

/-- Everything that is done to a database of a level. -/
def script (n : Nat) : List SchemaChange := (migrations.drop n).flatMap (·.up)

theorem script_succ (hn : n < migrations.length) :
    script n = migrations[n].up ++ script (n + 1) := by
  rw [script, List.drop_eq_getElem_cons hn, List.flatMap_cons, ← script]

/-- No migration decides who is the master. -/
theorem isMaster_kept : ∀ n : Fin migrations.length, ∀ change ∈ (migrations.get n).up,
    change.overwrites .apiKeys .isMaster = false ∧
      change.replaces .apiKeys .isMaster = none := by
  decide

theorem oneMaster_step (hn : n < migrations.length) (σ : StoredSchema) :
    OneMaster ⟨σ, Change.onRowsAll migrations[n].up s.db.rows⟩ ↔ OneMaster s.db := by
  have hkept : ∀ change ∈ migrations[n].up,
      change.overwrites .apiKeys .isMaster = false ∧ change.replaces .apiKeys .isMaster = none :=
    isMaster_kept ⟨n, hn⟩
  have hcell : ∀ cell : Option Value,
      Change.cellAfter migrations[n].up .apiKeys .isMaster cell = cell := by
    refine fun cell => Change.cellAfter_of_not_overwrites ?_ ?_
    · exact List.any_eq_false.mpr fun change hmem => by simp [(hkept change hmem).1]
    · intro change hmem old hold
      simp [(hkept change hmem).2] at hold
  rw [OneMaster, Change.onRowsAll_eq, List.pairwise_map]
  simp only [hcell, OneMaster]

/-- Every migration that is left is applied, if no two keys are the master where that
matters. -/
theorem AtLevel.applyAll (transactions : Transactions) (h : AtLevel n s)
    (hone : n ≤ 5 → OneMaster s.db) :
    ∃ s', Migrator.applyAll transactions (migrations.drop n) s = (.ok (), s') ∧
      AtLevel migrations.length s' ∧ s'.db.rows = Change.onRowsAll (script n) s.db.rows := by
  induction hleft : migrations.length - n generalizing n s with
  | zero =>
    obtain rfl : n = migrations.length := by
      have := h.level
      omega
    exact ⟨s, by rw [List.drop_length]; rfl, h, rfl⟩
  | succ left ih =>
    have hn : n < migrations.length := by omega
    obtain ⟨hexec, hnext⟩ := h.step hn (h.accepted hn fun heq => hone (by omega))
    obtain ⟨s', hrun, hlevel, hrows⟩ :=
      ih hnext (fun hle => (oneMaster_step hn _).mpr (hone (by omega))) (by omega)
    refine ⟨s', ?_, hlevel, ?_⟩
    · rw [List.drop_eq_getElem_cons hn, Migrator.applyAll, hexec]
      exact hrun
    · rw [hrows, script_succ hn]
      simp only [Change.onRowsAll, List.foldl_append]

/-- Two masters are found out when the unique marker is declared, after the marker
itself has been added. -/
theorem AtLevel.execAll_masterKeyUniqueness (h : AtLevel 5 s) (htwo : ¬OneMaster s.db) :
    Change.execAll masterKeyUniqueness.up s.db =
      (.error .unique, ⟨markedSchema, addMarker.onRows s.db.rows⟩) := by
  have hclosed := h.closed (by decide)
  have hmarked : addMarker.onSchema s.db.schema = .ok markedSchema := by
    rw [h.schema]
    exact onSchema_addMarker
  obtain ⟨hfirst, hvalid, -⟩ := Change.exec_of_accepts h.valid h.tidy hclosed hmarked rfl
  have hrefuses : ¬Change.Accepted masterKeyUniqueness.up s.db :=
    fun haccepted => htwo ((accepted_masterKeyUniqueness hclosed hmarked
      apiKeys_mem_markedSchema).mp haccepted)
  have hindexed : (Change.createIndex ⟨markerIndex, .apiKeys, [.masterMarker], true⟩).onSchema
      markedSchema = .ok (schemaAt 6) := rfl
  have hsecond := Change.exec_createIndex_refused hvalid hindexed fun haccepts =>
    hrefuses ⟨rfl, fun σ hσ =>
      ⟨by obtain rfl := Except.ok.inj (hmarked.symm.trans hσ); exact haccepts,
      fun _ _ => trivial⟩⟩
  rw [masterKeyUniqueness, Change.execAll]
  rw [show Change.addColumn _ _ = addMarker from rfl, hfirst]
  simp only [Change.execAll, hsecond]

/-- What two masters leave: nothing of the migration that found them out in a
transaction, the marker without one. -/
theorem AtLevel.applyAll_refused (transactions : Transactions) (h : AtLevel n s) (hn : n ≤ 5)
    (htwo : ¬OneMaster s.db) :
    ∃ t, AtLevel 5 t ∧ ¬OneMaster t.db ∧
      Migrator.applyAll transactions (migrations.drop n) s = (.error .unique,
        if transactions = .none then ⟨t.applied, ⟨markedSchema, addMarker.onRows t.db.rows⟩⟩
        else t) := by
  induction hleft : 5 - n generalizing n s with
  | zero =>
    obtain rfl : n = 5 := by omega
    refine ⟨s, h, htwo, ?_⟩
    rw [List.drop_eq_getElem_cons (by decide), Migrator.applyAll]
    rw [show migrations[5].up = masterKeyUniqueness.up from rfl,
      h.execAll_masterKeyUniqueness htwo]
  | succ left ih =>
    have hlt : n < migrations.length := hn.trans_lt (by decide)
    obtain ⟨hexec, hnext⟩ := h.step hlt (h.accepted hlt fun heq => by omega)
    obtain ⟨t, hlevel, htwo', hrun⟩ :=
      ih hnext (by omega) (mt (oneMaster_step hlt _).mp htwo) (by omega)
    refine ⟨t, hlevel, htwo', ?_⟩
    rw [List.drop_eq_getElem_cons hlt, Migrator.applyAll, hexec]
    exact hrun

/-- A marker that is there already stops every run. -/
theorem up_marked {transactions : Transactions}
    (happlied : s.applied = (migrations.take 5).map (·.name)) (hschema : s.db.schema = markedSchema) :
    up transactions s = (.error .alreadyThere, s) := by
  have hexec : Change.execAll migrations[5].up s.db = (.error .alreadyThere, s.db) := by
    have hagain : addMarker.onSchema markedSchema = .error .alreadyThere := rfl
    rw [show migrations[5].up = masterKeyUniqueness.up from rfl, masterKeyUniqueness,
      Change.execAll, Change.exec, show Change.addColumn _ _ = addMarker from rfl, hschema, hagain]
  have hrun : Migrator.applyAll transactions (migrations.drop 5) s = (.error .alreadyThere, s) := by
    rw [List.drop_eq_getElem_cons (by decide), Migrator.applyAll, hexec]
    simp only [ite_self]
  simp only [up, known happlied, pending_eq happlied, hrun, ite_self, if_true]

end Levels

/-! ### What becomes of the rows -/

def tableNames : List TableName :=
  [.apiKeys, .hooks, .hookParameters, .apiKeyHookPermissions, .executions, .auditLogs]

theorem mem_tableNames (name : TableName) : name ∈ tableNames := by
  cases name <;> decide

def columnNames : List ColumnName :=
  [.id, .name, .keyHash, .prefixText, .boundIps, .maxConcurrentJobs, .isMaster, .canManageKeys,
    .canManageHooks, .createdAt, .updatedAt, .keyId, .signingSecret, .hmacMode, .masterMarker,
    .parentKeyId, .ownerKeyId, .canonicalTemplate, .description, .scriptPath,
    .defaultTimeoutSeconds, .runAsUser, .isDeleted, .deletedAt, .deletedBy, .authMode,
    .hmacSecret, .signatureHeader, .signaturePrefix, .samplePayloadJson, .argsTemplate, .hookId,
    .paramKey, .defaultValue, .isRequired, .apiKeyId, .canExecute, .canManage,
    .canViewExecution, .status, .exitCode, .stdout, .stderr, .parametersJson, .durationMs,
    .timestamp, .apiKeyName, .apiKeyPrefix, .clientIp, .action, .targetResource, .details]

theorem mem_columnNames (c : ColumnName) : c ∈ columnNames := by
  cases c <;> decide

def storesAt (n : Nat) (name : TableName) (c : ColumnName) : Bool :=
  ((schemaAt n).table? name).any (·.stores c)

def defaultOf (name : TableName) (c : ColumnName) : Option Value :=
  (((schemaAt migrations.length).table? name).bind (·.column? c)).bind (·.default)

/-- `BODY_ONLY` is replaced in a database that may still hold it. -/
def modernMode (n : Nat) (name : TableName) (c : ColumnName) (cell : Option Value) :
    Option Value :=
  if n ≤ 10 ∧ name = .apiKeys ∧ c = .hmacMode ∧ cell = some (.text "BODY_ONLY") then
    some (.text "CANONICAL_V1")
  else cell

/-- What a cell of a database of level `n` comes to: a column that stays keeps it, a
new column has its default, a column that goes has nothing. -/
def carried (n : Nat) (name : TableName) (row : StoredRow) : StoredRow := fun c =>
  if storesAt migrations.length name c then
    if storesAt n name c then modernMode n name c (row c) else defaultOf name c
  else none

/-- What the script of a level does to each cell, decided over the tables it finds. -/
theorem script_cells : ∀ n : Fin (migrations.length + 1), ∀ name ∈ tableNames,
    ∀ c ∈ columnNames, ((schemaAt n).table? name).isSome = true →
      (if (script n).any (·.overwrites name c) then
        Change.cellAfter (script n) name c none =
            (if storesAt migrations.length name c then defaultOf name c else none) ∧
          (storesAt migrations.length name c = true → storesAt n name c = false)
      else
        (storesAt n name c = true → storesAt migrations.length name c = true) ∧
          (storesAt n name c = false → storesAt migrations.length name c = false)) := by
  decide

theorem script_replaces : (∀ name ∈ tableNames, ∀ c ∈ columnNames, ∀ change ∈ script 0,
      change.replaces name c = none ∨ name = .apiKeys ∧ c = .hmacMode ∧
        change.replaces name c = some (.text "BODY_ONLY")) ∧
    ∀ name ∈ tableNames, ∀ c ∈ columnNames, ∀ change ∈ script 11,
      change.replaces name c = none := by
  decide

theorem script_subset {m n : Nat} (h : m ≤ n) {change : SchemaChange} (hmem : change ∈ script n) :
    change ∈ script m := by
  obtain ⟨migration, hmigration, hchange⟩ := List.mem_flatMap.mp hmem
  refine List.mem_flatMap.mpr ⟨migration, ?_, hchange⟩
  have hdrop : migrations.drop n = (migrations.drop m).drop (n - m) := by
    rw [List.drop_drop, Nat.add_sub_cancel' h]
  exact List.mem_of_mem_drop (hdrop ▸ hmigration)

theorem script_mode : ∀ n : Fin (migrations.length + 1), n.val ≤ 10 →
    (script n).any (·.overwrites .apiKeys .hmacMode) = false →
      Change.cellAfter (script n) .apiKeys .hmacMode (some (.text "BODY_ONLY")) =
        some (.text "CANONICAL_V1") := by
  decide

section Rows

variable {n : Nat} {s : Migrated} {name : TableName} {c : ColumnName} {row : StoredRow}

theorem replaces_of_mem_script {change : SchemaChange} (h : change ∈ script n) {old : Value}
    (hold : change.replaces name c = some old) :
    n ≤ 10 ∧ name = .apiKeys ∧ c = .hmacMode ∧ old = .text "BODY_ONLY" := by
  have hlevel : n ≤ 10 := by
    by_contra hlate
    have hnone := script_replaces.2 name (mem_tableNames name) c (mem_columnNames c) change
      (script_subset (by omega) h)
    rw [hnone] at hold
    cases hold
  obtain hnone | ⟨hname, hc, hsome⟩ := script_replaces.1 name (mem_tableNames name) c
    (mem_columnNames c) change (script_subset (Nat.zero_le n) h)
  · rw [hnone] at hold
    cases hold
  · exact ⟨hlevel, hname, hc, Option.some.inj (hold.symm.trans hsome)⟩

/-- A cell that is not overwritten is kept, but for a retired mode. -/
theorem cellAfter_script_of_kept (hn : n ≤ migrations.length)
    (hkept : (script n).any (·.overwrites name c) = false) (cell : Option Value) :
    Change.cellAfter (script n) name c cell = modernMode n name c cell := by
  by_cases hretired : n ≤ 10 ∧ name = .apiKeys ∧ c = .hmacMode ∧ cell = some (.text "BODY_ONLY")
  · rw [modernMode, if_pos hretired]
    obtain ⟨hlevel, rfl, rfl, rfl⟩ := hretired
    exact script_mode ⟨n, Nat.lt_succ_of_le hn⟩ hlevel hkept
  · rw [modernMode, if_neg hretired]
    refine Change.cellAfter_of_not_overwrites hkept ?_
    rintro change hmem old hold rfl
    obtain ⟨hlevel, hname, hc, rfl⟩ := replaces_of_mem_script hmem hold
    exact hretired ⟨hlevel, hname, hc, rfl⟩

theorem AtLevel.cellAfter_script (h : AtLevel n s) (hrow : row ∈ s.db.rows name) (c : ColumnName) :
    Change.cellAfter (script n) name c (row c) = carried n name row c := by
  have htable : ((schemaAt n).table? name).isSome = true := by
    by_contra hnone
    rw [h.tidy.rows name (by rw [h.schema]; simpa using hnone)] at hrow
    cases hrow
  have hcells := script_cells ⟨n, Nat.lt_succ_of_le h.level⟩ name (mem_tableNames name) c
    (mem_columnNames c) htable
  by_cases hoverwritten : (script n).any (·.overwrites name c) = true
  · obtain ⟨hcell, hnew⟩ := (if_pos hoverwritten).mp hcells
    rw [Change.cellAfter_of_overwrites hoverwritten (row c) none, hcell, carried]
    by_cases hstores : storesAt migrations.length name c = true
    · rw [if_pos hstores, if_pos hstores, hnew hstores]
      rfl
    · rw [if_neg hstores, if_neg hstores]
  · obtain ⟨hstays, hgone⟩ := (if_neg hoverwritten).mp hcells
    rw [cellAfter_script_of_kept h.level (Bool.not_eq_true _ ▸ hoverwritten), carried]
    by_cases hstores : storesAt n name c = true
    · rw [if_pos (hstays hstores), if_pos hstores]
    · have hfalse : storesAt n name c = false := Bool.not_eq_true _ ▸ hstores
      have hnull : row c = none := by
        obtain ⟨t, ht⟩ := Option.isSome_iff_exists.mp htable
        refine h.tidy.cells t (h.schema ▸ Relational.Schema.table?_mem ht) row
          (Relational.Schema.table?_name ht ▸ hrow) c ?_
        simpa [storesAt, ht] using hfalse
      rw [hgone hfalse, if_neg Bool.false_ne_true, hnull, modernMode, if_neg]
      rintro ⟨-, -, -, hcell⟩
      cases hcell

end Rows

/-! ### The upgrade -/

section Upgrade

variable {n : Nat} {s : Migrated} (transactions : Transactions)

theorem AtLevel.up_ok (h : AtLevel n s) (hone : n ≤ 5 → OneMaster s.db) :
    ∃ t, up transactions s = (.ok (), t) ∧ AtLevel migrations.length t ∧
      ∀ name, t.db.rows name = (s.db.rows name).map (carried n name) := by
  obtain ⟨t, hrun, hlevel, hrows⟩ := h.applyAll transactions hone
  refine ⟨t, ?_, hlevel, fun name => ?_⟩
  · simp only [up, known h.applied, pending_eq h.applied, hrun, if_true]
  · rw [hrows, Change.onRowsAll_eq]
    exact List.map_congr_left fun row hrow => funext fun c => h.cellAfter_script hrow c

/-- Two masters leave the database below the level that refuses them, or, without a
transaction, with a marker that no level accounts for. -/
theorem AtLevel.up_refused (h : AtLevel n s) (hn : n ≤ 5) (htwo : ¬OneMaster s.db) :
    ∃ t, up transactions s = (.error .unique, t) ∧
      if transactions = .none then
        t.applied = (migrations.take 5).map (·.name) ∧ t.db.schema = markedSchema
      else ∃ m ≤ 5, AtLevel m t := by
  obtain ⟨t, hlevel, -, hrun⟩ := h.applyAll_refused transactions hn htwo
  cases transactions with
  | none =>
    refine ⟨⟨t.applied, ⟨markedSchema, addMarker.onRows t.db.rows⟩⟩, ?_, hlevel.applied, rfl⟩
    simp [up, known h.applied, pending_eq h.applied, hrun]
  | each =>
    refine ⟨t, ?_, 5, Nat.le_refl 5, hlevel⟩
    simp [up, known h.applied, pending_eq h.applied, hrun]
  | whole =>
    refine ⟨s, ?_, n, hn, h⟩
    simp [up, known h.applied, pending_eq h.applied, hrun]

/-- A database of any level comes to the current one if and only if, below the level
that declares it, no two of its keys are the master. Its rows are then the ones it
held, cell by cell. -/
theorem runMigrations_upgrades (h : AtLevel n s) :
    ((runMigrations transactions s).1 = .ok () ↔ (n ≤ 5 → OneMaster s.db)) ∧
      ((runMigrations transactions s).1 = .ok () →
        AtLevel migrations.length (runMigrations transactions s).2 ∧
          ∀ name, (runMigrations transactions s).2.db.rows name =
            (s.db.rows name).map (carried n name)) := by
  by_cases hone : n ≤ 5 → OneMaster s.db
  · obtain ⟨t, hrun, hlevel, hrows⟩ := h.up_ok transactions hone
    rw [runMigrations, hrun]
    exact ⟨iff_of_true rfl hone, fun _ => ⟨hlevel, hrows⟩⟩
  · obtain ⟨hn, htwo⟩ := Classical.not_imp.mp hone
    obtain ⟨t, hrun, -⟩ := h.up_refused transactions hn htwo
    rw [runMigrations, hrun]
    exact ⟨iff_of_false (by simp) hone, fun hok => absurd hok (by simp)⟩

section Sample

/-- A master key of a release that knew `BODY_ONLY`. -/
def oldMaster (id : Uuid) (hash : String) : StoredRow
  | .id => some (.uuid id)
  | .name => some (.text "System Master")
  | .keyHash => some (.text hash)
  | .prefixText => some (.text "3f9a1c2d")
  | .maxConcurrentJobs => some (.int 10)
  | .isMaster => some (.bool true)
  | .canManageKeys => some (.bool true)
  | .canManageHooks => some (.bool true)
  | .createdAt => some (.dateTime 0)
  | .updatedAt => some (.dateTime 0)
  | .hmacMode => some (.text "BODY_ONLY")
  | _ => none

def oldRelease (keys : List StoredRow) : Migrated where
  applied := (migrations.take 4).map (·.name)
  db := ⟨schemaAt 4, Function.update (fun _ => []) .apiKeys keys⟩

theorem atLevel_oldRelease {keys : List StoredRow} (hfault : (oldRelease keys).db.fault? = none)
    (hcells : ∀ t ∈ (schemaAt 4).tables, ∀ row ∈ (oldRelease keys).db.rows t.name,
      ∀ c ∈ columnNames, t.stores c = false → row c = none) : AtLevel 4 (oldRelease keys) where
  level := by decide
  applied := rfl
  schema := rfl
  valid := Relational.Db.fault?_eq_none_iff.mp hfault
  tidy := by
    refine ⟨fun t ht row hrow c => hcells t ht row hrow c (mem_columnNames c), fun name hnone => ?_⟩
    have hother : name ≠ .apiKeys := by
      rintro rfl
      cases hnone
    exact Function.update_of_ne hother keys fun _ => []

set_option maxRecDepth 4000 in
/-- The one master of an old release comes through, and its mode is replaced. -/
theorem runMigrations_upgrades_oldRelease :
    (runMigrations .none (oldRelease [oldMaster 1 "a"])).1 = .ok () ∧
      (runMigrations .none (oldRelease [oldMaster 1 "a"])).2.db.rows .apiKeys =
        [carried 4 .apiKeys (oldMaster 1 "a")] ∧
      carried 4 .apiKeys (oldMaster 1 "a") .hmacMode = some (.text "CANONICAL_V1") := by
  have hlevel : AtLevel 4 (oldRelease [oldMaster 1 "a"]) :=
    atLevel_oldRelease (by decide) (by decide)
  have hupgrade := runMigrations_upgrades .none hlevel
  have hok := hupgrade.1.mpr fun _ => List.pairwise_singleton _ _
  exact ⟨hok, (hupgrade.2 hok).2 .apiKeys, by decide⟩

end Sample

/-- Two masters stop the run. In a transaction, the rows can then be put right and the
run comes to its end; without one, no later run gets past the marker, whatever is done
to the rows. -/
theorem runMigrations_two_masters (h : AtLevel n s) (hn : n ≤ 5) (htwo : ¬OneMaster s.db) :
    ∃ t, runMigrations transactions s = (.error .unique, t) ∧
      ∀ u : Migrated, u.applied = t.applied → u.db.schema = t.db.schema →
        (transactions = .none → ∀ later, runMigrations later u = (.error .alreadyThere, u)) ∧
          (transactions ≠ .none → u.db.Valid → u.db.Tidy → OneMaster u.db →
            (runMigrations transactions u).1 = .ok ()) := by
  obtain ⟨t, hrun, hleft⟩ := h.up_refused transactions hn htwo
  refine ⟨t, hrun, fun u happlied hschema => ⟨fun hnone later => ?_, fun hsome hv ht hone => ?_⟩⟩
  · rw [if_pos hnone] at hleft
    exact up_marked (happlied.trans hleft.1) (hschema.trans hleft.2)
  · rw [if_neg hsome] at hleft
    obtain ⟨m, -, hlevel⟩ := hleft
    have hthere : AtLevel m u :=
      ⟨hlevel.level, happlied.trans hlevel.applied, hschema.trans hlevel.schema, hv, ht⟩
    obtain ⟨w, hagain, -⟩ := hthere.up_ok transactions fun _ => hone
    rw [runMigrations, hagain]

theorem runMigrations_two_masters_oldRelease :
    ∃ t, runMigrations .none (oldRelease [oldMaster 1 "a", oldMaster 2 "b"]) =
        (.error .unique, t) ∧
      ∀ u : Migrated, u.applied = t.applied → u.db.schema = t.db.schema →
        ∀ later, runMigrations later u = (.error .alreadyThere, u) := by
  have hlevel : AtLevel 4 (oldRelease [oldMaster 1 "a", oldMaster 2 "b"]) :=
    atLevel_oldRelease (by decide) (by decide)
  have htwo : ¬OneMaster (oldRelease [oldMaster 1 "a", oldMaster 2 "b"]).db := fun hone =>
    (List.pairwise_cons.mp hone).1 (oldMaster 2 "b") (List.mem_singleton_self _) ⟨rfl, rfl⟩
  obtain ⟨t, hrun, hlater⟩ := runMigrations_two_masters .none hlevel (by decide) htwo
  exact ⟨t, hrun, fun u happlied hschema => (hlater u happlied hschema).1 rfl⟩

end Upgrade

end Migrator

end HookExecutor
