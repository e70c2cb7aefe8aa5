import HookExecutor.Lib.Relational

/-!
# Changes of a schema

Scripts of changes, each refused as a whole if the rows do not admit it. What a
script makes of a schema does not depend on the rows, and apart from a new unique
index and a column that is written neither does its success: where the schema allows
the changes and the rows accept them, `Change.execAll_of_allowed` says that the script
is run to its end.
-/

namespace Relational

set_option linter.unusedSectionVars false

variable {T C V : Type} [DecidableEq T] [DecidableEq C] [DecidableEq V]

inductive Change (T C V : Type) where
  /-- `IF NOT EXISTS`. -/
  | createTable (t : Table T C V)
  | addColumn (table : T) (column : Column C V)
  | dropColumn (table : T) (c : C)
  | createIndex (i : Index T C)
  | dropIndex (name : String)
  /-- `UPDATE table SET c = new WHERE c = old`. -/
  | updateWhere (table : T) (c : C) (old new : V)

namespace Change

/-- What a change makes of the schema. -/
def onSchema (change : Change T C V) (σ : Schema T C V) : Except Fault (Schema T C V) :=
  match change with
  | createTable t =>
    if (σ.table? t.name).isSome then .ok σ
    else if t.foreignKeys.all fun fk => (σ.table? fk.table).any (·.has fk.key) then
      .ok { σ with tables := σ.tables ++ [t] }
    else .error .missing
  | addColumn name column =>
    match σ.table? name with
    | none => .error .missing
    | some t =>
      if t.has column.name then .error .alreadyThere
      else if column.isStored || column.sources.all t.stores then
        .ok (σ.mapTable name fun t => { t with columns := t.columns ++ [column] })
      else .error .missing
  | dropColumn name c =>
    if !(σ.table? name).any (·.has c) then .error .missing
    else if σ.uses name c then .error .inUse
    else .ok (σ.mapTable name fun t => { t with columns := t.columns.filter (·.name != c) })
  | createIndex i =>
    if σ.indexes.any (·.name == i.name) then .error .alreadyThere
    else if (σ.table? i.table).any fun t => i.columns.all t.has then
      .ok { σ with indexes := σ.indexes ++ [i] }
    else .error .missing
  | dropIndex name =>
    if σ.indexes.any (·.name == name) then
      .ok { σ with indexes := σ.indexes.filter (·.name != name) }
    else .error .missing
  | updateWhere name c _ _ =>
    if (σ.table? name).any (·.stores c) then .ok σ else .error .missing

/-- What a change makes of one cell. -/
def onCell (change : Change T C V) (name : T) (c : C) (cell : Option V) : Option V :=
  match change with
  | addColumn table column => if name = table ∧ c = column.name then column.default else cell
  | dropColumn table dropped => if name = table ∧ c = dropped then none else cell
  | updateWhere table updated old new =>
    if name = table ∧ c = updated ∧ cell = some old then some new else cell
  | _ => cell

def onRow (change : Change T C V) (name : T) (row : Row C V) : Row C V :=
  fun c => change.onCell name c (row c)

def onRows (change : Change T C V) (rows : T → List (Row C V)) : T → List (Row C V) :=
  fun name => (rows name).map (change.onRow name)

def exec (change : Change T C V) (db : Db T C V) : Except Fault (Db T C V) :=
  match change.onSchema db.schema with
  | .error f => .error f
  | .ok σ =>
    match Db.fault? ⟨σ, change.onRows db.rows⟩ with
    | some f => .error f
    | none => .ok ⟨σ, change.onRows db.rows⟩

/-- One change after the other, up to the first that is refused. -/
def execAll : List (Change T C V) → Db T C V → Except Fault Unit × Db T C V
  | [], db => (.ok (), db)
  | change :: rest, db =>
    match change.exec db with
    | .error f => (.error f, db)
    | .ok db' => execAll rest db'

end Change

/-! ### Changes that are not refused -/

/-- Nothing in the schema but the column itself names it. -/
structure Schema.Unused (σ : Schema T C V) (name : T) (c : C) : Prop where
  keys : ∀ t ∈ σ.tables, t.name = name → ∀ key ∈ σ.keys t, c ∉ key
  columns : ∀ t ∈ σ.tables, t.name = name → ∀ fk ∈ t.foreignKeys, fk.column ≠ c
  sources : ∀ t ∈ σ.tables, t.name = name → ∀ column ∈ t.columns, column.name ≠ c →
    c ∉ column.sources
  targets : ∀ t ∈ σ.tables, ∀ fk ∈ t.foreignKeys, fk.table = name → fk.key ≠ c

section Changes

variable {σ σ' : Schema T C V} {db : Db T C V} {t : Table T C V} {name : T} {c : C}
  {column : Column C V} {i : Index T C}

theorem Schema.mem_keys {key : List C} : key ∈ σ.keys t ↔ key ∈ t.uniques ∨
    ∃ i ∈ σ.indexes, i.unique = true ∧ i.table = t.name ∧ i.columns = key := by
  simp [keys, and_assoc]

theorem Schema.unused_of_uses (h : σ.uses name c = false) : σ.Unused name c := by
  simp only [uses, Bool.or_eq_false_iff, List.any_eq_false, Bool.and_eq_true, Bool.or_eq_true,
    beq_iff_eq, not_or, not_and, List.any_eq_true, bne_iff_ne, List.contains_iff_mem,
    not_exists] at h
  obtain ⟨hindexes, htables⟩ := h
  refine ⟨?_, ?_, ?_, ?_⟩
  · intro t ht hname key hkey hc
    obtain hunique | ⟨i, hi, -, htable, rfl⟩ := mem_keys.mp hkey
    · exact ((htables t ht).1 hname).1.1 key hunique hc
    · exact hindexes i hi (htable.trans hname) hc
  · intro t ht hname fk hfk
    exact ((htables t ht).1 hname).1.2 fk hfk
  · intro t ht hname column hcolumn
    exact ((htables t ht).1 hname).2 column hcolumn
  · intro t ht fk hfk
    exact (htables t ht).2 fk hfk

/-- A column that is not there yet is not named. -/
theorem Schema.Closed.unused (h : σ.Closed) (htable : σ.table? name = some t)
    (hnew : t.has c = false) : σ.Unused name c := by
  have hno : ∀ u ∈ σ.tables, u.name = name → u.has c = false := by
    intro u hu hname
    rwa [h.unique hu (table?_mem htable) (hname.trans (table?_name htable).symm)]
  refine ⟨?_, ?_, ?_, ?_⟩
  · intro u hu hname key hkey hc
    exact Bool.false_ne_true ((hno u hu hname).symm.trans (h.keys u hu key hkey c hc))
  · rintro u hu hname fk hfk rfl
    exact Bool.false_ne_true ((hno u hu hname).symm.trans
      (Table.has_of_stores (h.references u hu fk hfk).1))
  · intro u hu hname column hcolumn _ hc
    exact Bool.false_ne_true ((hno u hu hname).symm.trans
      (Table.has_of_stores (h.sources u hu column hcolumn c hc)))
  · rintro u hu fk hfk htarget rfl
    obtain ⟨target, hmem, hname, hstores⟩ := (h.references u hu fk hfk).2
    exact Bool.false_ne_true ((hno target hmem (hname.trans htarget)).symm.trans
      (Table.has_of_stores hstores))

theorem Schema.keys_mapTable {f : Table T C V → Table T C V} (hname : ∀ t, (f t).name = t.name)
    (huniques : ∀ t, (f t).uniques = t.uniques) :
    (σ.mapTable name f).keys (if t.name = name then f t else t) = σ.keys t := by
  by_cases h : t.name = name <;> simp [keys, mapTable, h, hname, huniques]

/-- One column is added, dropped or written, and nothing names it. -/
theorem Db.Valid.onColumn (hvalid : db.Valid) {f : Table T C V → Table T C V}
    {h : T → Row C V → Row C V} (hunused : db.schema.Unused name c)
    (hname : ∀ t, (f t).name = t.name) (huniques : ∀ t, (f t).uniques = t.uniques)
    (hreferences : ∀ t, (f t).foreignKeys = t.foreignKeys)
    (hother : ∀ t c', c' ≠ c → (f t).column? c' = t.column? c')
    (hmem : ∀ t, ∀ column ∈ (f t).columns, column.name ≠ c → column ∈ t.columns)
    (hcell : ∀ n row c', ¬(n = name ∧ c' = c) → h n row c' = row c')
    (hadmits : ∀ t ∈ db.schema.tables, t.name = name → ∀ row ∈ db.rows name,
      ∀ column ∈ (f t).columns, column.name = c → column.admits (h name row c) = true) :
    Db.Valid ⟨db.schema.mapTable name f, fun n => (db.rows n).map (h n)⟩ := by
  refine hvalid.keep (g := fun t => if t.name = name then f t else t)
    ⟨rfl, ?_, fun _ => List.Sublist.refl _, ?_, ?_, ?_⟩
  · intro t _
    by_cases htable : t.name = name
    · simp [htable, hname]
    · simp [htable]
  · intro t ht row hrow column hcolumn
    by_cases htable : t.name = name
    · rw [if_pos htable] at hcolumn
      by_cases hnamed : column.name = c
      · rw [htable, hnamed]
        exact hadmits t ht htable row (htable ▸ hrow) column hcolumn hnamed
      · rw [hcell _ _ _ fun hboth => hnamed hboth.2]
        exact hvalid.columns t ht row hrow column (hmem t column hcolumn hnamed)
    · rw [if_neg htable] at hcolumn
      rw [hcell _ _ _ fun hboth => htable hboth.1]
      exact hvalid.columns t ht row hrow column hcolumn
  · intro t ht key hkey
    rw [Schema.keys_mapTable hname huniques] at hkey
    refine ⟨hkey, fun row hrow c' hc' => ?_⟩
    by_cases htable : t.name = name
    · have hne : c' ≠ c := fun heq => hunused.keys t ht htable key hkey (heq ▸ hc')
      simp only [if_pos htable, Table.read, hother t c' hne]
      cases hfound : t.column? c' with
      | none => rfl
      | some column =>
        refine Column.read_congr fun source hsource => hcell _ _ _ ?_
        rintro ⟨-, rfl⟩
        exact hunused.sources t ht htable column (Table.column?_mem hfound)
          (Table.column?_name hfound ▸ hne) hsource
    · have hrest : h t.name row = row := funext fun c'' => hcell _ _ _ fun hboth => htable hboth.1
      rw [if_neg htable, hrest]
  · intro t ht fk hfk
    have hold : fk ∈ t.foreignKeys := by
      by_cases htable : t.name = name
      · rwa [if_pos htable, hreferences] at hfk
      · rwa [if_neg htable] at hfk
    refine ⟨hold, fun row hrow => .inr ⟨hcell _ _ _ ?_, fun target htarget _ =>
      ⟨htarget, hcell _ _ _ ?_⟩⟩⟩
    · rintro ⟨htable, hc⟩
      exact hunused.columns t ht htable fk hold hc
    · rintro ⟨htable, hc⟩
      exact hunused.targets t ht fk hold htable hc

namespace Change

/-- What a change still needs of the rows, and what a new or written column needs. -/
def Accepts (change : Change T C V) (db : Db T C V) : Prop :=
  match change with
  | addColumn _ column => column.admits column.default = true
  | createIndex i => i.unique = true → ∀ t ∈ db.schema.tables, t.name = i.table →
      t.distinct i.columns (db.rows t.name) = true
  | updateWhere name c _ new => db.schema.uses name c = false ∧ ∀ t ∈ db.schema.tables,
      t.name = name → ∀ column ∈ t.columns, column.name = c → column.admits (some new) = true
  | _ => True

theorem column?_append (h : c ≠ column.name) :
    ({ t with columns := t.columns ++ [column] } : Table T C V).column? c = t.column? c := by
  have hlast : [column].find? (·.name == c) = none := by
    simpa using fun heq : column.name = c => h heq.symm
  rw [Table.column?, List.find?_append, hlast, Option.or_none]
  rfl

theorem column?_filter {c' : C} (h : c' ≠ c) :
    ({ t with columns := t.columns.filter (·.name != c) } : Table T C V).column? c' =
      t.column? c' := by
  simp only [Table.column?, List.find?_filter]
  congr 1
  funext column
  by_cases hname : column.name = c'
  · simp [hname, h]
  · simp [hname]

theorem onSchema_addColumn (h : (addColumn name column).onSchema σ = .ok σ') :
    ∃ t, σ.table? name = some t ∧ t.has column.name = false ∧
      (column.isStored = true ∨ ∀ c ∈ column.sources, t.stores c = true) ∧
      σ' = σ.mapTable name fun t => { t with columns := t.columns ++ [column] } := by
  cases htable : σ.table? name with
  | none => simp [onSchema, htable] at h
  | some t =>
    simp only [onSchema, htable, Bool.or_eq_true, List.all_eq_true] at h
    split at h
    · cases h
    · rename_i hhas
      split at h
      · rename_i hsources
        exact ⟨t, rfl, by simpa using hhas, hsources, (Except.ok.inj h).symm⟩
      · cases h

/-- The table of a new column has it. -/
theorem column?_addColumn (hclosed : σ.Closed) (h : (addColumn name column).onSchema σ = .ok σ')
    (ht : t ∈ σ'.tables) (hname : t.name = name) : t.column? column.name = some column := by
  obtain ⟨old, htable, hhas, -, rfl⟩ := onSchema_addColumn h
  obtain ⟨u, hu, rfl⟩ := List.mem_map.mp ht
  have hunamed : u.name = name := by
    by_contra hne
    exact hne (by simpa only [if_neg hne] using hname)
  rw [if_pos hunamed]
  have hnew : u.column? column.name = none := by
    rw [hclosed.unique hu (Schema.table?_mem htable)
      (hunamed.trans (Schema.table?_name htable).symm)]
    exact Option.not_isSome_iff_eq_none.mp fun hthere => by
      rw [Table.has, hthere] at hhas
      cases hhas
  rw [Table.column?] at hnew
  simp [Table.column?, List.find?_append, hnew]

/-- The other columns are the old ones. -/
theorem column?_addColumn_of_ne (h : (addColumn name column).onSchema σ = .ok σ')
    (ht : t ∈ σ'.tables) (hc : c ≠ column.name) :
    ∃ u ∈ σ.tables, u.name = t.name ∧ t.column? c = u.column? c := by
  obtain ⟨-, -, -, -, rfl⟩ := onSchema_addColumn h
  obtain ⟨u, hu, rfl⟩ := List.mem_map.mp ht
  by_cases hname : u.name = name
  · rw [if_pos hname]
    exact ⟨u, hu, rfl, column?_append hc⟩
  · rw [if_neg hname]
    exact ⟨u, hu, rfl, rfl⟩

theorem valid_addColumn (hvalid : db.Valid) (hclosed : db.schema.Closed)
    (hschema : (addColumn name column).onSchema db.schema = .ok σ')
    (haccepts : column.admits column.default = true) :
    Db.Valid ⟨σ', (addColumn name column).onRows db.rows⟩ := by
  obtain ⟨t, htable, hhas, -, rfl⟩ := onSchema_addColumn hschema
  refine hvalid.onColumn (c := column.name) (h := (addColumn name column).onRow)
    (hclosed.unused htable hhas) (fun _ => rfl) (fun _ => rfl) (fun _ => rfl)
    (fun _ _ hne => column?_append hne) ?_ (fun _ _ _ hother => if_neg hother) ?_
  · intro t column' hmem hne
    obtain hold | rfl := List.mem_append.mp hmem |>.imp_right List.mem_singleton.mp
    · exact hold
    · exact absurd rfl hne
  · intro u hu hname row hrow column' hmem hnamed
    have hcell : (addColumn name column).onRow name row column.name = column.default :=
      if_pos ⟨rfl, rfl⟩
    rw [hcell]
    obtain hold | rfl := List.mem_append.mp hmem |>.imp_right List.mem_singleton.mp
    · have hthere := Table.has_of_mem hold
      rw [hnamed, hclosed.unique hu (Schema.table?_mem htable)
        (hname.trans (Schema.table?_name htable).symm), hhas] at hthere
      cases hthere
    · exact haccepts

theorem onSchema_dropColumn (h : (dropColumn name c).onSchema σ = .ok σ') :
    σ.uses name c = false ∧
      σ' = σ.mapTable name fun t => { t with columns := t.columns.filter (·.name != c) } := by
  simp only [onSchema] at h
  split at h
  · cases h
  · split at h
    · cases h
    · rename_i huses
      exact ⟨by simpa using huses, (Except.ok.inj h).symm⟩

theorem valid_dropColumn (hvalid : db.Valid)
    (hschema : (dropColumn name c).onSchema db.schema = .ok σ') :
    Db.Valid ⟨σ', (dropColumn name c).onRows db.rows⟩ := by
  obtain ⟨huses, rfl⟩ := onSchema_dropColumn hschema
  refine hvalid.onColumn (c := c) (h := (dropColumn name c).onRow)
    (Schema.unused_of_uses huses) (fun _ => rfl) (fun _ => rfl) (fun _ => rfl)
    (fun _ _ hne => column?_filter hne) ?_ (fun _ _ _ hother => if_neg hother) ?_
  · intro t column' hmem _
    exact (List.mem_filter.mp hmem).1
  · intro u hu hname row hrow column' hmem hnamed
    exact absurd hnamed (by simpa using (List.mem_filter.mp hmem).2)

theorem onSchema_updateWhere {old new : V}
    (h : (updateWhere name c old new).onSchema σ = .ok σ') : σ' = σ := by
  simp only [onSchema] at h
  split at h
  · exact (Except.ok.inj h).symm
  · cases h

theorem mapTable_id : σ.mapTable name (fun t => t) = σ := by
  simp [Schema.mapTable]

theorem valid_updateWhere {old new : V} (hvalid : db.Valid)
    (hschema : (updateWhere name c old new).onSchema db.schema = .ok σ')
    (haccepts : (updateWhere name c old new).Accepts db) :
    Db.Valid ⟨σ', (updateWhere name c old new).onRows db.rows⟩ := by
  obtain rfl := onSchema_updateWhere hschema
  have hkept := hvalid.onColumn (c := c) (h := (updateWhere name c old new).onRow)
    (f := fun t => t) (Schema.unused_of_uses haccepts.1) (fun _ => rfl) (fun _ => rfl)
    (fun _ => rfl) (fun _ _ _ => rfl) (fun _ _ h _ => h) ?_ ?_
  · rwa [mapTable_id] at hkept
  · intro n row c' hother
    exact if_neg fun hall => hother ⟨hall.1, hall.2.1⟩
  · intro u hu hname row hrow column' hmem hnamed
    by_cases hold : row c = some old
    · rw [show (updateWhere name c old new).onRow name row c = some new from
        if_pos ⟨rfl, rfl, hold⟩]
      exact haccepts.2 u hu hname column' hmem hnamed
    · rw [show (updateWhere name c old new).onRow name row c = row c from
        if_neg fun hall => hold hall.2.2]
      exact hnamed ▸ hvalid.columns u hu row (hname ▸ hrow) column' hmem

theorem onRows_id {change : Change T C V} (h : ∀ n row, change.onRow n row = row) :
    change.onRows db.rows = db.rows := by
  funext n
  rw [onRows, show change.onRow n = id from funext (h n), List.map_id]

theorem onSchema_createIndex (h : (createIndex i).onSchema σ = .ok σ') :
    σ' = { σ with indexes := σ.indexes ++ [i] } := by
  simp only [onSchema] at h
  split at h
  · cases h
  · split at h
    · exact (Except.ok.inj h).symm
    · cases h

theorem onSchema_dropIndex {index : String} (h : (dropIndex index).onSchema σ = .ok σ') :
    σ' = { σ with indexes := σ.indexes.filter (·.name != index) } := by
  simp only [onSchema] at h
  split at h
  · exact (Except.ok.inj h).symm
  · cases h

theorem valid_createIndex (hvalid : db.Valid)
    (hschema : (createIndex i).onSchema db.schema = .ok σ') :
    Db.Valid ⟨σ', (createIndex i : Change T C V).onRows db.rows⟩ ↔
      (createIndex i : Change T C V).Accepts db := by
  obtain rfl := onSchema_createIndex hschema
  rw [onRows_id fun _ _ => rfl]
  have hkeys : ∀ t key, key ∈ Schema.keys { db.schema with indexes := db.schema.indexes ++ [i] } t ↔
      key ∈ db.schema.keys t ∨ i.unique = true ∧ i.table = t.name ∧ i.columns = key := by
    intro t key
    simp only [Schema.mem_keys, List.mem_append, List.mem_singleton]
    grind
  constructor
  · intro h hunique t ht hname
    exact h.keys t ht i.columns ((hkeys t _).mpr (.inr ⟨hunique, hname.symm, rfl⟩))
  · intro haccepts
    refine ⟨hvalid.columns, ?_, hvalid.references⟩
    intro t ht key hkey
    obtain hold | ⟨hunique, hname, rfl⟩ := (hkeys t key).mp hkey
    · exact hvalid.keys t ht key hold
    · exact haccepts hunique t ht hname.symm

theorem valid_dropIndex {index : String} (hvalid : db.Valid)
    (hschema : (dropIndex index).onSchema db.schema = .ok σ') :
    Db.Valid ⟨σ', (dropIndex index : Change T C V).onRows db.rows⟩ := by
  obtain rfl := onSchema_dropIndex hschema
  rw [onRows_id fun _ _ => rfl]
  refine ⟨hvalid.columns, fun t ht key hkey => hvalid.keys t ht key ?_, hvalid.references⟩
  obtain hunique | ⟨i, hi, hrest⟩ := Schema.mem_keys.mp hkey
  · exact Schema.mem_keys.mpr (.inl hunique)
  · exact Schema.mem_keys.mpr (.inr ⟨i, (List.mem_filter.mp hi).1, hrest⟩)

theorem valid_createTable (hvalid : db.Valid) (htidy : db.Tidy)
    (hschema : (createTable t).onSchema db.schema = .ok σ') :
    Db.Valid ⟨σ', (createTable t).onRows db.rows⟩ := by
  rw [onRows_id fun _ _ => rfl]
  simp only [onSchema] at hschema
  split at hschema
  · obtain rfl := Except.ok.inj hschema
    exact hvalid
  · rename_i hnew
    split at hschema
    · obtain rfl := Except.ok.inj hschema
      have hempty : db.rows t.name = [] := htidy.rows t.name (by simpa using hnew)
      refine ⟨?_, ?_, ?_⟩
      · intro u hu row hrow
        obtain hold | rfl := List.mem_append.mp hu |>.imp_right List.mem_singleton.mp
        · exact hvalid.columns u hold row hrow
        · simp [hempty] at hrow
      · intro u hu key hkey
        obtain hold | rfl := List.mem_append.mp hu |>.imp_right List.mem_singleton.mp
        · exact hvalid.keys u hold key hkey
        · simp [Table.distinct, hempty]
      · intro u hu row hrow
        obtain hold | rfl := List.mem_append.mp hu |>.imp_right List.mem_singleton.mp
        · exact hvalid.references u hold row hrow
        · simp [hempty] at hrow
    · cases hschema

end Change

end Changes

/-! ### Whole scripts -/

section Scripts

variable {σ σ' : Schema T C V} {db db' : Db T C V} {t : Table T C V} {name : T} {c : C}
  {column : Column C V} {i : Index T C} {change : Change T C V} {changes : List (Change T C V)}

theorem Schema.table?_mapTable {f : Table T C V → Table T C V} (hname : ∀ t, (f t).name = t.name)
    (n : T) : (σ.mapTable name f).table? n =
      (σ.table? n).map fun t => if t.name = name then f t else t := by
  simp only [table?, mapTable, List.find?_map]
  congr 2
  funext t
  by_cases h : t.name = name
  · simp [h, hname]
  · simp [h]

theorem Db.Tidy.onColumn (htidy : db.Tidy) {f : Table T C V → Table T C V}
    {h : T → Row C V → Row C V} (hname : ∀ t, (f t).name = t.name)
    (hstores : ∀ t c', c' ≠ c → (f t).stores c' = t.stores c')
    (hcell : ∀ n row c', ¬(n = name ∧ c' = c) → h n row c' = row c')
    (hempty : ∀ t ∈ db.schema.tables, t.name = name → (f t).stores c = false →
      ∀ row ∈ db.rows name, h name row c = none) :
    Db.Tidy ⟨db.schema.mapTable name f, fun n => (db.rows n).map (h n)⟩ := by
  refine ⟨?_, ?_⟩
  · intro t' ht' row' hrow' c' hno
    obtain ⟨t, ht, rfl⟩ := List.mem_map.mp ht'
    by_cases htable : t.name = name
    · simp only [if_pos htable, hname] at hrow' hno
      obtain ⟨row, hrow, rfl⟩ := List.mem_map.mp hrow'
      by_cases hc : c' = c
      · subst hc
        rw [htable]
        exact hempty t ht htable hno row (htable ▸ hrow)
      · rw [hcell _ _ _ fun hboth => hc hboth.2]
        exact htidy.cells t ht row hrow c' (hstores t c' hc ▸ hno)
    · simp only [if_neg htable] at hrow' hno
      obtain ⟨row, hrow, rfl⟩ := List.mem_map.mp hrow'
      rw [hcell _ _ _ fun hboth => htable hboth.1]
      exact htidy.cells t ht row hrow c' hno
  · intro n hn
    rw [Schema.table?_mapTable hname, Option.map_eq_none_iff] at hn
    simp [htidy.rows n hn]

namespace Change

theorem tidy_addColumn (htidy : db.Tidy) (hclosed : db.schema.Closed)
    (hschema : (addColumn name column).onSchema db.schema = .ok σ') :
    Db.Tidy ⟨σ', (addColumn name column).onRows db.rows⟩ := by
  obtain ⟨-, -, -, -, rfl⟩ := onSchema_addColumn hschema
  refine htidy.onColumn (c := column.name) (h := (addColumn name column).onRow) (fun _ => rfl)
    (fun _ _ hne => by simp only [Table.stores, column?_append hne])
    (fun _ _ _ hother => if_neg hother) ?_
  intro u hu hname hno row hrow
  rw [show (addColumn name column).onRow name row column.name = column.default from
    if_pos ⟨rfl, rfl⟩]
  have hmem : { u with columns := u.columns ++ [column] } ∈
      (db.schema.mapTable name fun t => { t with columns := t.columns ++ [column] }).tables :=
    List.mem_map.mpr ⟨u, hu, if_pos hname⟩
  have hderived : column.isStored = false := by
    simpa [Table.stores, column?_addColumn hclosed hschema hmem hname] using hno
  obtain ⟨label, content⟩ := column
  cases content with
  | stored fits notNull default => cases hderived
  | derived flag truthy value => rfl

theorem tidy_dropColumn (htidy : db.Tidy)
    (hschema : (dropColumn name c).onSchema db.schema = .ok σ') :
    Db.Tidy ⟨σ', (dropColumn name c).onRows db.rows⟩ := by
  obtain ⟨-, rfl⟩ := onSchema_dropColumn hschema
  refine htidy.onColumn (c := c) (h := (dropColumn name c).onRow) (fun _ => rfl)
    (fun _ _ hne => by simp only [Table.stores, column?_filter hne])
    (fun _ _ _ hother => if_neg hother) ?_
  intro u hu hname hno row hrow
  exact if_pos ⟨rfl, rfl⟩

theorem tidy_updateWhere {old new : V} (htidy : db.Tidy)
    (hschema : (updateWhere name c old new).onSchema db.schema = .ok σ') :
    Db.Tidy ⟨σ', (updateWhere name c old new).onRows db.rows⟩ := by
  obtain rfl := onSchema_updateWhere hschema
  have hkept := htidy.onColumn (c := c) (h := (updateWhere name c old new).onRow)
    (f := fun t => t) (fun _ => rfl) (fun _ _ _ => rfl)
    (fun _ _ _ hother => if_neg fun hall => hother ⟨hall.1, hall.2.1⟩) ?_
  · rwa [mapTable_id] at hkept
  · intro u hu hname hno row hrow
    have hnull := htidy.cells u hu row (hname ▸ hrow) c hno
    rw [onRow, hnull]
    exact if_neg fun hall => Option.some_ne_none old hall.2.2.symm

theorem tidy_createIndex (htidy : db.Tidy)
    (hschema : (createIndex i).onSchema db.schema = .ok σ') :
    Db.Tidy ⟨σ', (createIndex i : Change T C V).onRows db.rows⟩ := by
  obtain rfl := onSchema_createIndex hschema
  rw [onRows_id fun _ _ => rfl]
  exact ⟨htidy.cells, htidy.rows⟩

theorem tidy_dropIndex {index : String} (htidy : db.Tidy)
    (hschema : (dropIndex index).onSchema db.schema = .ok σ') :
    Db.Tidy ⟨σ', (dropIndex index : Change T C V).onRows db.rows⟩ := by
  obtain rfl := onSchema_dropIndex hschema
  rw [onRows_id fun _ _ => rfl]
  exact ⟨htidy.cells, htidy.rows⟩

theorem tidy_createTable (htidy : db.Tidy)
    (hschema : (createTable t).onSchema db.schema = .ok σ') :
    Db.Tidy ⟨σ', (createTable t).onRows db.rows⟩ := by
  rw [onRows_id fun _ _ => rfl]
  simp only [onSchema] at hschema
  split at hschema
  · obtain rfl := Except.ok.inj hschema
    exact htidy
  · rename_i hnew
    split at hschema
    · obtain rfl := Except.ok.inj hschema
      have hempty : db.rows t.name = [] := htidy.rows t.name (by simpa using hnew)
      refine ⟨?_, ?_⟩
      · intro u hu row hrow
        obtain hold | rfl := List.mem_append.mp hu |>.imp_right List.mem_singleton.mp
        · exact htidy.cells u hold row hrow
        · simp [hempty] at hrow
      · intro n hn
        refine htidy.rows n ?_
        rw [Schema.table?, List.find?_append, Option.or_eq_none_iff] at hn
        exact hn.1
    · cases hschema

/-- A change that the schema allows and the rows accept is made. -/
theorem exec_of_accepts (hvalid : db.Valid) (htidy : db.Tidy) (hclosed : db.schema.Closed)
    (hschema : change.onSchema db.schema = .ok σ') (haccepts : change.Accepts db) :
    change.exec db = .ok ⟨σ', change.onRows db.rows⟩ ∧
      Db.Valid ⟨σ', change.onRows db.rows⟩ ∧ Db.Tidy ⟨σ', change.onRows db.rows⟩ := by
  have hafter : Db.Valid ⟨σ', change.onRows db.rows⟩ ∧ Db.Tidy ⟨σ', change.onRows db.rows⟩ := by
    cases change with
    | createTable t => exact ⟨valid_createTable hvalid htidy hschema, tidy_createTable htidy hschema⟩
    | addColumn name column =>
      exact ⟨valid_addColumn hvalid hclosed hschema haccepts, tidy_addColumn htidy hclosed hschema⟩
    | dropColumn name c => exact ⟨valid_dropColumn hvalid hschema, tidy_dropColumn htidy hschema⟩
    | createIndex i =>
      exact ⟨(valid_createIndex hvalid hschema).mpr haccepts, tidy_createIndex htidy hschema⟩
    | dropIndex index => exact ⟨valid_dropIndex hvalid hschema, tidy_dropIndex htidy hschema⟩
    | updateWhere name c old new =>
      exact ⟨valid_updateWhere hvalid hschema haccepts, tidy_updateWhere htidy hschema⟩
  refine ⟨?_, hafter⟩
  rw [exec, hschema]
  simp only [Db.fault?_eq_none_iff.mpr hafter.1]

/-- An index that two rows collide on is refused. -/
theorem exec_createIndex_refused (hvalid : db.Valid)
    (hschema : (createIndex i).onSchema db.schema = .ok σ')
    (hrefuses : ¬(createIndex i : Change T C V).Accepts db) :
    (createIndex i).exec db = .error .unique := by
  have hinvalid := mt (valid_createIndex hvalid hschema).mp hrefuses
  rw [exec, hschema]
  dsimp only
  cases hfault : Db.fault? ⟨σ', (createIndex i : Change T C V).onRows db.rows⟩ with
  | none => exact absurd (Db.fault?_eq_none_iff.mp hfault) hinvalid
  | some f =>
    obtain ⟨t, ht, hfound⟩ := List.exists_of_findSome?_eq_some hfault
    obtain rfl := onSchema_createIndex hschema
    rw [onRows_id fun _ _ => rfl, Schema.tableFault?,
      if_neg (not_not.mpr (hvalid.columns t ht))] at hfound
    split at hfound
    · obtain rfl := Option.some.inj hfound
      rfl
    · rw [if_neg (not_not.mpr (hvalid.references t ht))] at hfound
      cases hfound

/-- A change that needs nothing of the rows. -/
def isSafe (change : Change T C V) : Bool :=
  match change with
  | addColumn _ column => column.admits column.default
  | createIndex i => !i.unique
  | updateWhere .. => false
  | _ => true

theorem accepts_of_isSafe (h : change.isSafe = true) : change.Accepts db := by
  cases change with
  | createIndex i =>
    intro hunique
    simp [isSafe, hunique] at h
  | addColumn => exact h
  | updateWhere => cases h
  | _ => trivial

/-- The schema a script comes to. -/
def schemaAfter (changes : List (Change T C V)) (σ : Schema T C V) : Schema T C V :=
  changes.foldl (fun σ change =>
    match change.onSchema σ with
    | .ok σ' => σ'
    | .error _ => σ) σ

/-- The schema allows every change of a script as it is when it comes to it. -/
def allowed : List (Change T C V) → Schema T C V → Bool
  | [], _ => true
  | change :: rest, σ => decide σ.Closed &&
    match change.onSchema σ with
    | .ok σ' => allowed rest σ'
    | .error _ => false

/-- The rows accept every change of a script as they are when it comes to it. -/
def Accepted : List (Change T C V) → Db T C V → Prop
  | [], _ => True
  | change :: rest, db => change.Accepts db ∧
      ∀ σ', change.onSchema db.schema = .ok σ' → Accepted rest ⟨σ', change.onRows db.rows⟩

def onRowsAll (changes : List (Change T C V)) (rows : T → List (Row C V)) : T → List (Row C V) :=
  changes.foldl (fun rows change => change.onRows rows) rows

/-- A script that the schema allows and the rows accept is run to its end. -/
theorem execAll_of_allowed (hallowed : allowed changes db.schema = true)
    (haccepted : Accepted changes db) (hvalid : db.Valid) (htidy : db.Tidy) :
    execAll changes db =
        (.ok (), ⟨schemaAfter changes db.schema, onRowsAll changes db.rows⟩) ∧
      Db.Valid ⟨schemaAfter changes db.schema, onRowsAll changes db.rows⟩ ∧
      Db.Tidy ⟨schemaAfter changes db.schema, onRowsAll changes db.rows⟩ := by
  induction changes generalizing db with
  | nil => exact ⟨rfl, hvalid, htidy⟩
  | cons change rest ih =>
    obtain ⟨hclosed, hrest⟩ := Bool.and_eq_true_iff.mp hallowed
    cases hschema : change.onSchema db.schema with
    | error f => simp [hschema] at hrest
    | ok σ =>
      obtain ⟨hexec, hvalid', htidy'⟩ := exec_of_accepts hvalid htidy (of_decide_eq_true hclosed)
        hschema haccepted.1
      have hnext := ih (by simpa [hschema] using hrest)
        (haccepted.2 σ hschema) hvalid' htidy'
      rw [execAll, hexec]
      simpa only [schemaAfter, onRowsAll, List.foldl_cons, hschema] using hnext

theorem accepted_of_isSafe (h : ∀ change ∈ changes, change.isSafe = true) :
    Accepted changes db := by
  induction changes generalizing db with
  | nil => trivial
  | cons change rest ih =>
    obtain ⟨hfirst, hrest⟩ := List.forall_mem_cons.mp h
    exact ⟨accepts_of_isSafe hfirst, fun _ _ => ih hrest⟩

/-- Where there are no rows, no two of them collide. -/
theorem accepted_of_empty (h : ∀ change ∈ changes, change.isSafe = true ∨ ∃ i, change = createIndex i)
    (hempty : ∀ name, db.rows name = []) : Accepted changes db := by
  induction changes generalizing db with
  | nil => trivial
  | cons change rest ih =>
    obtain ⟨hfirst, hrest⟩ := List.forall_mem_cons.mp h
    refine ⟨?_, fun σ' _ => ih hrest fun name => ?_⟩
    · obtain hsafe | ⟨i, rfl⟩ := hfirst
      · exact accepts_of_isSafe hsafe
      · intro _ t _ _
        simp [Table.distinct, hempty]
    · exact List.map_eq_nil_iff.mpr (hempty name)

/-! ### What becomes of one cell -/

/-- The change puts something in the cell, whatever it held. -/
def overwrites (change : Change T C V) (name : T) (c : C) : Bool :=
  match change with
  | addColumn table column => name == table && c == column.name
  | dropColumn table dropped => name == table && c == dropped
  | _ => false

/-- What the cell has to hold for the change to replace it. -/
def replaces (change : Change T C V) (name : T) (c : C) : Option V :=
  match change with
  | updateWhere table updated old _ => if name = table ∧ c = updated then some old else none
  | _ => none

def cellAfter (changes : List (Change T C V)) (name : T) (c : C) (cell : Option V) : Option V :=
  changes.foldl (fun cell change => change.onCell name c cell) cell

theorem onRowsAll_eq (changes : List (Change T C V)) (rows : T → List (Row C V)) :
    onRowsAll changes rows =
      fun name => (rows name).map fun row c => cellAfter changes name c (row c) := by
  induction changes generalizing rows with
  | nil =>
    funext name
    exact (List.map_id _).symm
  | cons change rest ih =>
    rw [onRowsAll, List.foldl_cons, ← onRowsAll, ih]
    funext name
    exact List.map_map

theorem onCell_of_overwrites (h : change.overwrites name c = true) (cell cell' : Option V) :
    change.onCell name c cell = change.onCell name c cell' := by
  cases change with
  | addColumn table column =>
    have hcell : name = table ∧ c = column.name := by simpa [overwrites] using h
    simp only [onCell, if_pos hcell]
  | dropColumn table dropped =>
    have hcell : name = table ∧ c = dropped := by simpa [overwrites] using h
    simp only [onCell, if_pos hcell]
  | _ => cases h

theorem onCell_of_not_overwrites {cell : Option V} (h : change.overwrites name c = false)
    (hcell : ∀ old, change.replaces name c = some old → cell ≠ some old) :
    change.onCell name c cell = cell := by
  cases change with
  | addColumn table column =>
    have hother : ¬(name = table ∧ c = column.name) := by simpa [overwrites] using h
    exact if_neg hother
  | dropColumn table dropped =>
    have hother : ¬(name = table ∧ c = dropped) := by simpa [overwrites] using h
    exact if_neg hother
  | updateWhere table updated old new =>
    refine if_neg ?_
    rintro ⟨htable, hc, hold⟩
    exact hcell old (if_pos ⟨htable, hc⟩) hold
  | _ => rfl

/-- Where a script puts something, what was there does not matter. -/
theorem cellAfter_of_overwrites (h : changes.any (·.overwrites name c) = true)
    (cell cell' : Option V) : cellAfter changes name c cell = cellAfter changes name c cell' := by
  induction changes generalizing cell cell' with
  | nil => cases h
  | cons change rest ih =>
    rw [cellAfter, cellAfter, List.foldl_cons, List.foldl_cons]
    by_cases hfirst : change.overwrites name c = true
    · rw [onCell_of_overwrites hfirst cell cell']
    · exact ih (by simpa [hfirst] using h) _ _

/-- Elsewhere a cell is kept, unless it holds what is replaced. -/
theorem cellAfter_of_not_overwrites {cell : Option V}
    (h : changes.any (·.overwrites name c) = false)
    (hcell : ∀ change ∈ changes, ∀ old, change.replaces name c = some old → cell ≠ some old) :
    cellAfter changes name c cell = cell := by
  induction changes with
  | nil => rfl
  | cons change rest ih =>
    obtain ⟨hfirst, hrest⟩ := List.forall_mem_cons.mp hcell
    obtain ⟨hkeeps, hkept⟩ := Bool.or_eq_false_iff.mp (List.any_cons.symm.trans h)
    rw [cellAfter, List.foldl_cons, onCell_of_not_overwrites hkeeps hfirst]
    exact ih hkept hrest

end Change

end Scripts

end Relational
