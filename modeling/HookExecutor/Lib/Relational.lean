import Mathlib.Data.List.Nodup
import Mathlib.Logic.Function.Basic

/-!
# Relational tables

Tables of rows whose cells are named and may be NULL. A schema declares columns,
keys and references; a change of the schema and a statement on the rows are
refused if the rows they leave are not what the schema declares (`Db.fault?`). A
derived column is not stored, it is computed where it is read.

What is done to rows is reasoned about with `Db.Valid.keep`: rows that are kept,
changed only where nothing is declared of them, are still what the schema says.
-/

namespace Relational

set_option linter.unusedSectionVars false

/-- The stored cells of a row, NULL where there is none. -/
abbrev Row (C V : Type) := C → Option V

inductive Content (C V : Type) where
  | stored (fits : V → Bool) (notNull : Bool) (default : Option V)
  /-- `CASE WHEN flag THEN value ELSE NULL END`. -/
  | derived (flag : C) (truthy : V → Bool) (value : V)

structure Column (C V : Type) where
  name : C
  content : Content C V

/-- What becomes of a row when the row it refers to is deleted. -/
inductive OnDelete where
  | cascade | setNull
  deriving DecidableEq

structure ForeignKey (T C : Type) where
  column : C
  table : T
  key : C
  onDelete : OnDelete

structure Table (T C V : Type) where
  name : T
  columns : List (Column C V)
  uniques : List (List C)
  foreignKeys : List (ForeignKey T C)

structure Index (T C : Type) where
  name : String
  table : T
  columns : List C
  unique : Bool

structure Schema (T C V : Type) where
  tables : List (Table T C V)
  indexes : List (Index T C)

structure Db (T C V : Type) where
  schema : Schema T C V
  rows : T → List (Row C V)

/-- Why a change or a statement is refused. -/
inductive Fault where
  | alreadyThere | missing | inUse | column | unique | foreignKey
  deriving DecidableEq

variable {T C V : Type} [DecidableEq T] [DecidableEq C] [DecidableEq V]

/-! ### What a schema declares -/

namespace Column

def isStored (column : Column C V) : Bool :=
  match column.content with
  | .stored .. => true
  | .derived .. => false

def default (column : Column C V) : Option V :=
  match column.content with
  | .stored _ _ default => default
  | .derived .. => none

def notNull (column : Column C V) : Column C V :=
  match column.content with
  | .stored fits _ default => ⟨column.name, .stored fits true default⟩
  | .derived .. => column

def defaultTo (column : Column C V) (v : V) : Column C V :=
  match column.content with
  | .stored fits notNull _ => ⟨column.name, .stored fits notNull (some v)⟩
  | .derived .. => column

/-- The cell of the column as a query sees it. -/
def read (column : Column C V) (row : Row C V) : Option V :=
  match column.content with
  | .stored .. => row column.name
  | .derived flag truthy value => if (row flag).any truthy then some value else none

def admits (column : Column C V) (cell : Option V) : Bool :=
  match column.content with
  | .stored fits notNull _ => match cell with
    | none => !notNull
    | some v => fits v
  | .derived .. => true

/-- The columns the cell is computed from. -/
def sources (column : Column C V) : List C :=
  match column.content with
  | .stored .. => [column.name]
  | .derived flag .. => [flag]

end Column

namespace Table

def column? (t : Table T C V) (c : C) : Option (Column C V) := t.columns.find? (·.name == c)

def has (t : Table T C V) (c : C) : Bool := (t.column? c).isSome

def stores (t : Table T C V) (c : C) : Bool := (t.column? c).any (·.isStored)

/-- A row as a query sees it. -/
def read (t : Table T C V) (row : Row C V) (c : C) : Option V := (t.column? c).bind (·.read row)

/-- Two rows have the same key, no part of which is NULL. -/
def collide (t : Table T C V) (key : List C) (r s : Row C V) : Bool :=
  key.all fun c => (t.read r c).isSome && t.read r c == t.read s c

def distinct (t : Table T C V) (key : List C) (rows : List (Row C V)) : Bool :=
  decide (rows.Pairwise fun r s => t.collide key r s = false)

end Table

def ForeignKey.resolves (fk : ForeignKey T C) (rows : T → List (Row C V)) (row : Row C V) : Bool :=
  (row fk.column).all fun v => (rows fk.table).any fun target => target fk.key == some v

namespace Schema

def table? (σ : Schema T C V) (name : T) : Option (Table T C V) :=
  σ.tables.find? (·.name == name)

def mapTable (σ : Schema T C V) (name : T) (f : Table T C V → Table T C V) : Schema T C V :=
  { σ with tables := σ.tables.map fun t => if t.name = name then f t else t }

/-- The unique keys of a table, declared with it or by an index. -/
def keys (σ : Schema T C V) (t : Table T C V) : List (List C) :=
  t.uniques ++ (σ.indexes.filter fun i => i.unique && i.table == t.name).map (·.columns)

/-- Something else in the schema names the column. -/
def uses (σ : Schema T C V) (name : T) (c : C) : Bool :=
  (σ.indexes.any fun i => i.table == name && i.columns.contains c) ||
    σ.tables.any fun t =>
      (t.name == name && (t.uniques.any (·.contains c) || t.foreignKeys.any (·.column == c) ||
        t.columns.any fun column => column.name != c && column.sources.contains c)) ||
      t.foreignKeys.any fun fk => fk.table == name && fk.key == c

/-- What is wrong with the rows of one table. -/
def tableFault? (σ : Schema T C V) (rows : T → List (Row C V)) (t : Table T C V) : Option Fault :=
  if ¬∀ row ∈ rows t.name, ∀ column ∈ t.columns, column.admits (row column.name) = true then
    some .column
  else if ¬∀ key ∈ σ.keys t, t.distinct key (rows t.name) = true then some .unique
  else if ¬∀ row ∈ rows t.name, ∀ fk ∈ t.foreignKeys, fk.resolves rows row = true then
    some .foreignKey
  else none

end Schema

/-- What is wrong with the rows, if they are not what the schema declares. -/
def Db.fault? (db : Db T C V) : Option Fault :=
  db.schema.tables.findSome? (db.schema.tableFault? db.rows)

/-! ### What is declared holds -/

/-- The rows are what the schema declares. -/
structure Db.Valid (db : Db T C V) : Prop where
  columns : ∀ t ∈ db.schema.tables, ∀ row ∈ db.rows t.name, ∀ column ∈ t.columns,
    column.admits (row column.name) = true
  keys : ∀ t ∈ db.schema.tables, ∀ key ∈ db.schema.keys t, t.distinct key (db.rows t.name) = true
  references : ∀ t ∈ db.schema.tables, ∀ row ∈ db.rows t.name, ∀ fk ∈ t.foreignKeys,
    fk.resolves db.rows row = true

/-- There are cells only in columns that store them, and rows only in tables that
there are. -/
structure Db.Tidy (db : Db T C V) : Prop where
  cells : ∀ t ∈ db.schema.tables, ∀ row ∈ db.rows t.name, ∀ c, t.stores c = false → row c = none
  rows : ∀ name, db.schema.table? name = none → db.rows name = []

/-- Whatever the schema names is in it. -/
structure Schema.Closed (σ : Schema T C V) : Prop where
  names : (σ.tables.map (·.name)).Nodup
  sources : ∀ t ∈ σ.tables, ∀ column ∈ t.columns, ∀ c ∈ column.sources, t.stores c = true
  keys : ∀ t ∈ σ.tables, ∀ key ∈ σ.keys t, ∀ c ∈ key, t.has c = true
  references : ∀ t ∈ σ.tables, ∀ fk ∈ t.foreignKeys, t.stores fk.column = true ∧
    ∃ target ∈ σ.tables, target.name = fk.table ∧ target.stores fk.key = true

instance (σ : Schema T C V) : Decidable σ.Closed :=
  decidable_of_iff ((σ.tables.map (·.name)).Nodup ∧
      (∀ t ∈ σ.tables, ∀ column ∈ t.columns, ∀ c ∈ column.sources, t.stores c = true) ∧
      (∀ t ∈ σ.tables, ∀ key ∈ σ.keys t, ∀ c ∈ key, t.has c = true) ∧
      ∀ t ∈ σ.tables, ∀ fk ∈ t.foreignKeys, t.stores fk.column = true ∧
        ∃ target ∈ σ.tables, target.name = fk.table ∧ target.stores fk.key = true)
    ⟨fun h => ⟨h.1, h.2.1, h.2.2.1, h.2.2.2⟩, fun h => ⟨h.1, h.2, h.3, h.4⟩⟩

section Facts

variable {σ σ' : Schema T C V} {db : Db T C V} {t u : Table T C V} {name : T} {c : C}
  {column : Column C V} {row r s : Row C V} {rows : T → List (Row C V)}

theorem Table.column?_name (h : t.column? c = some column) : column.name = c := by
  simpa using List.find?_some h

theorem Table.column?_mem (h : t.column? c = some column) : column ∈ t.columns :=
  List.mem_of_find?_eq_some h

theorem Table.stores_iff : t.stores c = true ↔
    ∃ column, t.column? c = some column ∧ column.isStored = true := by
  cases hcolumn : t.column? c with
  | none => simp [stores, hcolumn]
  | some column => simp [stores, hcolumn]

theorem Table.has_of_stores (h : t.stores c = true) : t.has c = true := by
  obtain ⟨column, hcolumn, -⟩ := stores_iff.mp h
  exact Option.isSome_of_eq_some hcolumn

theorem Table.has_of_mem (h : column ∈ t.columns) : t.has column.name = true := by
  refine List.find?_isSome.mpr ⟨column, h, ?_⟩
  exact beq_self_eq_true _

theorem Table.read_of_stores (h : t.stores c = true) : t.read row c = row c := by
  obtain ⟨column, hcolumn, hstored⟩ := stores_iff.mp h
  have hname := column?_name hcolumn
  obtain ⟨name, content⟩ := column
  cases content with
  | stored fits notNull default => simpa [read, hcolumn, Column.read] using congrArg row hname
  | derived flag truthy value => cases hstored

theorem Column.read_congr (h : ∀ c ∈ column.sources, r c = s c) : column.read r = column.read s := by
  obtain ⟨name, content⟩ := column
  cases content with
  | stored fits notNull default => exact h name (List.mem_singleton_self name)
  | derived flag truthy value =>
    have hflag := h flag (List.mem_singleton_self flag)
    simp [Column.read, hflag]

theorem Schema.table?_name (h : σ.table? name = some t) : t.name = name := by
  simpa using List.find?_some h

theorem Schema.table?_mem (h : σ.table? name = some t) : t ∈ σ.tables :=
  List.mem_of_find?_eq_some h

theorem Schema.Closed.unique (h : σ.Closed) (ht : t ∈ σ.tables) (hu : u ∈ σ.tables)
    (hname : t.name = u.name) : t = u :=
  List.inj_on_of_nodup_map h.names ht hu hname

theorem Schema.Closed.table?_eq (h : σ.Closed) (ht : t ∈ σ.tables) : σ.table? t.name = some t := by
  cases hfound : σ.table? t.name with
  | none => exact absurd (beq_self_eq_true t.name) (List.find?_eq_none.mp hfound t ht)
  | some u => rw [h.unique (table?_mem hfound) ht (table?_name hfound)]

theorem Schema.tableFault?_eq_none_iff : σ.tableFault? rows t = none ↔
    (∀ row ∈ rows t.name, ∀ column ∈ t.columns, column.admits (row column.name) = true) ∧
      (∀ key ∈ σ.keys t, t.distinct key (rows t.name) = true) ∧
      ∀ row ∈ rows t.name, ∀ fk ∈ t.foreignKeys, fk.resolves rows row = true := by
  unfold tableFault?
  split
  · rename_i h
    exact iff_of_false (Option.some_ne_none _) fun hall => h hall.1
  · split
    · rename_i h
      exact iff_of_false (Option.some_ne_none _) fun hall => h hall.2.1
    · split
      · rename_i h
        exact iff_of_false (Option.some_ne_none _) fun hall => h hall.2.2
      · rename_i hcolumns hkeys hreferences
        exact iff_of_true rfl ⟨not_not.mp hcolumns, not_not.mp hkeys, not_not.mp hreferences⟩

theorem Db.fault?_eq_none_iff : db.fault? = none ↔ db.Valid := by
  rw [fault?, List.findSome?_eq_none_iff]
  constructor
  · intro h
    have hall := fun t ht => Schema.tableFault?_eq_none_iff.mp (h t ht)
    exact ⟨fun t ht => (hall t ht).1, fun t ht => (hall t ht).2.1, fun t ht => (hall t ht).2.2⟩
  · intro h t ht
    exact Schema.tableFault?_eq_none_iff.mpr ⟨h.columns t ht, h.keys t ht, h.references t ht⟩

theorem ForeignKey.resolves_iff {fk : ForeignKey T C} : fk.resolves rows row = true ↔
    ∀ v, row fk.column = some v → ∃ target ∈ rows fk.table, target fk.key = some v := by
  cases h : row fk.column with
  | none => simp [resolves, h]
  | some v => simp [resolves, h]

/-- Two rows that read alike collide alike. -/
theorem Table.collide_congr {key : List C} {r' s' : Row C V}
    (hr : ∀ c ∈ key, u.read r' c = t.read r c) (hs : ∀ c ∈ key, u.read s' c = t.read s c) :
    u.collide key r' s' = t.collide key r s := by
  rw [Bool.eq_iff_iff, collide, collide, List.all_eq_true, List.all_eq_true]
  refine forall₂_congr fun c hc => ?_
  rw [hr c hc, hs c hc]

/-! ### Rows that are kept -/

/-- Some of the rows are kept, each changed where nothing is declared or where it may
be: the tables `g` makes of the old ones admit the rows `h` makes, keys read as they
did, and references are cleared or still resolve. -/
structure Db.Keeps (db : Db T C V) (σ' : Schema T C V) (g : Table T C V → Table T C V)
    (kept : T → List (Row C V)) (h : T → Row C V → Row C V) : Prop where
  tables : σ'.tables = db.schema.tables.map g
  name : ∀ t ∈ db.schema.tables, (g t).name = t.name
  sub : ∀ name, (kept name).Sublist (db.rows name)
  columns : ∀ t ∈ db.schema.tables, ∀ row ∈ kept t.name, ∀ column ∈ (g t).columns,
    column.admits (h t.name row column.name) = true
  keys : ∀ t ∈ db.schema.tables, ∀ key ∈ σ'.keys (g t), key ∈ db.schema.keys t ∧
    ∀ row ∈ kept t.name, ∀ c ∈ key, (g t).read (h t.name row) c = t.read row c
  references : ∀ t ∈ db.schema.tables, ∀ fk ∈ (g t).foreignKeys, fk ∈ t.foreignKeys ∧
    ∀ row ∈ kept t.name, h t.name row fk.column = none ∨
      h t.name row fk.column = row fk.column ∧ ∀ target ∈ db.rows fk.table,
        target fk.key = row fk.column →
          target ∈ kept fk.table ∧ h fk.table target fk.key = target fk.key

theorem Db.Valid.keep {g : Table T C V → Table T C V} {kept : T → List (Row C V)}
    {h : T → Row C V → Row C V} (hvalid : db.Valid) (hkeeps : db.Keeps σ' g kept h) :
    Db.Valid ⟨σ', fun name => (kept name).map (h name)⟩ := by
  refine ⟨?_, ?_, ?_⟩
  · intro t' ht' row' hrow' column hcolumn
    obtain ⟨t, ht, rfl⟩ := List.mem_map.mp (hkeeps.tables ▸ ht')
    obtain ⟨row, hrow, rfl⟩ := List.mem_map.mp (hkeeps.name t ht ▸ hrow')
    exact hkeeps.columns t ht row hrow column hcolumn
  · intro t' ht' key hkey
    obtain ⟨t, ht, rfl⟩ := List.mem_map.mp (hkeeps.tables ▸ ht')
    obtain ⟨hold, hread⟩ := hkeeps.keys t ht key hkey
    have hdistinct := (of_decide_eq_true (hvalid.keys t ht key hold)).sublist (hkeeps.sub t.name)
    refine decide_eq_true ?_
    simp only [hkeeps.name t ht, List.pairwise_map]
    refine hdistinct.imp_of_mem fun hr hs hapart => ?_
    rwa [Table.collide_congr (hread _ hr) (hread _ hs)]
  · intro t' ht' row' hrow' fk hfk
    obtain ⟨t, ht, rfl⟩ := List.mem_map.mp (hkeeps.tables ▸ ht')
    obtain ⟨row, hrow, rfl⟩ := List.mem_map.mp (hkeeps.name t ht ▸ hrow')
    obtain ⟨hold, hrefers⟩ := hkeeps.references t ht fk hfk
    refine ForeignKey.resolves_iff.mpr fun v hv => ?_
    obtain hnone | ⟨hsame, htargets⟩ := hrefers row hrow
    · rw [hnone] at hv
      cases hv
    · rw [hsame] at hv
      obtain ⟨target, htarget, hkey⟩ := ForeignKey.resolves_iff.mp
        (hvalid.references t ht row ((hkeeps.sub t.name).subset hrow) fk hold) v hv
      obtain ⟨hkept, hstays⟩ := htargets target htarget (hkey.trans hv.symm)
      exact ⟨_, List.mem_map_of_mem hkept, hstays.trans hkey⟩

end Facts

end Relational
