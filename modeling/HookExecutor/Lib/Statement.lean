import HookExecutor.Lib.Relational

/-!
# Statements on tables

`SELECT`, `INSERT`, `UPDATE`, `INSERT … ON CONFLICT DO UPDATE` and `DELETE` on the
rows of one table. A write is refused as a whole if the rows it leaves are not what
the schema declares; a deletion goes on to the rows that refer to what it deletes.

A write of one table whose keys stay is judged by that table alone
(`Db.Valid.fault?_update`), and a deletion is never refused (`Db.Valid.delete`).
-/

namespace Relational

set_option linter.unusedSectionVars false

variable {T C V : Type} [DecidableEq T] [DecidableEq C] [DecidableEq V]

/-- A row made of the cells an `INSERT` lists, and defaults. -/
def Table.newRow (t : Table T C V) (cells : List (C × Option V)) : Row C V := fun c =>
  (cells.lookup c).getD ((t.column? c).bind (·.default))

/-- A row with some of its cells overwritten. -/
def Row.set (row : Row C V) (cells : List (C × Option V)) : Row C V := fun c =>
  (cells.lookup c).getD (row c)

/-- The row refers to one that has to go. -/
def ForeignKey.severed (fk : ForeignKey T C) (rows : T → List (Row C V))
    (doomed : T → Row C V → Bool) (row : Row C V) : Bool :=
  (row fk.column).isSome &&
    (rows fk.table).any fun target => doomed fk.table target && target fk.key == row fk.column

/-- The references of a row that are cleared. -/
def Table.clear (t : Table T C V) (rows : T → List (Row C V)) (doomed : T → Row C V → Bool)
    (row : Row C V) : Row C V := fun c =>
  if t.foreignKeys.any fun fk => fk.onDelete == .setNull && fk.column == c &&
      fk.severed rows doomed row then none
  else row c

def Schema.clear (σ : Schema T C V) (rows : T → List (Row C V)) (doomed : T → Row C V → Bool)
    (name : T) (row : Row C V) : Row C V :=
  match σ.table? name with
  | none => row
  | some t => t.clear rows doomed row

/-- The table's own rows that go, or go with a row of an earlier table. -/
def Table.goes (t : Table T C V) (rows : T → List (Row C V)) (name : T) (p : Row C V → Bool)
    (doomed : T → Row C V → Bool) (row : Row C V) : Bool :=
  (t.name == name && p row) ||
    t.foreignKeys.any fun fk => fk.onDelete == .cascade && fk.severed rows doomed row

/-- The rows a `DELETE` takes with it. A table only refers to tables before it. -/
def Schema.doomed (σ : Schema T C V) (rows : T → List (Row C V)) (name : T)
    (p : Row C V → Bool) : T → Row C V → Bool :=
  σ.tables.foldl (fun doomed t => Function.update doomed t.name (t.goes rows name p doomed))
    fun _ _ => false

namespace Db

def select (db : Db T C V) (name : T) (p : Row C V → Bool) : List (Row C V) :=
  (db.rows name).filter p

/-- Write the rows of one table, unless they are refused. -/
def replace (db : Db T C V) (name : T) (rows : List (Row C V)) : Except Fault Unit × Db T C V :=
  match Db.fault? ⟨db.schema, Function.update db.rows name rows⟩ with
  | some f => (.error f, db)
  | none => (.ok (), ⟨db.schema, Function.update db.rows name rows⟩)

def insert (db : Db T C V) (name : T) (cells : List (C × Option V)) :
    Except Fault Unit × Db T C V :=
  match db.schema.table? name with
  | none => (.error .missing, db)
  | some t =>
    if cells.all fun cell => t.stores cell.1 then
      db.replace name (db.rows name ++ [t.newRow cells])
    else (.error .missing, db)

def update (db : Db T C V) (name : T) (p : Row C V → Bool) (cells : List (C × Option V)) :
    Except Fault Unit × Db T C V :=
  match db.schema.table? name with
  | none => (.error .missing, db)
  | some t =>
    if cells.all fun cell => t.stores cell.1 then
      db.replace name ((db.rows name).map fun row => if p row then row.set cells else row)
    else (.error .missing, db)

/-- `INSERT … ON CONFLICT (key) DO UPDATE SET overwritten`. -/
def upsert (db : Db T C V) (name : T) (cells : List (C × Option V)) (key overwritten : List C) :
    Except Fault Unit × Db T C V :=
  match db.schema.table? name with
  | none => (.error .missing, db)
  | some t =>
    if (db.rows name).any fun row => t.collide key row (t.newRow cells) then
      db.update name (fun row => t.collide key row (t.newRow cells))
        (cells.filter fun cell => overwritten.contains cell.1)
    else db.insert name cells

/-- Rows that refer to a deleted one go with it, or lose the reference. -/
def delete (db : Db T C V) (name : T) (p : Row C V → Bool) : Db T C V :=
  let doomed := db.schema.doomed db.rows name p
  ⟨db.schema, fun n =>
    ((db.rows n).filter fun row => !doomed n row).map (db.schema.clear db.rows doomed n)⟩

end Db

/-! ### Writes -/

section Writes

variable {σ : Schema T C V} {db : Db T C V} {t : Table T C V} {name : T}
  {rows : List (Row C V)} {key : List C} {r s : Row C V}

/-- Two rows have one of the table's keys in common. -/
def Table.collideAny (t : Table T C V) (keys : List (List C)) (r s : Row C V) : Bool :=
  keys.any fun key => t.collide key r s

theorem Table.distinct_all_iff {keys : List (List C)} :
    (∀ key ∈ keys, t.distinct key rows = true) ↔
      rows.Pairwise fun r s => t.collideAny keys r s = false := by
  simp only [Table.distinct, decide_eq_true_iff, Table.collideAny, List.any_eq_false,
    Bool.not_eq_true]
  induction rows with
  | nil => simp
  | cons row rows ih =>
    simp only [List.pairwise_cons]
    rw [← ih]
    constructor
    · intro h
      exact ⟨fun s hs key hkey => (h key hkey).1 s hs, fun key hkey => (h key hkey).2⟩
    · intro h key hkey
      exact ⟨fun s hs => h.1 s hs key hkey, h.2 key hkey⟩

/-- Of rows whose cells all fit, only keys and references are judged. -/
theorem Schema.tableFault?_eq {rows : T → List (Row C V)}
    (hadmits : ∀ row ∈ rows t.name, ∀ column ∈ t.columns, column.admits (row column.name) = true) :
    σ.tableFault? rows t =
      if (rows t.name).Pairwise fun r s => t.collideAny (σ.keys t) r s = false then
        if (rows t.name).all fun row => t.foreignKeys.all fun fk => fk.resolves rows row then none
        else some .foreignKey
      else some .unique := by
  rw [tableFault?]
  rw [if_neg (not_not.mpr hadmits)]
  by_cases hkeys : ∀ key ∈ σ.keys t, t.distinct key (rows t.name) = true
  · rw [if_neg (not_not.mpr hkeys), if_pos (Table.distinct_all_iff.mp hkeys)]
    by_cases hrefs : ∀ row ∈ rows t.name, ∀ fk ∈ t.foreignKeys, fk.resolves rows row = true
    · rw [if_neg (not_not.mpr hrefs), if_pos (by simpa only [List.all_eq_true] using hrefs)]
    · rw [if_pos hrefs, if_neg (by simpa only [List.all_eq_true] using hrefs)]
  · rw [if_pos hkeys, if_neg (mt Table.distinct_all_iff.mpr hkeys)]

theorem findSome?_eq_of_forall_ne {α β : Type} {f : α → Option β} {l : List α} {a : α}
    (ha : a ∈ l) (h : ∀ b ∈ l, b ≠ a → f b = none) : l.findSome? f = f a := by
  cases hfound : l.findSome? f with
  | none => exact (List.findSome?_eq_none_iff.mp hfound a ha).symm
  | some v =>
    obtain ⟨b, hb, hv⟩ := List.exists_of_findSome?_eq_some hfound
    by_cases heq : b = a
    · rw [← heq, hv]
    · rw [h b hb heq] at hv
      cases hv

/-- A table that keeps the keys others refer to is judged on its own. -/
theorem Db.Valid.fault?_update (hvalid : db.Valid) (hclosed : db.schema.Closed)
    (ht : t ∈ db.schema.tables)
    (hkeys : ∀ u ∈ db.schema.tables, ∀ fk ∈ u.foreignKeys, fk.table = t.name →
      ∀ target ∈ db.rows t.name, ∃ target' ∈ rows, target' fk.key = target fk.key) :
    Db.fault? ⟨db.schema, Function.update db.rows t.name rows⟩ =
      db.schema.tableFault? (Function.update db.rows t.name rows) t := by
  refine findSome?_eq_of_forall_ne ht fun u hu hne => ?_
  have hname : u.name ≠ t.name := fun heq => hne (hclosed.unique hu ht heq)
  have hrows : Function.update db.rows t.name rows u.name = db.rows u.name :=
    Function.update_of_ne hname _ _
  refine Schema.tableFault?_eq_none_iff.mpr ?_
  simp only [hrows]
  refine ⟨hvalid.columns u hu, hvalid.keys u hu, fun row hrow fk hfk => ?_⟩
  refine ForeignKey.resolves_iff.mpr fun v hv => ?_
  obtain ⟨target, htarget, hkey⟩ :=
    ForeignKey.resolves_iff.mp (hvalid.references u hu row hrow fk hfk) v hv
  by_cases htable : fk.table = t.name
  · obtain ⟨target', htarget', hkey'⟩ := hkeys u hu fk hfk htable target (htable ▸ htarget)
    refine ⟨target', ?_, hkey'.trans hkey⟩
    rw [htable, Function.update_self]
    exact htarget'
  · refine ⟨target, ?_, hkey⟩
    rwa [Function.update_of_ne htable]

/-- Of rows that are apart, one at most of them being written, only the written one
has to be looked at. -/
theorem pairwise_map_update {α : Type} {R : α → α → Prop} {p : α → Prop} [DecidablePred p]
    {f : α → α} {l : List α} (hsymm : ∀ {x y}, R x y → R y x)
    (hone : ∀ {x y}, R x y → ¬(p x ∧ p y)) (h : l.Pairwise R) :
    (l.map fun x => if p x then f x else x).Pairwise R ↔
      ∀ x ∈ l, p x → ∀ y ∈ l, ¬p y → R y (f x) := by
  induction l with
  | nil => simp
  | cons a l ih =>
    obtain ⟨ha, hl⟩ := List.pairwise_cons.mp h
    rw [List.map_cons, List.pairwise_cons, ih hl]
    by_cases hp : p a
    · have hrest : ∀ y ∈ l, ¬p y := fun y hy hpy => hone (ha y hy) ⟨hp, hpy⟩
      constructor
      · rintro ⟨hfirst, -⟩ x hx hpx y hy hpy
        obtain rfl | hxl := List.mem_cons.mp hx
        · obtain rfl | hyl := List.mem_cons.mp hy
          · exact absurd hp hpy
          · have hapart := hfirst _ (List.mem_map_of_mem hyl)
            rw [if_pos hp, if_neg hpy] at hapart
            exact hsymm hapart
        · exact absurd hpx (hrest x hxl)
      · intro hall
        refine ⟨?_, fun x hx hpx => absurd hpx (hrest x hx)⟩
        intro y' hy'
        obtain ⟨y, hy, rfl⟩ := List.mem_map.mp hy'
        rw [if_pos hp, if_neg (hrest y hy)]
        exact hsymm (hall a List.mem_cons_self hp y (List.mem_cons_of_mem _ hy) (hrest y hy))
    · constructor
      · rintro ⟨hfirst, hothers⟩ x hx hpx y hy hpy
        obtain rfl | hxl := List.mem_cons.mp hx
        · exact absurd hpx hp
        · obtain rfl | hyl := List.mem_cons.mp hy
          · have hapart := hfirst _ (List.mem_map_of_mem hxl)
            rwa [if_neg hp, if_pos hpx] at hapart
          · exact hothers x hxl hpx y hyl hpy
      · intro hall
        refine ⟨?_, fun x hx hpx y hy => hall x (List.mem_cons_of_mem _ hx) hpx y
          (List.mem_cons_of_mem _ hy)⟩
        intro y' hy'
        obtain ⟨y, hy, rfl⟩ := List.mem_map.mp hy'
        rw [if_neg hp]
        by_cases hpy : p y
        · rw [if_pos hpy]
          exact hall y (List.mem_cons_of_mem _ hy) hpy a List.mem_cons_self hp
        · rw [if_neg hpy]
          exact ha y hy

theorem Db.Valid.replace (hvalid : db.Valid) (name : T) (rows : List (Row C V)) :
    (db.replace name rows).2.Valid := by
  rw [Db.replace]
  split
  · exact hvalid
  · rename_i hfault
    exact Db.fault?_eq_none_iff.mp hfault

theorem Db.Valid.insert (hvalid : db.Valid) (name : T) (cells : List (C × Option V)) :
    (db.insert name cells).2.Valid := by
  rw [Db.insert]
  split
  · exact hvalid
  · split
    · exact hvalid.replace _ _
    · exact hvalid

theorem Db.Valid.update (hvalid : db.Valid) (name : T) (p : Row C V → Bool)
    (cells : List (C × Option V)) : (db.update name p cells).2.Valid := by
  rw [Db.update]
  split
  · exact hvalid
  · split
    · exact hvalid.replace _ _
    · exact hvalid

theorem Db.Valid.upsert (hvalid : db.Valid) (name : T) (cells : List (C × Option V))
    (key overwritten : List C) : (db.upsert name cells key overwritten).2.Valid := by
  rw [Db.upsert]
  split
  · exact hvalid
  · split
    · exact hvalid.update _ _ _
    · exact hvalid.insert _ _

end Writes

/-! ### Deletions -/

/-- A table refers to earlier ones only. -/
def Schema.Layered (σ : Schema T C V) : Prop :=
  (σ.tables.Pairwise fun t u => ∀ fk ∈ t.foreignKeys, fk.table ≠ u.name) ∧
    ∀ t ∈ σ.tables, ∀ fk ∈ t.foreignKeys, fk.table ≠ t.name

instance (σ : Schema T C V) : Decidable σ.Layered :=
  inferInstanceAs (Decidable (_ ∧ _))

/-- A reference that can be cleared: nothing but the reference is lost with it. -/
structure Schema.Clearable (σ : Schema T C V) (t : Table T C V) (c : C) : Prop where
  admits : ∀ column ∈ t.columns, column.name = c → column.admits none = true
  keys : ∀ key ∈ σ.keys t, ∀ c' ∈ key, ∀ column ∈ t.columns, column.name = c' →
    c ∉ column.sources
  targets : ∀ u ∈ σ.tables, ∀ fk ∈ u.foreignKeys, fk.table = t.name → fk.key ≠ c

instance (σ : Schema T C V) (t : Table T C V) (c : C) : Decidable (σ.Clearable t c) :=
  decidable_of_iff ((∀ column ∈ t.columns, column.name = c → column.admits none = true) ∧
      (∀ key ∈ σ.keys t, ∀ c' ∈ key, ∀ column ∈ t.columns, column.name = c' →
        c ∉ column.sources) ∧
      ∀ u ∈ σ.tables, ∀ fk ∈ u.foreignKeys, fk.table = t.name → fk.key ≠ c)
    ⟨fun h => ⟨h.1, h.2.1, h.2.2⟩, fun h => ⟨h.1, h.2, h.3⟩⟩

section Deletions

variable {σ : Schema T C V} {db : Db T C V} {t u : Table T C V} {name : T} {p : Row C V → Bool}
  {rows : T → List (Row C V)} {doomed doomed' : T → Row C V → Bool} {row : Row C V}
  {fk : ForeignKey T C}

theorem ForeignKey.severed_congr (h : doomed fk.table = doomed' fk.table) :
    fk.severed rows doomed row = fk.severed rows doomed' row := by
  simp only [severed, h]

theorem Table.goes_congr (h : ∀ fk ∈ t.foreignKeys, doomed fk.table = doomed' fk.table) :
    t.goes rows name p doomed = t.goes rows name p doomed' := by
  funext row
  rw [goes, goes]
  congr 1
  rw [Bool.eq_iff_iff, List.any_eq_true, List.any_eq_true]
  refine exists_congr fun fk => and_congr_right fun hfk => ?_
  rw [ForeignKey.severed_congr (h fk hfk)]

theorem foldl_doomed_of_notMem (ts : List (Table T C V)) {n : T} (hn : n ∉ ts.map (·.name)) :
    ts.foldl (fun doomed t => Function.update doomed t.name (t.goes rows name p doomed)) doomed n =
      doomed n := by
  induction ts generalizing doomed with
  | nil => rfl
  | cons t ts ih =>
    rw [List.map_cons, List.mem_cons, not_or] at hn
    rw [List.foldl_cons, ih hn.2, Function.update_of_ne hn.1]

theorem foldl_doomed_of_mem (ts : List (Table T C V)) (hnames : (ts.map (·.name)).Nodup)
    (hlater : ts.Pairwise fun t u => ∀ fk ∈ t.foreignKeys, fk.table ≠ u.name)
    (hself : ∀ t ∈ ts, ∀ fk ∈ t.foreignKeys, fk.table ≠ t.name) (ht : t ∈ ts) :
    ts.foldl (fun doomed t => Function.update doomed t.name (t.goes rows name p doomed)) doomed
        t.name =
      t.goes rows name p (ts.foldl
        (fun doomed t => Function.update doomed t.name (t.goes rows name p doomed)) doomed) := by
  induction ts generalizing doomed with
  | nil => cases ht
  | cons u ts ih =>
    rw [List.map_cons, List.nodup_cons] at hnames
    rw [List.pairwise_cons] at hlater
    obtain rfl | hmem := List.mem_cons.mp ht
    · rw [List.foldl_cons, foldl_doomed_of_notMem ts hnames.1, Function.update_self]
      refine Table.goes_congr fun fk hfk => ?_
      have hnot : fk.table ∉ ts.map (·.name) := by
        intro hin
        obtain ⟨v, hv, heq⟩ := List.mem_map.mp hin
        exact hlater.1 v hv fk hfk heq.symm
      rw [foldl_doomed_of_notMem ts hnot,
        Function.update_of_ne (hself t List.mem_cons_self fk hfk)]
    · exact ih hnames.2 hlater.2 (fun v hv => hself v (List.mem_cons_of_mem _ hv)) hmem

/-- A row goes if it is selected, or if it refers to one that goes. -/
theorem Schema.doomed_eq (hclosed : σ.Closed) (hlayered : σ.Layered) (ht : t ∈ σ.tables) :
    σ.doomed rows name p t.name = t.goes rows name p (σ.doomed rows name p) :=
  foldl_doomed_of_mem σ.tables hclosed.names hlayered.1 hlayered.2 ht

theorem Table.clear_of_forall_ne {c : C}
    (h : ∀ fk ∈ t.foreignKeys, fk.onDelete = .setNull → fk.column ≠ c) :
    t.clear rows doomed row c = row c := by
  refine if_neg fun hany => ?_
  obtain ⟨fk, hfk, hboth⟩ := List.any_eq_true.mp hany
  simp only [Bool.and_eq_true, beq_iff_eq] at hboth
  exact h fk hfk hboth.1.1 hboth.1.2

theorem Table.clear_eq_none_or (t : Table T C V) (rows : T → List (Row C V))
    (doomed : T → Row C V → Bool) (row : Row C V) (c : C) :
    t.clear rows doomed row c = none ∨ t.clear rows doomed row c = row c := by
  rw [clear]
  split
  · exact .inl rfl
  · exact .inr rfl

/-- A deletion is never refused. -/
theorem Db.Valid.delete (hvalid : db.Valid) (hclosed : db.schema.Closed)
    (hlayered : db.schema.Layered)
    (hclearable : ∀ t ∈ db.schema.tables, ∀ fk ∈ t.foreignKeys, fk.onDelete = .setNull →
      db.schema.Clearable t fk.column) :
    (db.delete name p).Valid := by
  have hclear : ∀ t ∈ db.schema.tables, ∀ doomed,
      db.schema.clear db.rows doomed t.name = t.clear db.rows doomed := by
    intro t ht doomed
    funext row
    rw [Schema.clear, hclosed.table?_eq ht]
  suffices hkeeps : db.Keeps db.schema (fun t => t)
      (fun n => (db.rows n).filter fun row => !db.schema.doomed db.rows name p n row)
      (db.schema.clear db.rows (db.schema.doomed db.rows name p)) from hvalid.keep hkeeps
  refine ⟨(List.map_id _).symm, fun _ _ => rfl, fun _ => List.filter_sublist, ?_, ?_, ?_⟩
  · intro t ht row hrow column hcolumn
    have hadmits := hvalid.columns t ht row (List.mem_filter.mp hrow).1 column hcolumn
    rw [hclear t ht]
    by_cases hcleared : ∀ fk ∈ t.foreignKeys, fk.onDelete = .setNull → fk.column ≠ column.name
    · rwa [Table.clear_of_forall_ne hcleared]
    · push Not at hcleared
      obtain ⟨fk, hfk, hset, hname⟩ := hcleared
      obtain hnone | hsame := t.clear_eq_none_or db.rows (db.schema.doomed db.rows name p) row
        column.name
      · rw [hnone]
        exact (hclearable t ht fk hfk hset).admits column hcolumn hname.symm
      · rwa [hsame]
  · intro t ht key hkey
    refine ⟨hkey, fun row hrow c hc => ?_⟩
    rw [hclear t ht, Table.read, Table.read]
    cases hcolumn : t.column? c with
    | none => rfl
    | some column =>
      refine Column.read_congr fun source hsource => Table.clear_of_forall_ne ?_
      rintro fk hfk hset rfl
      exact (hclearable t ht fk hfk hset).keys key hkey c hc column (Table.column?_mem hcolumn)
        (Table.column?_name hcolumn) hsource
  · intro t ht fk hfk
    refine ⟨hfk, fun row hrow => ?_⟩
    obtain ⟨hmem, hstays⟩ := List.mem_filter.mp hrow
    rw [hclear t ht]
    obtain hnone | hsame := t.clear_eq_none_or db.rows (db.schema.doomed db.rows name p) row
      fk.column
    · exact .inl hnone
    · cases hcell : row fk.column with
      | none => exact .inl (hsame.trans hcell)
      | some v =>
        refine .inr ⟨hsame.trans hcell, fun target htarget hkey => ⟨?_, ?_⟩⟩
        · refine List.mem_filter.mpr ⟨htarget, ?_⟩
          rw [Bool.not_eq_true', ← Bool.not_eq_true]
          intro hgoes
          have hsevered : fk.severed db.rows (db.schema.doomed db.rows name p) row = true := by
            rw [ForeignKey.severed, Bool.and_eq_true, List.any_eq_true]
            exact ⟨Option.isSome_of_eq_some hcell, target, htarget, by simp [hgoes, hkey, hcell]⟩
          -- The row would have gone too, or would have lost the reference.
          cases hdelete : fk.onDelete with
          | cascade =>
            rw [Schema.doomed_eq hclosed hlayered ht, Bool.not_eq_true', Table.goes,
              Bool.or_eq_false_iff, List.any_eq_false] at hstays
            exact hstays.2 fk hfk (by simp [hdelete, hsevered])
          | setNull =>
            have hcleared : t.clear db.rows (db.schema.doomed db.rows name p) row fk.column =
                none := if_pos (List.any_eq_true.mpr ⟨fk, hfk, by simp [hdelete, hsevered]⟩)
            rw [hcleared, hcell] at hsame
            cases hsame
        · obtain ⟨u, hu, hname, -⟩ := (hclosed.references t ht fk hfk).2
          rw [← hname, hclear u hu]
          refine Table.clear_of_forall_ne fun fk' hfk' hset heq => ?_
          exact (hclearable u hu fk' hfk' hset).targets t ht fk hfk hname.symm heq.symm
end Deletions

end Relational
