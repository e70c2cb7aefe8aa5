import HookExecutor.Verification.Reads
import HookExecutor.Verification.Integrity

/-!
# Lineage

Who created whom, as a relation between identifiers. The walk the handlers make
over it finds exactly the keys below its root. A ranking of the keys along
their lineage is what keeps a walk from ever coming back to where it started.
-/

namespace HookExecutor

namespace Database

/-- A key's row names its creator. -/
def Child (db : Database) (parent child : Uuid) : Prop :=
  ∃ key ∈ db.apiKeys, key.id = child ∧ key.parentKeyId = some parent

/-- One key descends from another. -/
def Below (db : Database) (root id : Uuid) : Prop := Relation.TransGen db.Child root id

variable {db : Database}

theorem mem_childrenOf {parents : List Uuid} {id : Uuid} :
    id ∈ db.childrenOf parents ↔ ∃ p ∈ parents, db.Child p id := by
  simp only [childrenOf, List.mem_map, List.mem_filter, ApiKeyCondition.holds, Option.any_eq_true,
    List.contains_iff_mem, Child]
  constructor
  · rintro ⟨key, ⟨hkey, p, hp, hmem⟩, rfl⟩
    exact ⟨p, hmem, key, hkey, rfl, hp⟩
  · rintro ⟨p, hmem, key, hkey, rfl, hp⟩
    exact ⟨key, ⟨hkey, p, hp, hmem⟩, rfl⟩

/-- What the walk has met when no level is left to ask for. -/
theorem descendants_invariant (db : Database) (root : Uuid) :
    Walk.LevelInvariant db.Child root (db.descendants root) [] :=
  Walk.levels_spec (fun _ _ => mem_childrenOf) (fun _ => Uuid.length_le_of_nodup) maxLevels
    (Walk.levelInvariant_start db.Child root) (.inr (by simp [maxLevels]))

/-- The walk finds every key below its root, and nothing else. -/
theorem mem_descendants {root id : Uuid} :
    id ∈ db.descendants root ↔ id ≠ root ∧ db.Below root id :=
  (descendants_invariant db root).mem_iff id

theorem nodup_descendants (db : Database) (root : Uuid) : (db.descendants root).Nodup :=
  (descendants_invariant db root).nodup

theorem Below.mem_keyIds {root id : Uuid} (h : db.Below root id) : id ∈ db.keyIds := by
  cases h with
  | single h =>
    obtain ⟨key, hkey, rfl, -⟩ := h
    exact List.mem_map_of_mem hkey
  | tail _ h =>
    obtain ⟨key, hkey, rfl, -⟩ := h
    exact List.mem_map_of_mem hkey

theorem loop_descendants (w : World) (root : Uuid) :
    Walk.Loop Op.exec childKeyIds root [] [root] w (.ok (w.db.descendants root), w) :=
  Walk.loop_levels (run_childKeyIds w) (fun _ _ => mem_childrenOf)
    (fun _ => Uuid.length_le_of_nodup) maxLevels (Walk.levelInvariant_start w.db.Child root)
    (.inr (by simp [maxLevels]))

/-- A root and the keys below it, as the deletion of the root sees them. -/
def subtree (db : Database) (root : Uuid) : List Uuid := root :: db.descendants root

theorem mem_subtree {root id : Uuid} :
    id ∈ db.subtree root ↔ id = root ∨ db.Below root id := by
  simp only [subtree, List.mem_cons, mem_descendants]
  constructor
  · exact Or.imp_right And.right
  · intro h
    by_cases hid : id = root
    · exact .inl hid
    · exact .inr ⟨hid, h.resolve_left hid⟩

/-- The subtree is closed under lineage. -/
theorem mem_subtree_of_child {root p id : Uuid} (hp : p ∈ db.subtree root) (h : db.Child p id) :
    id ∈ db.subtree root := by
  refine mem_subtree.mpr (.inr ?_)
  rcases mem_subtree.mp hp with rfl | hbelow
  · exact .single h
  · exact .tail hbelow h

/-- Every creator named exists, and no chain of creators closes on itself. -/
structure Lineage (db : Database) : Prop where
  parents : ∀ key ∈ db.apiKeys, ∀ p, key.parentKeyId = some p → p ∈ db.keyIds
  ranked : ∃ rank : Uuid → Nat, ∀ key ∈ db.apiKeys, ∀ p, key.parentKeyId = some p →
    rank p < rank key.id

theorem Lineage.not_below_self (h : db.Lineage) {id : Uuid} : ¬db.Below id id := by
  obtain ⟨rank, hrank⟩ := h.ranked
  have hlt : ∀ {a b}, db.Below a b → rank a < rank b := by
    intro a b hbelow
    induction hbelow with
    | single h =>
      obtain ⟨key, hkey, rfl, hp⟩ := h
      exact hrank key hkey _ hp
    | tail _ h ih =>
      obtain ⟨key, hkey, rfl, hp⟩ := h
      exact ih.trans (hrank key hkey _ hp)
  exact fun hself => Nat.lt_irrefl _ (hlt hself)

/-- A key is not above what it descends from. -/
theorem Lineage.asymm (h : db.Lineage) {a b : Uuid} (hab : db.Below a b) : ¬db.Below b a :=
  fun hba => h.not_below_self (hab.trans hba)

theorem lineage_empty : empty.Lineage :=
  ⟨by simp [empty], fun _ => 0, by simp [empty]⟩

/-- Lineage is a matter of the key table alone. -/
theorem Lineage.congr {db' : Database} (h : db.Lineage) (hkeys : db'.apiKeys = db.apiKeys) :
    db'.Lineage := by
  cases db
  cases db'
  cases hkeys
  exact ⟨h.parents, h.ranked⟩

/-- A daughter of an existing key joins at the end of its chain. -/
theorem Lineage.insert (h : db.Lineage) {row : ApiKey} {p : Uuid} (hp : row.parentKeyId = some p)
    (hexists : p ∈ db.keyIds) (hfresh : row.id ∉ db.keyIds) :
    Lineage { db with apiKeys := db.apiKeys ++ [row] } where
  parents := by
    intro key hkey q hq
    refine List.mem_map.mpr ?_
    rcases List.mem_append.mp hkey with hkey | hkey
    · obtain ⟨k, hk, hid⟩ := List.mem_map.mp (h.parents key hkey q hq)
      exact ⟨k, List.mem_append_left _ hk, hid⟩
    · rw [List.mem_singleton.mp hkey, hp] at hq
      cases hq
      obtain ⟨k, hk, hid⟩ := List.mem_map.mp hexists
      exact ⟨k, List.mem_append_left _ hk, hid⟩
  ranked := by
    obtain ⟨rank, hrank⟩ := h.ranked
    refine ⟨Function.update rank row.id (rank p + 1), fun key hkey q hq => ?_⟩
    rcases List.mem_append.mp hkey with hkey | hkey
    · have hid : key.id ≠ row.id := fun he => hfresh (he ▸ List.mem_map_of_mem hkey)
      have hqid : q ≠ row.id := fun he => hfresh (he ▸ h.parents key hkey q hq)
      rw [Function.update_of_ne hid, Function.update_of_ne hqid]
      exact hrank key hkey q hq
    · obtain rfl := List.mem_singleton.mp hkey
      obtain rfl : p = q := by simpa [hp] using hq
      have hqid : p ≠ key.id := fun he => hfresh (he ▸ hexists)
      rw [Function.update_self, Function.update_of_ne hqid]
      omega

/-- Updating a key in place moves nobody. -/
theorem Lineage.map (h : db.Lineage) {f : ApiKey → ApiKey} (hid : ∀ k, (f k).id = k.id)
    (hparent : ∀ k, (f k).parentKeyId = k.parentKeyId) :
    Lineage { db with apiKeys := db.apiKeys.map f } where
  parents := by
    intro key hkey p hp
    obtain ⟨k, hk, rfl⟩ := List.mem_map.mp hkey
    rw [hparent] at hp
    have hmem := h.parents k hk p hp
    simpa [Database.keyIds, hid] using hmem
  ranked := by
    obtain ⟨rank, hrank⟩ := h.ranked
    refine ⟨rank, fun key hkey p hp => ?_⟩
    obtain ⟨k, hk, rfl⟩ := List.mem_map.mp hkey
    rw [hid]
    exact hrank k hk p (hparent k ▸ hp)

/-- Removing a set that is closed under lineage leaves nobody without the
creator it names. -/
theorem Lineage.filter (h : db.Lineage) {gone : ApiKey → Bool}
    (hclosed : ∀ key ∈ db.apiKeys, ∀ l ∈ db.apiKeys, key.parentKeyId = some l.id →
      gone l = true → gone key = true) :
    Lineage { db with apiKeys := db.apiKeys.filter fun k => !gone k } where
  parents := by
    intro key hkey p hp
    obtain ⟨hmem, hkept⟩ := List.mem_filter.mp hkey
    obtain ⟨l, hl, rfl⟩ := List.mem_map.mp (h.parents key hmem p hp)
    refine List.mem_map.mpr ⟨l, List.mem_filter.mpr ⟨hl, ?_⟩, rfl⟩
    by_contra hgone
    have := hclosed key hmem l hl hp (by simpa using hgone)
    simp [this] at hkept
  ranked := by
    obtain ⟨rank, hrank⟩ := h.ranked
    exact ⟨rank, fun key hkey p hp => hrank key (List.mem_filter.mp hkey).1 p hp⟩

end Database

/-- Whatever the lineage of the keys looks like, cycles and all, the walk below
a root comes to an end, and it has then met exactly the other keys that are
reached from the root along it, each of them once. -/
theorem descendantKeyIds_exact (w : World) (root : Uuid) :
    ∃ ids, (∀ r, Walk.Loop Op.exec childKeyIds root [] [root] w r ↔ r = (.ok ids, w)) ∧
      (descendantKeyIds root).run Op.exec w = (.ok ids, w) ∧ ids.Nodup ∧
      ∀ id, id ∈ ids ↔ id ≠ root ∧ Relation.TransGen w.db.Child root id := by
  have hloop := Database.loop_descendants w root
  refine ⟨w.db.descendants root, ?_, run_descendantKeyIds w root,
    Database.nodup_descendants w.db root, fun _ => Database.mem_descendants⟩
  intro r
  constructor
  · intro hr
    exact hr.unique hloop
  · rintro rfl
    exact hloop

end HookExecutor
