import HookExecutor.Verification.Listings

/-!
# What the minimal view is made of

A key that manages keys sees its own subtree in full, and of anybody else who
holds a row on a hook it manages the name and that row. Two databases that agree
on this much list the same keys to it, whatever else is in them.
-/

namespace HookExecutor

/-! ### Rows that two tables share -/

section Rows

variable {α β γ : Type} {f : α → β} {P : α → Bool} {l l' : List α}

/-- Lists that agree on what is shown of every row, and on the rows a test lets
through, agree row by row. -/
theorem forall₂_of_map_filter (hP : ∀ a b, f a = f b → P a = P b) (hmap : l.map f = l'.map f)
    (hfilter : l.filter P = l'.filter P) :
    List.Forall₂ (fun a b => f a = f b ∧ (P a = true → a = b)) l l' := by
  induction l generalizing l' with
  | nil =>
    obtain rfl : l' = [] := by simpa using hmap.symm
    exact .nil
  | cons a rest ih =>
    cases l' with
    | nil => simp at hmap
    | cons b rest' =>
      obtain ⟨hhead, htail⟩ := List.cons.inj hmap
      have hsame := hP a b hhead
      cases ha : P a with
      | true =>
        rw [List.filter_cons_of_pos ha, List.filter_cons_of_pos (hsame ▸ ha)] at hfilter
        obtain ⟨rfl, hrest⟩ := List.cons.inj hfilter
        exact .cons ⟨hhead, fun _ => rfl⟩ (ih htail hrest)
      | false =>
        rw [List.filter_cons_of_neg (by simp [ha]),
          List.filter_cons_of_neg (by simp [← hsame, ha])] at hfilter
        exact .cons ⟨hhead, fun h => by simp [ha] at h⟩ (ih htail hfilter)

theorem filterMap_eq_of_forall₂ {R : α → α → Prop} {g g' : α → Option γ}
    (h : List.Forall₂ R l l') (hg : ∀ a b, R a b → g a = g' b) :
    l.filterMap g = l'.filterMap g' := by
  induction h with
  | nil => rfl
  | cons hab _ ih => rw [List.filterMap_cons, List.filterMap_cons, hg _ _ hab, ih]

end Rows

namespace Database

/-- Permission rows with the names of the hooks they are on. -/
def rights (db : Database) (p : Permission → Bool) : List (Permission × Option String) :=
  (db.permissions.filter p).map fun row => (row, (db.hookWithId row.hookId).map (·.name))

/-- Rows that agree agree on every narrower choice among them. -/
theorem rights_narrower {db db' : Database} {p p' q : Permission → Bool}
    (hsame : db.rights p = db'.rights p') (hp : ∀ row, q row = true → p row = true)
    (hp' : ∀ row, q row = true → p' row = true) : db.rights q = db'.rights q := by
  have hpart : ∀ (db : Database) (p : Permission → Bool), (∀ row, q row = true → p row = true) →
      db.rights q = (db.rights p).filter fun r => q r.1 := by
    intro db p hp
    rw [rights, rights, List.filter_map, List.filter_filter]
    congr 1
    refine List.filter_congr fun row _ => ?_
    cases hq : q row <;> simp [hq, hp row]
  rw [hpart db p hp, hpart db' p' hp', hsame]

/-- What two databases have in common for a caller: the identifiers and names of
all keys in the order they were created, its own subtree in full, and everybody's
rows on the hooks it manages. -/
structure AgreeFor (key : ApiKey) (db db' : Database) : Prop where
  listing : db.creationOrder.map (fun k => (k.id, k.name)) =
    db'.creationOrder.map fun k => (k.id, k.name)
  subtree : db.creationOrder.filter (fun k => (db.subtree key.id).contains k.id) =
    db'.creationOrder.filter fun k => (db'.subtree key.id).contains k.id
  subtreeRights : db.rights (fun row => (db.subtree key.id).contains row.apiKeyId) =
    db'.rights fun row => (db'.subtree key.id).contains row.apiKeyId
  sharedRights : db.rights (fun row => (db.managedHooks key.id).contains row.hookId) =
    db'.rights fun row => (db'.managedHooks key.id).contains row.hookId

variable {db db' : Database} {key k k' : ApiKey} {id : Uuid}

theorem AgreeFor.symm (h : AgreeFor key db db') : AgreeFor key db' db :=
  ⟨h.listing.symm, h.subtree.symm, h.subtreeRights.symm, h.sharedRights.symm⟩

theorem AgreeFor.below_of_below (h : AgreeFor key db db') (hid : id ∈ db.descendants key.id) :
    id ∈ db'.descendants key.id := by
  obtain ⟨hne, hbelow⟩ := mem_descendants.mp hid
  obtain ⟨k, hk, rfl⟩ := List.mem_map.mp hbelow.mem_keyIds
  have hrow : k ∈ db.creationOrder.filter fun k => (db.subtree key.id).contains k.id :=
    List.mem_filter.mpr ⟨mem_creationOrder.mpr hk, by simp [Database.subtree, hid]⟩
  rw [h.subtree] at hrow
  simpa [Database.subtree, hne] using (List.mem_filter.mp hrow).2

theorem AgreeFor.mem_descendants_iff (h : AgreeFor key db db') :
    id ∈ db.descendants key.id ↔ id ∈ db'.descendants key.id :=
  ⟨h.below_of_below, h.symm.below_of_below⟩

theorem AgreeFor.mem_subtree_iff (h : AgreeFor key db db') :
    id ∈ db.subtree key.id ↔ id ∈ db'.subtree key.id := by
  simp only [Database.subtree, List.mem_cons, h.mem_descendants_iff]

theorem AgreeFor.managedHooks_eq (h : AgreeFor key db db') :
    db.managedHooks key.id = db'.managedHooks key.id := by
  have hrows : ∀ db : Database, db.managedHooks key.id =
      (db.rights (PermissionCondition.and (.apiKeyIdEq key.id) .canManage).holds).map
        (·.1.hookId) := by
    intro db
    simp [managedHooks, rights]
  have hmine : ∀ (db : Database) (row : Permission),
      (PermissionCondition.and (.apiKeyIdEq key.id) .canManage).holds row = true →
      (db.subtree key.id).contains row.apiKeyId = true := by
    intro db row hrow
    simp only [PermissionCondition.holds, Bool.and_eq_true, beq_iff_eq] at hrow
    simp [Database.subtree, hrow.1]
  rw [hrows, hrows, rights_narrower h.subtreeRights (hmine db) (hmine db')]

theorem AgreeFor.visibility_eq (h : AgreeFor key db db') (hid : k.id = k'.id) :
    db.visibility key k = db'.visibility key k' := by
  have hbelow : (db.descendants key.id).contains k'.id =
    (db'.descendants key.id).contains k'.id := by
    rw [Bool.eq_iff_iff, List.contains_iff_mem, List.contains_iff_mem]
    exact h.mem_descendants_iff
  have hholds : ∀ db : Database, (db.permissions.any fun p =>
      p.apiKeyId == k'.id && (db.managedHooks key.id).contains p.hookId) =
      (db.rights fun row => (db.managedHooks key.id).contains row.hookId).any
        fun r => r.1.apiKeyId == k'.id := by
    intro db
    simp [rights, List.any_map, List.any_filter, Function.comp_def, Bool.and_comm]
  unfold visibility
  rw [hid, hbelow, hholds, hholds, h.sharedRights]

/-- A row is shown with the name of its hook and nothing else of it. -/
theorem permissionViews_congr {c : PermissionCondition}
    (h : db.rights c.holds = db'.rights c.holds) :
    db.permissionViews c = db'.permissionViews c := by
  have hshown : ∀ db : Database, db.permissionViews c = (db.rights c.holds).filterMap fun r =>
      r.2.map fun name => ⟨r.1.hookId, name, r.1.canExecute, r.1.canManage,
        r.1.canViewExecution⟩ := by
    intro db
    simp only [permissionViews, HookExecutor.permissionViews, rights, List.filterMap_map,
      Function.comp_def, Option.map_map]
  rw [hshown, hshown, h]

/-- A key is listed to the caller alike. -/
theorem AgreeFor.listedView_eq (h : AgreeFor key db db') (hordinary : key.isMaster = false)
    (hid : k.id = k'.id) (hname : k.name = k'.name)
    (hfull : k.id ∈ db.subtree key.id → k = k') : db.listedView key k = db'.listedView key k' := by
  have hvisible := h.visibility_eq hid
  unfold listedView
  rw [← hvisible]
  cases hhow : db.visibility key k with
  | none => rfl
  | some how =>
    cases how with
    | full =>
      have hmem : k.id ∈ db.subtree key.id := by
        by_contra hno
        simp only [Database.subtree, List.mem_cons, not_or] at hno
        unfold visibility at hhow
        rw [if_neg (by simp [hordinary, Ne.symm hno.1, hno.2])] at hhow
        split at hhow <;> cases hhow
      obtain rfl := hfull hmem
      have hmine : ∀ {db : Database}, k.id ∈ db.subtree key.id → ∀ row,
          (PermissionCondition.apiKeyIdEq k.id).holds row = true →
          (db.subtree key.id).contains row.apiKeyId = true := by
        intro db hk row hrow
        rw [PermissionCondition.holds, beq_iff_eq] at hrow
        rw [hrow]
        exact List.contains_iff_mem.mpr hk
      simp only [summary, permissionViews_congr (rights_narrower h.subtreeRights (hmine hmem)
        (hmine (h.mem_subtree_iff.mp hmem)))]
    | minimal =>
      have hshared : ∀ (managed : List Uuid) (row : Permission),
          (PermissionCondition.and (.apiKeyIdEq k'.id) (.hookIdIn managed)).holds row = true →
          managed.contains row.hookId = true := by
        intro managed row hrow
        simp only [PermissionCondition.holds, Bool.and_eq_true] at hrow
        exact hrow.2
      simp only [minimalView, hid, hname, ← h.managedHooks_eq]
      rw [permissionViews_congr (rights_narrower h.sharedRights (hshared _) fun row hrow =>
        h.managedHooks_eq ▸ hshared _ row hrow)]

end Database

/-- Two worlds that agree on a caller's subtree, on the hooks it manages, and on
the names, the order and the rows on those hooks of all other keys list the same
keys to it. -/
theorem minimal_view_closed {w w' : World} {key : ApiKey} (hordinary : key.isMaster = false)
    (hagree : w.db.AgreeFor key w'.db) :
    ((listApiKeys key).run Op.exec w).1 = ((listApiKeys key).run Op.exec w').1 := by
  cases hmanager : guardKeyManager key with
  | error e =>
    rw [listApiKeys, hmanager]
    rfl
  | ok u =>
    rw [run_listApiKeys hmanager, run_listApiKeys hmanager]
    have hfilter : w.db.creationOrder.filter (fun k => (w.db.subtree key.id).contains k.id) =
        w'.db.creationOrder.filter fun k => (w.db.subtree key.id).contains k.id := by
      refine hagree.subtree.trans (List.filter_congr fun k _ => ?_)
      rw [Bool.eq_iff_iff, List.contains_iff_mem, List.contains_iff_mem, hagree.mem_subtree_iff]
    have hrows := forall₂_of_map_filter (fun a b hab => by rw [(Prod.mk.inj hab).1])
      hagree.listing hfilter
    refine congrArg Except.ok (filterMap_eq_of_forall₂ hrows fun k k' hlisted => ?_)
    obtain ⟨hshown, hfull⟩ := hlisted
    obtain ⟨hid, hname⟩ := Prod.mk.inj hshown
    exact hagree.listedView_eq hordinary hid hname fun hmem =>
      hfull (List.contains_iff_mem.mpr hmem)

section Sample

open Sample

/-- The deployment with another master row, and another key's row on a hook the
parent does not manage. -/
def disguised : World :=
  entrusted.withDb { entrusted.db with
    apiKeys := [{ Sample.masterRow with
      prefixText := "bbbbbbbb", boundIps := none, maxConcurrentJobs := 1, signingSecret := none,
      canManageHooks := false }, parentRow, daughterRow]
    hooks := [deployHook, { deployHook with id := 901, name := "backup" }]
    permissions := [fullPermission (ctx 3) 1 1 301, parentPermission,
      fullPermission (ctx 9) 1 1 901] }

theorem minimal_view_closed_disguised :
    ((listApiKeys parentRow).run Op.exec entrusted).1 =
      ((listApiKeys parentRow).run Op.exec disguised).1 :=
  minimal_view_closed rfl ⟨by decide +kernel, by decide +kernel, by decide +kernel,
    by decide⟩

end Sample

end HookExecutor
