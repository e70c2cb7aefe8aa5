import HookExecutor.Verification.Reachability

/-!
# Deleting a key

When a deletion goes ahead, and what it leaves. Everything the request is
checked for comes before its first write, so a refused deletion changes nothing;
one that goes ahead settles each hook of its map, takes the subtree out of the
key table, and lets the foreign keys do the rest.
-/

namespace HookExecutor

/-! ### Settling the hooks -/

/-- What a resolution map makes of a hook. -/
def settled (key : ApiKey) (now : DateTime) (resolutions : List (Uuid × EntityResolution))
    (hook : Hook) : Hook :=
  match resolutions.find? (·.1 == hook.id) with
  | some entry => (resolutionUpdate key now entry.2).apply hook
  | none => hook

section Settling

variable {key : ApiKey} {now : DateTime} {resolutions : List (Uuid × EntityResolution)}
  {hook : Hook}

theorem resolutionUpdate_name (key : ApiKey) (now : DateTime) (r : EntityResolution) :
    ((resolutionUpdate key now r).apply hook).name = hook.name := by
  cases r <;> rfl

theorem settled_of_mem {r : EntityResolution} (hnodup : (resolutions.map (·.1)).Nodup)
    (h : (hook.id, r) ∈ resolutions) :
    settled key now resolutions hook = (resolutionUpdate key now r).apply hook := by
  cases hfound : resolutions.find? (·.1 == hook.id) with
  | none => simpa using List.find?_eq_none.mp hfound _ h
  | some entry =>
    have hid : entry.1 = hook.id := by simpa using List.find?_some hfound
    have hentry : entry = (hook.id, r) :=
      List.inj_on_of_nodup_map hnodup (List.mem_of_find?_eq_some hfound) h hid
    simp [settled, hfound, hentry]

theorem settled_of_notMem (h : hook.id ∉ resolutions.map (·.1)) :
    settled key now resolutions hook = hook := by
  have hnone : resolutions.find? (·.1 == hook.id) = none := by
    refine List.find?_eq_none.mpr fun entry hentry hid => h ?_
    exact List.mem_map.mpr ⟨entry, hentry, by simpa using hid⟩
  simp [settled, hnone]

/-- Settling by a map is settling by one entry after another. -/
theorem settled_cons {entry : Uuid × EntityResolution} {rest : List (Uuid × EntityResolution)}
    (hnodup : ((entry :: rest).map (·.1)).Nodup) :
    settled key now (entry :: rest) hook = settled key now rest
      (if hook.id == entry.1 then (resolutionUpdate key now entry.2).apply hook else hook) := by
  obtain ⟨hnew, -⟩ := List.nodup_cons.mp hnodup
  by_cases hid : hook.id = entry.1
  · have hrest : settled key now rest ((resolutionUpdate key now entry.2).apply hook) =
        (resolutionUpdate key now entry.2).apply hook :=
      settled_of_notMem (by rwa [HookUpdate.apply_id, hid])
    rw [if_pos (by simpa using hid), hrest]
    simp [settled, hid]
  · have hid' : ¬entry.1 = hook.id := fun h => hid h.symm
    simp [settled, hid, hid']

@[simp] theorem settled_id : (settled key now resolutions hook).id = hook.id := by
  unfold settled
  split <;> rfl

@[simp] theorem settled_name : (settled key now resolutions hook).name = hook.name := by
  unfold settled
  split
  · exact resolutionUpdate_name _ _ _
  · rfl

/-- The order of the map's entries does not matter. -/
theorem settled_perm {resolutions' : List (Uuid × EntityResolution)}
    (hnodup : (resolutions.map (·.1)).Nodup) (hperm : resolutions.Perm resolutions') :
    settled key now resolutions hook = settled key now resolutions' hook := by
  by_cases h : hook.id ∈ resolutions.map (·.1)
  · obtain ⟨entry, hentry, hid⟩ := List.mem_map.mp h
    have hmem : (hook.id, entry.2) ∈ resolutions := by rwa [← hid]
    rw [settled_of_mem hnodup hmem,
      settled_of_mem ((hperm.map _).nodup_iff.mp hnodup) (hperm.subset hmem)]
  · rw [settled_of_notMem h, settled_of_notMem fun h' => h ((hperm.map _).symm.subset h')]

end Settling

/-- An update of a row that is there goes through, if the name is not among its
columns. -/
theorem Database.updateHook_keepsName {db : Database} {u : HookUpdate} {id : Uuid} {found : Hook}
    (hname : u.name = none) (hnames : db.hookNames.Nodup)
    (hfound : db.hookWithId id = some found) :
    db.updateHook id u = (.ok (u.apply found), { db with
      hooks := db.hooks.map fun h => if h.id == id then u.apply h else h }) := by
  obtain ⟨hmem, hid⟩ := hookWithId_mem hfound
  have hfree : ¬(db.hooks.any fun other => other.id != id &&
      other.name == (u.apply found).name) = true := by
    rw [show (u.apply found).name = found.name by simp [HookUpdate.apply, hname]]
    simp only [List.any_eq_true, Bool.and_eq_true, bne_iff_ne, beq_iff_eq, not_exists, not_and]
    intro other hother hne hsame
    exact hne (List.inj_on_of_nodup_map hnames hother hmem hsame ▸ hid)
  rw [Database.updateHook, show db.hooks.find? (·.id == id) = some found from hfound]
  simp only [hfree]
  rfl

theorem Database.updateHook_resolution {db : Database} (key : ApiKey) (now : DateTime)
    (r : EntityResolution) {id : Uuid} {found : Hook} (hnames : db.hookNames.Nodup)
    (hfound : db.hookWithId id = some found) :
    db.updateHook id (resolutionUpdate key now r) =
      (.ok ((resolutionUpdate key now r).apply found), { db with
        hooks := db.hooks.map fun h =>
          if h.id == id then (resolutionUpdate key now r).apply h else h }) :=
  Database.updateHook_keepsName (by cases r <;> rfl) hnames hfound

/-- The world with every hook settled by a map. -/
def World.settledBy (w : World) (key : ApiKey) (now : DateTime)
    (resolutions : List (Uuid × EntityResolution)) : World :=
  { w with db := { w.db with hooks := w.db.hooks.map (settled key now resolutions) } }

section SettledBy

variable {key : ApiKey} {now : DateTime} {w : World} {entry : Uuid × EntityResolution}
  {rest : List (Uuid × EntityResolution)}

@[simp] theorem settled_nil : settled key now [] = id := rfl

theorem settled_single (hook : Hook) : settled key now [entry] hook =
    if hook.id == entry.1 then (resolutionUpdate key now entry.2).apply hook else hook := by
  have hcons : settled key now [entry] hook = settled key now []
      (if hook.id == entry.1 then (resolutionUpdate key now entry.2).apply hook else hook) :=
    settled_cons (List.nodup_singleton entry.1)
  simpa only [settled_nil, id] using hcons

@[simp] theorem World.settledBy_nil : w.settledBy key now [] = w := by
  simp [settledBy]

theorem World.settledBy_cons (hnodup : ((entry :: rest).map (·.1)).Nodup) :
    w.settledBy key now (entry :: rest) =
      (w.settledBy key now [entry]).settledBy key now rest := by
  have hmap : w.db.hooks.map (settled key now (entry :: rest)) =
      (w.db.hooks.map (settled key now [entry])).map (settled key now rest) := by
    rw [List.map_map]
    refine List.map_congr_left fun hook _ => ?_
    rw [settled_cons hnodup, Function.comp_apply, settled_single]
  simp only [settledBy, hmap]

@[simp] theorem World.settledBy_hookNames (resolutions : List (Uuid × EntityResolution)) :
    (w.settledBy key now resolutions).db.hookNames = w.db.hookNames := by
  simp [settledBy, Database.hookNames, Function.comp_def]

/-- An entry for a hook that is not there settles nothing. -/
theorem World.settledBy_of_none (hnone : w.db.hookWithId entry.1 = none) :
    w.settledBy key now [entry] = w := by
  have hmap : w.db.hooks.map (settled key now [entry]) = w.db.hooks := by
    refine (List.map_congr_left fun hook hhook => ?_).trans (List.map_id _)
    have hne : ¬(hook.id == entry.1) = true := List.find?_eq_none.mp hnone hook hhook
    rw [settled_single, if_neg hne]
    rfl
  simp only [settledBy, hmap]

theorem run_updateHook_resolution {found : Hook} (hnames : w.db.hookNames.Nodup)
    (hfound : w.db.hookWithId entry.1 = some found) :
    (sql (.updateHook entry.1 (resolutionUpdate key now entry.2))).run Op.exec w =
      (.ok ((resolutionUpdate key now entry.2).apply found), w.settledBy key now [entry]) := by
  have hmap : w.db.hooks.map (settled key now [entry]) = w.db.hooks.map fun h =>
      if h.id == entry.1 then (resolutionUpdate key now entry.2).apply h else h :=
    List.map_congr_left fun hook _ => settled_single hook
  rw [Handler.exec_sql]
  simp only [Stmt.exec, Database.updateHook_resolution key now entry.2 hnames hfound,
    Except.mapError, World.settledBy, hmap]

end SettledBy

/-- Applying a map settles every hook by it. -/
theorem applyResolutions_run (key : ApiKey) (now : DateTime) {w : World}
    (resolutions : List (Uuid × EntityResolution)) (counts : ResolutionCounts)
    (hnames : w.db.hookNames.Nodup) (hnodup : (resolutions.map (·.1)).Nodup) :
    ∃ counts', (applyResolutions key now resolutions counts).run Op.exec w =
      (.ok counts', w.settledBy key now resolutions) := by
  induction resolutions generalizing w counts with
  | nil => exact ⟨counts, by simp [applyResolutions]⟩
  | cons entry rest ih =>
    rw [applyResolutions, Program.bind_eq, Program.run_bind_ok (run_findHookById _ _),
      World.settledBy_cons hnodup]
    cases hfound : w.db.hookWithId entry.1 with
    | none =>
      rw [World.settledBy_of_none hfound]
      exact ih counts hnames hnodup.of_cons
    | some found =>
      rw [Program.bind_eq, Program.run_bind_ok (run_updateHook_resolution hnames hfound)]
      exact ih _ (by rwa [World.settledBy_hookNames]) hnodup.of_cons

/-! ### When a deletion goes ahead -/

/-- The key may delete the target under this map: it administers the target,
which is neither itself nor the master, and the map resolves the hooks of the
subtree, all of them and no other, to heirs that outlive it. -/
structure Database.Deletes (db : Database) (key : ApiKey) (id : Uuid)
    (resolutions : List (Uuid × EntityResolution)) (target : ApiKey) : Prop where
  manager : key.isMaster = true ∨ key.canManageKeys = true
  other : id ≠ key.id
  found : db.apiKeyById id = some target
  seen : db.SeesInFull key target
  ordinary : target.isMaster = false
  total : ∀ hookId, hookId ∈ resolutions.map (·.1) ↔
    ∃ hook ∈ db.hooks, hook.id = hookId ∧ ∃ owner ∈ db.subtree id, hook.ownerKeyId = some owner
  heirs : ∀ entry ∈ resolutions, ∀ heir, entry.2 = .reassign heir →
    heir ∉ db.subtree id ∧ heir ∈ db.keyIds

/-- Everything a deletion does before its first write. -/
def deletionCheck (key : ApiKey) (id : Uuid) (payload : DeleteApiKeyPayload) :
    Handler (ApiKey × SubtreeInventory) := do
  .ofExcept (guardKeyManager key)
  .require (id ≠ key.id) (.forbidden "Cannot delete yourself")
  let target ← loadAdministrableKey key id
  .ofExcept (guardMasterToAdminister key target "delete")
  .ofExcept (refuseMasterLifecycleAction target "delete")
  let found ← collectSubtreeInventory id
  .ofExcept (guardResolutions payload found)
  validateReassignments found.subtree payload.resolutions
  return (target, found)

/-- Everything a deletion does from its first write on. -/
def deletionApply (ctx : Context) (key : ApiKey) (id : Uuid) (payload : DeleteApiKeyPayload)
    (target : ApiKey) (found : SubtreeInventory) : Handler Unit := do
  let counts ← applyResolutions key (ctx.draws.now 0) payload.resolutions ⟨0, 0⟩
  let removed ← sql (.deleteApiKeys (.idIn found.subtree))
  .require (removed ≠ 0) .notFound
  createAuditLog ctx key 1 "KEY_DELETE" (some target.name)
    (some (s!"Deleted key {formatReference target.name id} and {found.subtree.length - 1} " ++
      s!"descendant key(s); {counts.reassignedHooks} hook(s)              reassigned, " ++
      s!"{counts.deletedHooks} hook(s) moved to the trash"))

theorem deleteApiKey_eq (ctx : Context) (key : ApiKey) (id : Uuid)
    (payload : DeleteApiKeyPayload) :
    deleteApiKey ctx key id payload = (deletionCheck key id payload).bind fun checked =>
      deletionApply ctx key id payload checked.1 checked.2 := by
  simp only [deleteApiKey, deletionCheck, Program.bind_eq, Program.bind_assoc, Program.pure_eq]
  rfl

theorem run_loadAdministrableKey_snd (caller : ApiKey) (id : Uuid) (w : World) :
    ((loadAdministrableKey caller id).run Op.exec w).2 = w := by
  refine Program.run_bind_read (K := fun t => t = w) (by simp) rfl fun _ _ => ?_
  refine Program.run_bind_read (K := fun t => t = w) (by simp) rfl fun _ _ => ?_
  refine Program.run_bind_read (K := fun t => t = w) (run_keyVisibility_snd _ _ w) rfl fun _ _ => ?_
  exact Program.run_bind_read (K := fun t => t = w) (by simp) rfl fun _ _ => rfl

section Check

variable {key target : ApiKey} {id : Uuid} {payload : DeleteApiKeyPayload} {w w' : World}

theorem mem_inventoryOf {db : Database} {root hookId : Uuid} :
    hookId ∈ (db.inventoryOf root).inventory.map (·.id) ↔
      ∃ hook ∈ db.hooks, hook.id = hookId ∧
        ∃ owner ∈ db.subtree root, hook.ownerKeyId = some owner := by
  simp only [Database.inventoryOf, Database.orderHooks, List.mem_map, List.mem_filterMap,
    List.mem_insertionSort, List.mem_filter, HookCondition.holds, Option.any_eq_true,
    List.contains_iff_mem, ownedEntity, Option.map_eq_some_iff]
  constructor
  · rintro ⟨_, ⟨hook, ⟨hhook, owner, hown, hmem⟩, _, -, rfl⟩, rfl⟩
    exact ⟨hook, hhook, rfl, owner, hmem, hown⟩
  · rintro ⟨hook, hhook, rfl, owner, hmem, hown⟩
    exact ⟨_, ⟨hook, ⟨hhook, owner, hown, hmem⟩, owner, hown, rfl⟩, rfl⟩

theorem guardResolutions_ok {found : SubtreeInventory} :
    guardResolutions payload found = .ok () ↔
      ∀ hookId, hookId ∈ payload.resolutions.map (·.1) ↔ hookId ∈ found.inventory.map (·.id) := by
  simp only [guardResolutions]
  cases hstray : (payload.resolutions.map (·.1)).find? fun hookId =>
      !(found.inventory.map (·.id)).contains hookId with
  | some stray =>
    have hmem := List.mem_of_find?_eq_some hstray
    have hout : stray ∉ found.inventory.map (·.id) := by simpa using List.find?_some hstray
    simp only [reduceCtorEq, false_iff]
    exact fun htotal => hout ((htotal stray).mp hmem)
  | none =>
    have hin : ∀ hookId ∈ payload.resolutions.map (·.1), hookId ∈ found.inventory.map (·.id) :=
      fun hookId hmem => by simpa using List.find?_eq_none.mp hstray hookId hmem
    by_cases hall : ∀ e ∈ found.inventory, e.id ∈ payload.resolutions.map (·.1)
    · have hempty : (found.inventory.filter fun e =>
          !(payload.resolutions.map (·.1)).contains e.id).isEmpty = true := by
        rw [List.isEmpty_iff, List.filter_eq_nil_iff]
        exact fun e he => by simpa using hall e he
      rw [if_pos hempty]
      refine ⟨fun _ hookId => ⟨hin hookId, fun hmem => ?_⟩, fun _ => rfl⟩
      obtain ⟨e, he, rfl⟩ := List.mem_map.mp hmem
      exact hall e he
    · have hsome : ¬(found.inventory.filter fun e =>
          !(payload.resolutions.map (·.1)).contains e.id).isEmpty = true := by
        rw [List.isEmpty_iff, List.filter_eq_nil_iff]
        exact fun h => hall fun e he => by simpa using h e he
      rw [if_neg hsome]
      simp only [reduceCtorEq, false_iff]
      exact fun htotal => hall fun e he => (htotal e.id).mpr (List.mem_map_of_mem he)

theorem run_validateReassignments_snd (subtree : List Uuid)
    (resolutions : List (Uuid × EntityResolution)) (w : World) :
    ((validateReassignments subtree resolutions).run Op.exec w).2 = w := by
  induction resolutions with
  | nil => rfl
  | cons entry rest ih =>
    refine Program.run_bind_read (K := fun t => t = w) ?_ rfl fun _ _ => ih
    unfold validateReassignment
    split
    · rfl
    · exact Program.run_bind_read (K := fun t => t = w) (by simp) rfl fun _ _ =>
        Program.run_bind_read (K := fun t => t = w) (by simp) rfl fun _ _ => by simp

theorem validateReassignments_ok {subtree : List Uuid}
    {resolutions : List (Uuid × EntityResolution)} :
    (validateReassignments subtree resolutions).run Op.exec w = (.ok (), w) ↔
      ∀ entry ∈ resolutions, ∀ heir, entry.2 = .reassign heir →
        heir ∉ subtree ∧ heir ∈ w.db.keyIds := by
  have hknown : ∀ heir, (w.db.apiKeyById heir).isSome = true ↔ heir ∈ w.db.keyIds := by
    intro heir
    simp [Database.apiKeyById, Database.keyIds]
  induction resolutions with
  | nil => simp [validateReassignments]
  | cons entry rest ih =>
    obtain ⟨hookId, r⟩ := entry
    cases r with
    | delete =>
      have hstep : validateReassignments subtree ((hookId, .delete) :: rest) =
          validateReassignments subtree rest := rfl
      rw [hstep]
      simpa using ih
    | reassign heir =>
      by_cases hin : heir ∈ subtree
      · simp [validateReassignments, validateReassignment, Program.run_bind, hin]
      · by_cases hexists : heir ∈ w.db.keyIds
        · simpa [validateReassignments, validateReassignment, Program.run_bind, hin, hknown,
            hexists] using ih
        · simp [validateReassignments, validateReassignment, Program.run_bind, hin, hknown,
            hexists]

/-- The checks let exactly the deletions through that may go ahead. -/
theorem deletionCheck_ok {checked : ApiKey × SubtreeInventory} :
    (deletionCheck key id payload).run Op.exec w = (.ok checked, w') ↔
      w' = w ∧ checked.2 = w.db.inventoryOf id ∧
        w.db.Deletes key id payload.resolutions checked.1 := by
  simp only [deletionCheck, Program.bind_eq, Program.pure_eq, Program.run_bind_eq_ok_iff,
    Program.run_ofExcept, Program.run_require, Program.run_pure, loadAdministrableKey_ok,
    run_collectSubtreeInventory, Prod.mk.injEq]
  constructor
  · rintro ⟨_, _, ⟨hmanager, rfl⟩, _, _, ⟨hother, rfl⟩, target, _, ⟨rfl, hfound, hseen⟩, _, _,
      ⟨-, rfl⟩, _, _, ⟨hordinary, rfl⟩, found, t, ⟨hinventory, rfl⟩, _, _, ⟨htotal, rfl⟩, _, v,
      hheirs, hret, rfl⟩
    cases hinventory
    cases hret
    have hsame := congrArg Prod.snd hheirs
    rw [run_validateReassignments_snd] at hsame
    obtain rfl : _ = v := hsame
    have hother : id ≠ key.id := by
      intro hid
      simp [hid] at hother
    exact ⟨rfl, rfl, guardKeyManager_ok.mp hmanager, hother, hfound, hseen,
      refuseMasterLifecycleAction_ok hordinary,
      fun hookId => (guardResolutions_ok.mp htotal hookId).trans mem_inventoryOf,
      validateReassignments_ok.mp hheirs⟩
  · obtain ⟨target, found⟩ := checked
    rintro ⟨rfl, rfl, hdeletes⟩
    have hplain : target.isMaster = false := hdeletes.ordinary
    refine ⟨(), _, ⟨guardKeyManager_ok.mpr hdeletes.manager, rfl⟩, (), _, ⟨by simp [hdeletes.other],
      rfl⟩, target, _, ⟨rfl, hdeletes.found, hdeletes.seen⟩, (), _,
      ⟨by simp [guardMasterToAdminister, hplain], rfl⟩, (), _,
      ⟨by simp [refuseMasterLifecycleAction, hplain], rfl⟩, _, _, ⟨rfl, rfl⟩, (), _,
      ⟨guardResolutions_ok.mpr fun hookId => (hdeletes.total hookId).trans mem_inventoryOf.symm,
        rfl⟩, (), _, validateReassignments_ok.mpr hdeletes.heirs, rfl, rfl⟩

theorem deletionCheck_writes {W : List Write} (key : ApiKey) (id : Uuid)
    (payload : DeleteApiKeyPayload) : (deletionCheck key id payload).Emits (WritesAmong W) :=
  .bind (Program.emits_ofExcept _) fun _ => .bind (Program.emits_require _ _) fun _ =>
    (loadAdministrableKey_writes _ _).bind fun _ => .bind (Program.emits_ofExcept _) fun _ =>
      .bind (Program.emits_ofExcept _) fun _ => (collectSubtreeInventory_writes _).bind fun _ =>
        .bind (Program.emits_ofExcept _) fun _ => (validateReassignments_writes _ _).bind fun _ =>
          trivial

theorem deletionCheck_snd (key : ApiKey) (id : Uuid) (payload : DeleteApiKeyPayload) (w : World) :
    ((deletionCheck key id payload).run Op.exec w).2 = w := by
  refine Program.run_bind_read (K := fun t => t = w) (by simp) rfl fun _ _ => ?_
  refine Program.run_bind_read (K := fun t => t = w) (by simp) rfl fun _ _ => ?_
  refine Program.run_bind_read (K := fun t => t = w) (run_loadAdministrableKey_snd key id w) rfl
    fun _ _ => ?_
  refine Program.run_bind_read (K := fun t => t = w) (by simp) rfl fun _ _ => ?_
  refine Program.run_bind_read (K := fun t => t = w) (by simp) rfl fun _ _ => ?_
  refine Program.run_bind_read (K := fun t => t = w) (by simp) rfl fun _ _ => ?_
  refine Program.run_bind_read (K := fun t => t = w) (by simp) rfl fun _ _ => ?_
  exact Program.run_bind_read (K := fun t => t = w) (run_validateReassignments_snd _ _ w) rfl
    fun _ _ => rfl

end Check

/-! ### What a deletion leaves -/

/-- The database after the last write of a deletion but the audit row. -/
def Database.afterDeletion (db : Database) (key : ApiKey) (now : DateTime) (id : Uuid)
    (resolutions : List (Uuid × EntityResolution)) : Database :=
  (Database.deleteApiKeys { db with hooks := db.hooks.map (settled key now resolutions) }
    (.idIn (db.subtree id))).2

section Apply

variable {ctx : Context} {key target : ApiKey} {id : Uuid} {payload : DeleteApiKeyPayload}
  {w w' : World}

/-- The caller of a deletion outlives it. -/
theorem World.Sound.caller_outlives (h : w.Sound) (hkey : key ∈ w.db.apiKeys)
    (hdeletes : w.db.Deletes key id payload.resolutions target) : key.id ∉ w.db.subtree id := by
  obtain ⟨htarget, rfl⟩ := Database.apiKeyById_mem hdeletes.found
  intro hmem
  rcases hdeletes.seen with hmaster | hself | hbelow
  · have := h.not_master_of_mem_subtree htarget hdeletes.ordinary hkey hmem
    simp [hmaster] at this
  · exact hdeletes.other hself.symm
  · rcases Database.mem_subtree.mp hmem with hself | habove
    · exact hdeletes.other hself.symm
    · exact h.lineage.asymm (Database.mem_descendants.mp hbelow).2 habove

/-- Removing the subtree takes out the target at least. -/
theorem Database.Deletes.removed_ne_zero {db : Database} {key target : ApiKey} {id : Uuid}
    {resolutions : List (Uuid × EntityResolution)} (h : db.Deletes key id resolutions target) :
    (db.apiKeys.filter (ApiKeyCondition.idIn (db.subtree id)).holds).length ≠ 0 := by
  intro hzero
  obtain ⟨htarget, rfl⟩ := apiKeyById_mem h.found
  have hnone := List.filter_eq_nil_iff.mp (List.length_eq_zero_iff.mp hzero) target htarget
  simp [ApiKeyCondition.holds, Database.subtree] at hnone

theorem run_deleteSubtree (w : World) (key : ApiKey) (now : DateTime) (id : Uuid)
    (resolutions : List (Uuid × EntityResolution)) :
    (sql (.deleteApiKeys (.idIn (w.db.inventoryOf id).subtree))).run Op.exec
        (w.settledBy key now resolutions) =
      (.ok (w.db.apiKeys.filter (ApiKeyCondition.idIn (w.db.subtree id)).holds).length,
        { w with db := w.db.afterDeletion key now id resolutions }) := by
  rw [Handler.exec_sql]
  rfl

/-- From its first write on, a deletion goes through to its audit row. -/
theorem deletionApply_run (ctx : Context) (hnames : w.db.hookNames.Nodup)
    (hdeletes : w.db.Deletes key id payload.resolutions target) :
    ∃ details, (deletionApply ctx key id payload target (w.db.inventoryOf id)).run Op.exec w =
      (createAuditLog ctx key 1 "KEY_DELETE" (some target.name) details).run Op.exec
        { w with db := w.db.afterDeletion key (ctx.draws.now 0) id payload.resolutions } := by
  obtain ⟨counts, hresolve⟩ := applyResolutions_run key (ctx.draws.now 0) payload.resolutions
    ⟨0, 0⟩ hnames payload.nodup
  rw [deletionApply, Program.bind_eq, Program.run_bind_ok hresolve, Program.bind_eq,
    Program.run_bind_ok (run_deleteSubtree _ _ _ _ _), Program.bind_eq,
    Program.run_bind_ok (by rw [Program.run_require, if_pos hdeletes.removed_ne_zero])]
  exact ⟨_, rfl⟩

/-- A refused deletion changes nothing. -/
theorem deleteApiKey_refused (ctx : Context)
    (h : ∀ target, ¬w.db.Deletes key id payload.resolutions target) :
    ∃ e, (deleteApiKey ctx key id payload).run Op.exec w = (.error e, w) := by
  rw [deleteApiKey_eq]
  have hsame := deletionCheck_snd key id payload w
  cases hcheck : (deletionCheck key id payload).run Op.exec w with
  | mk r t =>
    rw [hcheck] at hsame
    obtain rfl : t = w := hsame
    cases r with
    | error e => exact ⟨e, Program.run_bind_error hcheck⟩
    | ok checked => exact absurd (deletionCheck_ok.mp hcheck).2.2 (h _)

/-- Either a deletion settles the hooks and removes the subtree, or it leaves the
world as it was. -/
theorem deleteApiKey_outcome (ctx : Context) (key : ApiKey) (id : Uuid)
    (payload : DeleteApiKeyPayload) (hwf : w.db.WellFormed) :
    let after := ((deleteApiKey ctx key id payload).run Op.exec w).2
    (∃ target, w.db.Deletes key id payload.resolutions target ∧
        after.db.hooks = w.db.hooks.map (settled key (ctx.draws.now 0) payload.resolutions) ∧
        after.db.apiKeys = w.db.apiKeys.filter (fun k => k.id ∉ w.db.subtree id) ∧
        after.db.hookParameters = w.db.hookParameters) ∨
      (∀ target, ¬w.db.Deletes key id payload.resolutions target) ∧ after = w := by
  dsimp only
  by_cases hgoes : ∃ target, w.db.Deletes key id payload.resolutions target
  · obtain ⟨target, hdeletes⟩ := hgoes
    have hcheck : (deletionCheck key id payload).run Op.exec w =
        (.ok (target, w.db.inventoryOf id), w) := deletionCheck_ok.mpr ⟨rfl, rfl, hdeletes⟩
    obtain ⟨details, happly⟩ := deletionApply_run ctx hwf.hookNames hdeletes
    have haudit : ∀ t : Table, t ≠ .auditLogs → Agree t
        (w.db.afterDeletion key (ctx.draws.now 0) id payload.resolutions)
        ((deleteApiKey ctx key id payload).run Op.exec w).2.db := by
      intro t ht
      rw [deleteApiKey_eq, Program.run_bind_ok hcheck, happly]
      exact Handler.run_agree (W := [.insertAuditLog])
        (createAuditLog_writes (by decide) _ _ _ _ _ _) (by simpa [Write.tables] using ht)
        { w with db := w.db.afterDeletion key (ctx.draws.now 0) id payload.resolutions }
    refine .inl ⟨target, hdeletes, haudit .hooks (by decide), ?_,
      haudit .hookParameters (by decide)⟩
    refine Eq.trans (haudit .apiKeys (by decide)) (List.filter_congr fun k _ => ?_)
    simp [ApiKeyCondition.holds]
  · obtain ⟨e, hrun⟩ := deleteApiKey_refused ctx (not_exists.mp hgoes)
    exact .inr ⟨not_exists.mp hgoes, by rw [hrun]⟩

/-- A deletion that goes ahead does so to the end. -/
theorem deleteApiKey_run (h : w.Sound) (hkey : key ∈ w.db.apiKeys)
    (hfresh : ∀ l ∈ w.db.auditLogs, l.id ≠ ctx.draws.uuid 1)
    (hdeletes : w.db.Deletes key id payload.resolutions target) :
    ∃ details, (deleteApiKey ctx key id payload).run Op.exec w = (.ok (), { w with db :=
      let after := w.db.afterDeletion key (ctx.draws.now 0) id payload.resolutions
      { after with auditLogs := after.auditLogs ++
        [auditRow ctx key 1 "KEY_DELETE" (some target.name) details] } }) := by
  have hcheck : (deletionCheck key id payload).run Op.exec w =
      (.ok (target, w.db.inventoryOf id), w) := deletionCheck_ok.mpr ⟨rfl, rfl, hdeletes⟩
  obtain ⟨details, happly⟩ := deletionApply_run ctx h.wellFormed.hookNames hdeletes
  refine ⟨details, ?_⟩
  rw [deleteApiKey_eq, Program.run_bind_ok hcheck, happly]
  refine createAuditLog_run ?_ ?_
  · have hmem : key ∈ (w.db.afterDeletion key (ctx.draws.now 0) id payload.resolutions).apiKeys :=
      List.mem_filter.mpr ⟨hkey, by
        simpa [ApiKeyCondition.holds] using h.caller_outlives hkey hdeletes⟩
    exact List.any_eq_true.mpr ⟨key, hmem, by simp⟩
  · intro l hl
    obtain ⟨l', hl', rfl⟩ := List.mem_map.mp hl
    split
    · exact hfresh l' hl'
    · exact hfresh l' hl'

end Apply

end HookExecutor
