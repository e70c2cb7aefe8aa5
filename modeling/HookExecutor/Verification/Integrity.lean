import HookExecutor.Verification.Writes

/-!
# Integrity of the database

What the declared constraints guarantee of every database that was only ever
changed by statements: names and identifiers are unique, no more than one key is
the master, and every reference a foreign key protects resolves.
-/

namespace HookExecutor

namespace Database

def keyIds (db : Database) : List Uuid := db.apiKeys.map (·.id)
def hookIds (db : Database) : List Uuid := db.hooks.map (·.id)
def hookNames (db : Database) : List String := db.hooks.map (·.name)
def grants (db : Database) : List (Uuid × Uuid) :=
  db.permissions.map fun p => (p.apiKeyId, p.hookId)

structure WellFormed (db : Database) : Prop where
  keyIds : db.keyIds.Nodup
  oneMaster : ∀ k ∈ db.apiKeys, ∀ l ∈ db.apiKeys, k.isMaster = true → l.isMaster = true →
    k.id = l.id
  hookIds : db.hookIds.Nodup
  hookNames : db.hookNames.Nodup
  grants : db.grants.Nodup
  grantKeys : ∀ g ∈ db.grants, g.1 ∈ db.keyIds
  grantHooks : ∀ g ∈ db.grants, g.2 ∈ db.hookIds
  parameterHooks : ∀ p ∈ db.hookParameters, p.hookId ∈ db.hookIds

theorem wellFormed_empty : empty.WellFormed := by
  constructor <;> simp [empty, keyIds, hookIds, hookNames, grants]

variable {db : Database}

theorem mem_keyIds {id : Uuid} : id ∈ db.keyIds ↔ db.hasApiKey id = true := by
  simp [keyIds, hasApiKey]

theorem mem_hookIds {id : Uuid} : id ∈ db.hookIds ↔ db.hasHook id = true := by
  simp [hookIds, hasHook]

theorem map_update_ids {α : Type} {rows : List α} {f : α → α} {key : α → Uuid}
    (hf : ∀ a, key (f a) = key a) : (rows.map f).map key = rows.map key := by
  simp [hf]

/-! ### Statements on keys -/

theorem WellFormed.insertApiKey (h : db.WellFormed) (row : ApiKey) :
    (db.insertApiKey row).2.WellFormed := by
  unfold Database.insertApiKey
  by_cases hcollides : db.apiKeys.any (apiKeyCollides · row) = true
  · rw [if_pos hcollides]
    exact h
  · rw [if_neg hcollides]
    have hfree : ∀ k ∈ db.apiKeys, k.id ≠ row.id ∧ ¬(k.isMaster = true ∧ row.isMaster = true) := by
      intro k hk
      have := hcollides
      simp only [List.any_eq_true, not_exists, not_and] at this
      have hk' := this k hk
      simp [apiKeyCollides] at hk'
      exact ⟨hk'.1.1.1, fun hm => by simp [hm.1, hm.2] at hk'⟩
    refine { h with
      keyIds := ?_
      oneMaster := ?_
      grantKeys := fun g hg => ?_ }
    · simp only [Database.keyIds, List.map_append, List.map_cons, List.map_nil]
      refine h.keyIds.append (List.nodup_singleton _) ?_
      intro id hid hrow
      obtain ⟨k, hk, rfl⟩ := List.mem_map.mp hid
      exact (hfree k hk).1 (List.mem_singleton.mp hrow)
    · intro k hk l hl hkm hlm
      rcases List.mem_append.mp hk with hk | hk <;> rcases List.mem_append.mp hl with hl | hl
      · exact h.oneMaster k hk l hl hkm hlm
      · exact absurd ⟨hkm, List.mem_singleton.mp hl ▸ hlm⟩ (hfree k hk).2
      · exact absurd ⟨hlm, List.mem_singleton.mp hk ▸ hkm⟩ (hfree l hl).2
      · rw [List.mem_singleton.mp hk, List.mem_singleton.mp hl]
    · change g.1 ∈ (db.apiKeys ++ [row]).map (·.id)
      rw [List.map_append]
      exact List.mem_append_left _ (h.grantKeys g hg)

theorem WellFormed.updateApiKey (h : db.WellFormed) (id : Uuid) (u : ApiKeyUpdate) :
    (db.updateApiKey id u).2.WellFormed := by
  unfold Database.updateApiKey
  split
  · exact h
  · split
    · exact h
    · have hids : (db.apiKeys.map fun k => if k.id == id then u.apply k else k).map (·.id) =
          db.keyIds := by
        simp only [List.map_map, Database.keyIds]
        refine List.map_congr_left fun k _ => ?_
        by_cases hk : k.id = id <;> simp [hk]
      have hkept : ∀ k : ApiKey, (if k.id == id then u.apply k else k).id = k.id ∧
          (if k.id == id then u.apply k else k).isMaster = k.isMaster := by
        intro k
        by_cases hk : k.id = id <;> simp [hk]
      exact { h with
        keyIds := by simpa only [Database.keyIds, hids] using h.keyIds
        oneMaster := by
          intro k hk l hl hkm hlm
          obtain ⟨k', hk', rfl⟩ := List.mem_map.mp hk
          obtain ⟨l', hl', rfl⟩ := List.mem_map.mp hl
          rw [(hkept k').2] at hkm
          rw [(hkept l').2] at hlm
          rw [(hkept k').1, (hkept l').1]
          exact h.oneMaster k' hk' l' hl' hkm hlm
        grantKeys := fun g hg => by simpa only [Database.keyIds, hids] using h.grantKeys g hg }

theorem WellFormed.deleteApiKeys (h : db.WellFormed) (c : ApiKeyCondition) :
    (db.deleteApiKeys c).2.WellFormed := by
  have hrows : (db.apiKeys.filter fun k => !c.holds k).Sublist db.apiKeys :=
    List.filter_sublist
  have hperms : (db.permissions.filter fun p => !db.apiKeys.any fun k =>
      k.id == p.apiKeyId && c.holds k).Sublist db.permissions :=
    List.filter_sublist
  refine { h with
    keyIds := h.keyIds.sublist (hrows.map _)
    oneMaster := fun k hk l hl => h.oneMaster k (hrows.subset hk) l (hrows.subset hl)
    grants := h.grants.sublist (hperms.map _)
    grantKeys := ?_
    grantHooks := fun g hg => h.grantHooks g ((hperms.map _).subset hg) }
  intro g hg
  obtain ⟨p, hp, rfl⟩ := List.mem_map.mp hg
  obtain ⟨hmem, hkept⟩ := List.mem_filter.mp hp
  obtain ⟨k, hk, hid⟩ := List.mem_map.mp (h.grantKeys _ (List.mem_map_of_mem hmem))
  refine List.mem_map.mpr ⟨k, List.mem_filter.mpr ⟨hk, ?_⟩, hid⟩
  simp only [Bool.not_eq_true', List.any_eq_false, Bool.and_eq_true, not_and] at hkept
  simpa using hkept k hk (by simpa using hid)

/-! ### Statements on hooks -/

theorem WellFormed.insertHook (h : db.WellFormed) (row : Hook) :
    (db.insertHook row).2.WellFormed := by
  unfold Database.insertHook
  by_cases hcollides : (db.hooks.any fun g => g.id == row.id || g.name == row.name) = true
  · rw [if_pos hcollides]
    exact h
  · rw [if_neg hcollides]
    have hfree : ∀ g ∈ db.hooks, g.id ≠ row.id ∧ g.name ≠ row.name := by
      simpa using hcollides
    have hkept : ∀ {id : Uuid}, id ∈ db.hookIds → id ∈ (db.hooks ++ [row]).map (·.id) := by
      intro id hid
      rw [List.map_append]
      exact List.mem_append_left _ hid
    refine { h with
      hookIds := ?_
      hookNames := ?_
      grantHooks := fun g hg => hkept (h.grantHooks g hg)
      parameterHooks := fun p hp => hkept (h.parameterHooks p hp) }
    · simp only [Database.hookIds, List.map_append, List.map_cons, List.map_nil]
      refine h.hookIds.append (List.nodup_singleton _) ?_
      intro id hid hrow
      obtain ⟨g, hg, rfl⟩ := List.mem_map.mp hid
      exact (hfree g hg).1 (List.mem_singleton.mp hrow)
    · simp only [Database.hookNames, List.map_append, List.map_cons, List.map_nil]
      refine h.hookNames.append (List.nodup_singleton _) ?_
      intro name hname hrow
      obtain ⟨g, hg, rfl⟩ := List.mem_map.mp hname
      exact (hfree g hg).2 (List.mem_singleton.mp hrow)

/-- An update in place keeps every identifier where it was. -/
theorem WellFormed.mapHooks (h : db.WellFormed) {f : Hook → Hook} (hid : ∀ g, (f g).id = g.id)
    (hnames : ((db.hooks.map f).map (·.name)).Nodup) :
    WellFormed { db with hooks := db.hooks.map f } := by
  have hids : (db.hooks.map f).map (·.id) = db.hookIds := by
    simp [Database.hookIds, hid]
  exact { h with
    hookIds := by simpa only [Database.hookIds, hids] using h.hookIds
    hookNames := hnames
    grantHooks := fun g hg => by simpa only [Database.hookIds, hids] using h.grantHooks g hg
    parameterHooks := fun p hp => by
      simpa only [Database.hookIds, hids] using h.parameterHooks p hp }

theorem hookUpdate_id (p : Hook → Bool) (u : HookUpdate) (g : Hook) :
    (if p g then u.apply g else g).id = g.id := by
  by_cases hg : p g = true <;> simp [hg]

/-- Renaming one row keeps names unique if no other row has the new name. -/
theorem nodup_names_update (hooks : List Hook) (hids : (hooks.map (·.id)).Nodup)
    (hnames : (hooks.map (·.name)).Nodup) {id : Uuid} {u : HookUpdate} {model : Hook}
    (hmodel : model ∈ hooks) (hid : model.id = id)
    (hfree : ∀ g ∈ hooks, g.id ≠ id → g.name ≠ (u.apply model).name) :
    ((hooks.map fun g => if g.id == id then u.apply g else g).map (·.name)).Nodup := by
  rw [List.map_map]
  refine List.Nodup.map_on ?_ (List.Nodup.of_map _ hids)
  intro g hg g' hg' heq
  have hinj := List.inj_on_of_nodup_map hids
  by_cases hgid : g.id = id <;> by_cases hgid' : g'.id = id
  · exact hinj hg hg' (hgid.trans hgid'.symm)
  · have : g = model := hinj hg hmodel (hgid.trans hid.symm)
    subst this
    simp [hgid, hgid'] at heq
    exact absurd heq.symm (hfree g' hg' hgid')
  · have : g' = model := hinj hg' hmodel (hgid'.trans hid.symm)
    subst this
    simp [hgid, hgid'] at heq
    exact absurd heq (hfree g hg hgid)
  · simp [hgid, hgid'] at heq
    exact List.inj_on_of_nodup_map hnames hg hg' heq

theorem WellFormed.updateHook (h : db.WellFormed) (id : Uuid) (u : HookUpdate) :
    (db.updateHook id u).2.WellFormed := by
  unfold Database.updateHook
  split
  · exact h
  case h_2 model hfind =>
    by_cases hcollides : (db.hooks.any fun other =>
        other.id != id && other.name == (u.apply model).name) = true
    · rw [if_pos hcollides]
      exact h
    · rw [if_neg hcollides]
      refine h.mapHooks (hookUpdate_id (·.id == id) u) ?_
      refine nodup_names_update db.hooks h.hookIds h.hookNames (List.mem_of_find?_eq_some hfind)
        (by simpa using List.find?_some hfind) ?_
      simpa using hcollides

theorem WellFormed.updateHooks (h : db.WellFormed) (c : HookCondition) (u : HookUpdate) :
    (db.updateHooks c u).2.WellFormed := by
  unfold Database.updateHooks
  dsimp only
  split
  · exact h.mapHooks (hookUpdate_id c.holds u) ‹_›
  · exact h

theorem WellFormed.deleteHooks (h : db.WellFormed) (c : HookCondition) :
    (db.deleteHooks c).2.WellFormed := by
  have hrows : (db.hooks.filter fun g => !c.holds g).Sublist db.hooks := List.filter_sublist
  have hperms : (db.permissions.filter fun p => !db.hooks.any fun g =>
      g.id == p.hookId && c.holds g).Sublist db.permissions :=
    List.filter_sublist
  -- a reference that survives is to a hook that does
  have hkept : ∀ id ∈ db.hookIds, (!db.hooks.any fun g => g.id == id && c.holds g) = true →
      id ∈ (db.hooks.filter fun g => !c.holds g).map (·.id) := by
    intro id hid hgone
    obtain ⟨g, hg, rfl⟩ := List.mem_map.mp hid
    simp only [Bool.not_eq_true', List.any_eq_false, Bool.and_eq_true, not_and] at hgone
    exact List.mem_map.mpr ⟨g, List.mem_filter.mpr ⟨hg, by simpa using hgone g hg (by simp)⟩, rfl⟩
  refine { h with
    hookIds := h.hookIds.sublist (hrows.map _)
    hookNames := h.hookNames.sublist (hrows.map _)
    grants := h.grants.sublist (hperms.map _)
    grantKeys := fun g hg => h.grantKeys g ((hperms.map _).subset hg)
    grantHooks := ?_
    parameterHooks := ?_ }
  · intro g hg
    obtain ⟨p, hp, rfl⟩ := List.mem_map.mp hg
    obtain ⟨hmem, hgone⟩ := List.mem_filter.mp hp
    exact hkept _ (h.grantHooks _ (List.mem_map_of_mem hmem)) hgone
  · intro p hp
    obtain ⟨hmem, hgone⟩ := List.mem_filter.mp hp
    exact hkept _ (h.parameterHooks p hmem) hgone

/-! ### Statements on parameters and permissions -/

theorem WellFormed.insertHookParameter (h : db.WellFormed) (row : HookParameter) :
    (db.insertHookParameter row).2.WellFormed := by
  unfold Database.insertHookParameter
  split
  · exact h
  · split
    case isTrue hhook =>
      refine { h with parameterHooks := fun p hp => ?_ }
      rcases List.mem_append.mp hp with hp | hp
      · exact h.parameterHooks p hp
      · rw [List.mem_singleton.mp hp]
        exact mem_hookIds.mpr hhook
    case isFalse => exact h

theorem WellFormed.updateHookParameter (h : db.WellFormed) (id : Uuid)
    (u : HookParameterUpdate) : (db.updateHookParameter id u).2.WellFormed := by
  unfold Database.updateHookParameter
  split
  · exact h
  · refine { h with parameterHooks := fun p hp => ?_ }
    obtain ⟨q, hq, rfl⟩ := List.mem_map.mp hp
    have hhook : (if q.id == id then u.apply q else q).hookId = q.hookId := by
      by_cases hqid : q.id = id <;> simp [hqid, HookParameterUpdate.apply]
    rw [hhook]
    exact h.parameterHooks q hq

theorem WellFormed.deleteHookParameter (h : db.WellFormed) (id : Uuid) :
    (db.deleteHookParameter id).2.WellFormed :=
  { h with parameterHooks := fun p hp => h.parameterHooks p (List.mem_filter.mp hp).1 }

@[simp] theorem overwritePermission_keys (columns : List PermissionColumn)
    (row p : Permission) :
    (overwritePermission columns row p).apiKeyId = p.apiKeyId ∧
      (overwritePermission columns row p).hookId = p.hookId :=
  ⟨rfl, rfl⟩

theorem WellFormed.upsertPermission (h : db.WellFormed) (row : Permission)
    (columns : List PermissionColumn) : (db.upsertPermission row columns).2.WellFormed := by
  unfold Database.upsertPermission
  dsimp only
  split
  · have hgrants : (db.permissions.map fun p =>
        if p.apiKeyId == row.apiKeyId && p.hookId == row.hookId then
          overwritePermission columns row p else p).map (fun p => (p.apiKeyId, p.hookId)) =
        db.grants := by
      simp only [List.map_map, Database.grants]
      refine List.map_congr_left fun p _ => ?_
      simp only [Function.comp_apply]
      split <;> simp
    exact { h with
      grants := by simpa only [Database.grants, hgrants] using h.grants
      grantKeys := fun g hg => h.grantKeys g (hgrants ▸ hg)
      grantHooks := fun g hg => h.grantHooks g (hgrants ▸ hg) }
  · split
    · exact h
    · split
      case isFalse.isFalse.isTrue hnew _ hrefs =>
        obtain ⟨hkey, hhook⟩ := Bool.and_eq_true_iff.mp hrefs
        have hgrants : (db.permissions ++ [row]).map (fun p => (p.apiKeyId, p.hookId)) =
            db.grants ++ [(row.apiKeyId, row.hookId)] := by
          simp [Database.grants]
        refine { h with grants := ?_, grantKeys := ?_, grantHooks := ?_ }
        · simp only [Database.grants] at hgrants ⊢
          rw [hgrants]
          refine h.grants.append (List.nodup_singleton _) ?_
          intro g hg hrow
          obtain ⟨p, hp, rfl⟩ := List.mem_map.mp hg
          have heq := List.mem_singleton.mp hrow
          simp only [Prod.mk.injEq] at heq
          exact hnew (List.any_eq_true.mpr ⟨p, hp, by simp [heq]⟩)
        · simp only [Database.grants] at hgrants ⊢
          rw [hgrants]
          intro g hg
          rcases List.mem_append.mp hg with hg | hg
          · exact h.grantKeys g hg
          · rw [List.mem_singleton.mp hg]
            exact mem_keyIds.mpr hkey
        · simp only [Database.grants] at hgrants ⊢
          rw [hgrants]
          intro g hg
          rcases List.mem_append.mp hg with hg | hg
          · exact h.grantHooks g hg
          · rw [List.mem_singleton.mp hg]
            exact mem_hookIds.mpr hhook
      case isFalse.isFalse.isFalse => exact h

theorem WellFormed.deletePermissions (h : db.WellFormed) (c : PermissionCondition) :
    (db.deletePermissions c).2.WellFormed := by
  have hperms : (db.permissions.filter fun p => !c.holds p).Sublist db.permissions :=
    List.filter_sublist
  exact { h with
    grants := h.grants.sublist (hperms.map _)
    grantKeys := fun g hg => h.grantKeys g ((hperms.map _).subset hg)
    grantHooks := fun g hg => h.grantHooks g ((hperms.map _).subset hg) }

/-- History refers to keys and hooks; nothing refers to history. -/
theorem WellFormed.withHistory (h : db.WellFormed) (executions : List Execution)
    (auditLogs : List AuditLog) :
    WellFormed { db with executions := executions, auditLogs := auditLogs } :=
  { h with }

theorem WellFormed.insertExecution (h : db.WellFormed) (row : Execution) :
    (db.insertExecution row).2.WellFormed := by
  unfold Database.insertExecution
  split
  · exact h
  · split
    · exact h.withHistory _ _
    · exact h

theorem WellFormed.insertAuditLog (h : db.WellFormed) (row : AuditLog) :
    (db.insertAuditLog row).2.WellFormed := by
  unfold Database.insertAuditLog
  split
  · exact h
  · split
    · exact h.withHistory _ _
    · exact h

end Database

/-- No statement breaks a declared constraint. -/
theorem Stmt.exec_wellFormed {β : Type} (s : Stmt β) {db : Database} (h : db.WellFormed) :
    (s.exec db).2.WellFormed := by
  cases s with
  | insertApiKey row => exact h.insertApiKey row
  | updateApiKey id u => exact h.updateApiKey id u
  | deleteApiKeys c => exact h.deleteApiKeys c
  | insertHook row => exact h.insertHook row
  | updateHook id u => exact h.updateHook id u
  | updateHooks c u => exact h.updateHooks c u
  | deleteHooks c => exact h.deleteHooks c
  | insertHookParameter row => exact h.insertHookParameter row
  | updateHookParameter id u => exact h.updateHookParameter id u
  | deleteHookParameter id => exact h.deleteHookParameter id
  | upsertPermission row columns => exact h.upsertPermission row columns
  | deletePermissions c => exact h.deletePermissions c
  | insertExecution row => exact h.insertExecution row
  | deleteExecutions c => exact h.withHistory _ _
  | insertAuditLog row => exact h.insertAuditLog row
  | _ => exact h

/-- Nor does a program, whatever it does. -/
theorem Handler.run_wellFormed {α : Type} (p : Handler α) {w : World} (h : w.db.WellFormed) :
    (p.run Op.exec w).2.db.WellFormed := by
  refine (p.emits_any.mono ?_).run_inv (J := fun v : World => v.db.WellFormed) h
  intro γ q _ v hv
  rw [Op.exec_db]
  cases q with
  | db s => exact Stmt.exec_wellFormed s hv
  | _ => exact hv

end HookExecutor
