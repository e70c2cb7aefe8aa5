import HookExecutor.Verification.Invariant
import HookExecutor.Verification.ReplayMemory

/-!
# The invariant holds of every reachable world

Each handler that writes the key table is shown to issue safe statements only;
the rest cannot break the invariant at all. A start establishes it, from an
empty database or from one that another process left behind.
-/

namespace HookExecutor

/-! ### What the checks on keys let through -/

theorem nonEmpty_ne_empty (text : Option String) : nonEmpty text ≠ some "" := by
  simp [nonEmpty]

theorem guardKeyManager_ok {key : ApiKey} :
    guardKeyManager key = .ok () ↔ key.isMaster = true ∨ key.canManageKeys = true := by
  cases hm : key.isMaster <;> cases hk : key.canManageKeys <;> simp [guardKeyManager, hm, hk]

theorem guardMasterToGrantScopes_ok {key : ApiKey} {keys hooks : Option Bool}
    (h : guardMasterToGrantScopes key keys hooks = .ok ()) :
    key.isMaster = true ∨ keys.getD false = false ∧ hooks.getD false = false := by
  cases hm : key.isMaster with
  | true => exact .inl rfl
  | false =>
    refine .inr ?_
    cases hk : keys.getD false <;> cases hh : hooks.getD false <;>
      simp [guardMasterToGrantScopes, hm, hk, hh] at h ⊢

theorem guardCanonicalV1ForKeyManagement_ok {manages : Bool} {mode : HmacMode}
    {template : Option String}
    (h : guardCanonicalV1ForKeyManagement manages mode template = .ok ())
    (hnonempty : template ≠ some "") : manages = true → template = none := by
  intro hmanages
  cases template with
  | none => rfl
  | some t =>
    have ht : t ≠ "" := fun he => hnonempty (he ▸ rfl)
    cases mode
    simp [guardCanonicalV1ForKeyManagement, hmanages, ht] at h

theorem guardMasterToAdminister_ok {key target : ApiKey} {action : String}
    (h : guardMasterToAdminister key target action = .ok ()) :
    target.isMaster = false ∨ key.isMaster = true := by
  cases ht : target.isMaster <;> cases hk : key.isMaster <;>
    simp [guardMasterToAdminister, ht, hk] at h ⊢

theorem refuseMasterLifecycleAction_ok {target : ApiKey} {action : String}
    (h : refuseMasterLifecycleAction target action = .ok ()) : target.isMaster = false := by
  cases ht : target.isMaster <;> simp [refuseMasterLifecycleAction, ht] at h ⊢

theorem validateCreateApiKey_ok {platform : Platform} {key : ApiKey}
    {payload : CreateApiKeyPayload} (h : validateCreateApiKey platform key payload = .ok ()) :
    (key.isMaster = true ∨ key.canManageKeys = true) ∧
      (key.isMaster = true ∨ payload.canManageKeys.getD false = false ∧
        payload.canManageHooks.getD false = false) ∧
      (payload.canManageKeys.getD false = true → nonEmpty payload.canonicalTemplate = none) := by
  simp only [validateCreateApiKey, Except.bind_eq_ok_iff] at h
  obtain ⟨_, hmanager, _, hscopes, _, -, _, hsigning, -⟩ := h
  exact ⟨guardKeyManager_ok.mp hmanager, guardMasterToGrantScopes_ok hscopes,
    guardCanonicalV1ForKeyManagement_ok hsigning (nonEmpty_ne_empty _)⟩

theorem validateUpdateApiKey_ok {platform : Platform} {key target : ApiKey}
    {payload : UpdateApiKeyPayload}
    (h : validateUpdateApiKey platform key target payload = .ok ())
    (hnonempty : target.canonicalTemplate ≠ some "") :
    (target.isMaster = false ∨ key.isMaster = true) ∧
      (key.isMaster = true ∨ payload.canManageKeys.getD false = false ∧
        payload.canManageHooks.getD false = false) ∧
      (payload.canManageKeys.getD target.canManageKeys = true →
        effectiveCanonicalTemplate payload target = none) := by
  simp only [validateUpdateApiKey, Except.bind_eq_ok_iff] at h
  obtain ⟨_, hadmin, _, -, _, hscopes, _, hsigning, -⟩ := h
  refine ⟨guardMasterToAdminister_ok hadmin, guardMasterToGrantScopes_ok hscopes,
    guardCanonicalV1ForKeyManagement_ok hsigning ?_⟩
  unfold effectiveCanonicalTemplate
  split
  · exact nonEmpty_ne_empty _
  · exact hnonempty

/-! ### The handlers that write the key table -/

section Handlers

variable {w : World} {key : ApiKey}

theorem run_sql_snd {β : Type} (s : Stmt β) (w : World) :
    ((sql s).run Op.exec w).2 = { w with db := (s.exec w.db).2 } := by
  simp

/-- An audit row that was written went to the end of the trail. -/
theorem createAuditLog_ok {ctx : Context} {key : ApiKey} {draw : Nat} {action : String}
    {resource details : Option String} {w' : World} {u : Unit}
    (h : (createAuditLog ctx key draw action resource details).run Op.exec w = (.ok u, w')) :
    w' = { w with db := { w.db with
      auditLogs := w.db.auditLogs ++ [auditRow ctx key draw action resource details] } } := by
  rw [createAuditLog, Handler.exec_sql] at h
  simp only [Stmt.exec, Database.insertAuditLog] at h
  split at h
  · cases h
  · split at h
    · exact (Prod.mk.inj h).2.symm
    · cases h

theorem createAuditLog_run {ctx : Context} {draw : Nat} {action : String}
    {resource details : Option String}
    (hkey : w.db.hasApiKey key.id = true)
    (hnew : ∀ l ∈ w.db.auditLogs, l.id ≠ ctx.draws.uuid draw) :
    (createAuditLog ctx key draw action resource details).run Op.exec w =
      (.ok (), { w with db := { w.db with auditLogs :=
        w.db.auditLogs ++ [auditRow ctx key draw action resource details] } }) := by
  have hid : ¬(w.db.auditLogs.any fun l => l.id == ctx.draws.uuid draw) = true := by
    simpa using hnew
  simp [createAuditLog, Stmt.exec, Database.insertAuditLog, auditRow, hid, hkey, Except.mapError]

/-- An audit row after the fact. -/
theorem World.Sound.audit {α : Type} (h : w.Sound) {p : Handler α}
    (hp : p.Emits (WritesAmong [.insertAuditLog])) : (p.run Op.exec w).2.Sound :=
  h.run_of_writes hp (by simp [Write.tables])

theorem World.Sound.createApiKey (h : w.Sound) (ctx : Context) (hkey : key ∈ w.db.apiKeys)
    (payload : CreateApiKeyPayload) :
    ((createApiKey ctx key payload).run Op.exec w).2.Sound := by
  refine Program.run_bind_read (by simp) h fun _ hvalid => ?_
  obtain ⟨-, -, hsigning⟩ := validateCreateApiKey_ok (by simpa using hvalid)
  refine Program.run_bind_read (by simp) h fun pair _ => ?_
  refine Program.run_bind_post (J := World.Sound) ?_ (fun _ ht => ht) fun _ t _ ht =>
    ht.audit (.bind (createAuditLog_writes (by decide) _ _ _ _ _ _) fun _ => trivial)
  rw [run_sql_snd]
  refine h.insertApiKey ⟨rfl, ⟨key.id, List.mem_map_of_mem hkey, rfl⟩, nonEmpty_ne_empty _, ?_⟩
  exact hsigning

theorem ApiKeyUpdate.apply_signsByPolicy {u : ApiKeyUpdate} {k : ApiKey}
    (h : k.SignsByPolicy) (hkeys : u.canManageKeys = none)
    (htemplate : u.canonicalTemplate = none) :
    (u.apply k).SignsByPolicy := by
  simpa [ApiKey.SignsByPolicy, ApiKeyUpdate.apply, hkeys, htemplate] using h

/-- What the update leaves of the signing policy was checked against the row it
is applied to. -/
theorem apiKeyChanges_signsByPolicy {platform : Platform} {target : ApiKey}
    {payload : UpdateApiKeyPayload} (now : DateTime)
    (hvalid : validateUpdateApiKey platform key target payload = .ok ())
    (htarget : target.SignsByPolicy) :
    ((apiKeyChanges payload now).apply target).SignsByPolicy := by
  obtain ⟨-, -, hsigning⟩ := validateUpdateApiKey_ok hvalid htarget.1
  have htemplate : ((apiKeyChanges payload now).apply target).canonicalTemplate =
      effectiveCanonicalTemplate payload target := by
    cases hp : payload.canonicalTemplate <;>
      simp [apiKeyChanges, ApiKeyUpdate.apply, effectiveCanonicalTemplate, hp]
  refine ⟨?_, fun hmanages => ?_⟩
  · rw [htemplate]
    unfold effectiveCanonicalTemplate
    split
    · exact nonEmpty_ne_empty _
    · exact htarget.1
  · rw [htemplate]
    exact hsigning hmanages

theorem World.Sound.updateApiKey_request (h : w.Sound) (ctx : Context) (id : Uuid)
    (payload : UpdateApiKeyPayload) :
    ((HookExecutor.updateApiKey ctx key id payload).run Op.exec w).2.Sound := by
  refine Program.run_bind_read (by simp) h fun _ _ => ?_
  refine h.bind (W := []) (loadAdministrableKey_writes _ _) (by simp) fun target t hload ht => ?_
  obtain ⟨rfl, hfound, -⟩ := loadAdministrableKey_ok.mp hload
  obtain ⟨hmem, hid⟩ := Database.apiKeyById_mem hfound
  refine Program.run_bind_read (by simp) h fun _ hvalid => ?_
  have hvalid : validateUpdateApiKey ctx.state.platform key target payload = .ok () := by
    simpa using hvalid
  refine Program.run_bind_post (J := World.Sound) ?_ (fun _ ht => ht) fun updated t _ ht =>
    ht.audit ((createAuditLog_writes (by decide) _ _ _ _ _ _).bind fun _ =>
      buildApiKeySummary_writes _)
  rw [run_sql_snd]
  refine h.updateApiKey fun k hk hkid => ?_
  rw [h.wellFormed.eq_of_id hk hmem (hkid.trans hid.symm)]
  exact apiKeyChanges_signsByPolicy _ hvalid (h.signing target hmem)

/-- A reissue writes credentials and leaves scopes and templates alone. -/
theorem World.Sound.reissue (h : w.Sound) {id : Uuid} {u : ApiKeyUpdate}
    (hkeys : u.canManageKeys = none) (htemplate : u.canonicalTemplate = none) :
    ((sql (.updateApiKey id u)).run Op.exec w).2.Sound := by
  rw [run_sql_snd]
  exact h.updateApiKey fun k hk _ =>
    ApiKeyUpdate.apply_signsByPolicy (h.signing k hk) hkeys htemplate

theorem World.Sound.rotateApiKey (h : w.Sound) (ctx : Context) (id : Uuid) :
    ((HookExecutor.rotateApiKey ctx key id).run Op.exec w).2.Sound := by
  refine h.bind (W := []) (loadReissuableKey_writes _ _ _) (by simp) fun _ t _ ht => ?_
  refine Program.run_bind_read (by simp) ht fun _ _ => ?_
  exact Program.run_bind_post (J := World.Sound) (ht.reissue rfl rfl) (fun _ h => h)
    fun _ _ _ h => h.audit ((createAuditLog_writes (by decide) _ _ _ _ _ _).bind fun _ => trivial)

theorem World.Sound.regenerateKey (h : w.Sound) (ctx : Context) (id : Uuid) :
    ((HookExecutor.regenerateKey ctx key id).run Op.exec w).2.Sound := by
  refine h.bind (W := []) (loadReissuableKey_writes _ _ _) (by simp) fun _ t _ ht => ?_
  exact Program.run_bind_post (J := World.Sound) (ht.reissue rfl rfl) (fun _ h => h)
    fun _ _ _ h => h.audit ((createAuditLog_writes (by decide) _ _ _ _ _ _).bind fun _ => trivial)

theorem World.Sound.regenerateSecret (h : w.Sound) (ctx : Context) (id : Uuid) :
    ((HookExecutor.regenerateSecret ctx key id).run Op.exec w).2.Sound := by
  refine h.bind (W := []) (loadReissuableKey_writes _ _ _) (by simp) fun _ t _ ht => ?_
  refine Program.run_bind_read (by simp) ht fun _ _ => ?_
  exact Program.run_bind_post (J := World.Sound) (ht.reissue rfl rfl) (fun _ h => h)
    fun _ _ _ h => h.audit ((createAuditLog_writes (by decide) _ _ _ _ _ _).bind fun _ => trivial)

/-- Below a key that is not the master there is no master. -/
theorem World.Sound.not_master_of_mem_subtree (h : w.Sound) {target k : ApiKey}
    (htarget : target ∈ w.db.apiKeys) (hplain : target.isMaster = false) (hk : k ∈ w.db.apiKeys)
    (hmem : k.id ∈ w.db.subtree target.id) : k.isMaster = false := by
  cases hmaster : k.isMaster with
  | false => rfl
  | true =>
    exfalso
    obtain ⟨m, hm, hmm, hparent, -⟩ := h.master
    obtain rfl := h.wellFormed.master_unique hm hk hmm hmaster
    rcases Database.mem_subtree.mp hmem with hid | hbelow
    · rw [h.wellFormed.eq_of_id hm htarget hid] at hmm
      simp [hplain] at hmm
    · obtain ⟨p, l, hl, hlid, hlp⟩ : ∃ p, w.db.Child p m.id := by
        cases hbelow with
        | single h => exact ⟨_, h⟩
        | tail _ h => exact ⟨_, h⟩
      rw [h.wellFormed.eq_of_id hl hm hlid, hparent] at hlp
      cases hlp

/-- Deleting a subtree keeps the invariant, as long as its root is no master. -/
theorem World.Sound.delete_subtree_safe (h : w.Sound) {target : ApiKey}
    (htarget : target ∈ w.db.apiKeys) (hplain : target.isMaster = false) :
    (Stmt.deleteApiKeys (.idIn (w.db.subtree target.id))).Safe w.db := by
  constructor
  · intro k hk l _ hparent hgone
    simp only [ApiKeyCondition.holds, List.contains_iff_mem] at hgone ⊢
    exact Database.mem_subtree_of_child hgone ⟨k, hk, rfl, hparent⟩
  · intro k hk hmaster
    by_contra hgone
    simp only [ApiKeyCondition.holds, Bool.not_eq_false, List.contains_iff_mem] at hgone
    have := h.not_master_of_mem_subtree htarget hplain hk hgone
    simp [this] at hmaster

/-- What the deletion of a key is shown before it goes on. -/
def Database.inventoryOf (db : Database) (root : Uuid) : SubtreeInventory :=
  { subtree := db.subtree root
    doomed := (Database.orderApiKeys .byCreatedAt
      (db.apiKeys.filter (ApiKeyCondition.idIn (db.subtree root)).holds)).map
        fun k => ⟨k.id, k.name⟩
    inventory := (Database.orderHooks .byName
      (db.hooks.filter (HookCondition.ownerKeyIdIn (db.subtree root)).holds)).filterMap
        ownedEntity }

@[simp] theorem run_collectSubtreeInventory (root : Uuid) (w : World) :
    (collectSubtreeInventory root).run Op.exec w = (.ok (w.db.inventoryOf root), w) := by
  simp [collectSubtreeInventory, Program.run_bind, Stmt.exec, Except.mapError,
    Database.inventoryOf, Database.subtree]

theorem Stmt.deleteApiKeys_safe_congr {db db' : Database} {c : ApiKeyCondition}
    (hkeys : db'.apiKeys = db.apiKeys) (h : (Stmt.deleteApiKeys c).Safe db) :
    (Stmt.deleteApiKeys c).Safe db' := by
  simpa only [Stmt.Safe, hkeys] using h

theorem World.Sound.deleteApiKey (h : w.Sound) (ctx : Context) (id : Uuid)
    (payload : DeleteApiKeyPayload) :
    ((HookExecutor.deleteApiKey ctx key id payload).run Op.exec w).2.Sound := by
  refine Program.run_bind_read (by simp) h fun _ _ => ?_
  refine Program.run_bind_read (by simp) h fun _ _ => ?_
  refine h.bind (W := []) (loadAdministrableKey_writes _ _) (by simp) fun target t hload ht => ?_
  obtain ⟨rfl, hfound, -⟩ := loadAdministrableKey_ok.mp hload
  obtain ⟨hmem, rfl⟩ := Database.apiKeyById_mem hfound
  refine Program.run_bind_read (by simp) h fun _ _ => ?_
  refine Program.run_bind_read (by simp) h fun _ hrefuse => ?_
  have hplain : target.isMaster = false :=
    refuseMasterLifecycleAction_ok (by simpa using hrefuse)
  refine Program.run_bind_read (by simp) h fun found hfoundInventory => ?_
  obtain rfl : found = t.db.inventoryOf target.id := by
    rw [run_collectSubtreeInventory] at hfoundInventory
    exact (Except.ok.inj (Prod.mk.inj hfoundInventory).1).symm
  refine Program.run_bind_read (by simp) h fun _ _ => ?_
  -- from here on the key table stays as it is until the deletion itself
  have hsafe := h.delete_subtree_safe hmem hplain
  have hkeep : ∀ {W : List Write} {α : Type} {p : Handler α} {v : World},
      p.Emits (WritesAmong W) → (∀ k ∈ W, Table.apiKeys ∉ k.tables) →
      v.Sound ∧ v.db.apiKeys = t.db.apiKeys →
      (p.run Op.exec v).2.Sound ∧ (p.run Op.exec v).2.db.apiKeys = t.db.apiKeys :=
    fun hp hW hv => ⟨hv.1.run_of_writes hp hW,
      Eq.trans (Handler.run_agree (t := .apiKeys) hp hW _) hv.2⟩
  refine Program.run_bind_post (J := fun v => v.Sound ∧ v.db.apiKeys = t.db.apiKeys)
    (hkeep (W := []) (validateReassignments_writes _ _) (by simp) ⟨h, rfl⟩) (fun _ h => h.1)
    fun _ v _ hv => ?_
  refine Program.run_bind_post (J := fun v => v.Sound ∧ v.db.apiKeys = t.db.apiKeys)
    (hkeep (W := [.updateHook]) (applyResolutions_writes (by decide) _ _ _ _) (by decide) hv)
    (fun _ h => h.1) fun _ v _ hv => ?_
  refine Program.run_bind_post (J := World.Sound) ?_ (fun _ h => h) fun _ _ _ hv => ?_
  · rw [run_sql_snd]
    exact hv.1.deleteApiKeys (Stmt.deleteApiKeys_safe_congr hv.2 hsafe)
  · exact hv.audit (.bind (Program.emits_require _ _) fun _ =>
      createAuditLog_writes (by decide) _ _ _ _ _ _)

end Handlers

/-! ### Requests, sweeps and starts -/

/-- What the requests that do not write the key table write with. -/
theorem World.Sound.handleAdmin {w : World} {key : ApiKey} (h : w.Sound) (ctx : Context)
    (hkey : key ∈ w.db.apiKeys) (request : AdminRequest) :
    ((HookExecutor.handleAdmin ctx key request).run Op.exec w).2.Sound := by
  have hmap : ∀ {α β : Type} {p : Handler α} (f : α → β), (p.run Op.exec w).2.Sound →
      ((f <$> p).run Op.exec w).2.Sound := fun f hp =>
    Program.run_bind_post (J := World.Sound) hp (fun _ h => h) fun _ _ _ h => h
  cases request with
  | createApiKey payload => exact hmap _ (h.createApiKey ctx hkey payload)
  | updateApiKey id payload => exact hmap _ (h.updateApiKey_request ctx id payload)
  | deleteApiKey id payload => exact hmap _ (h.deleteApiKey ctx id payload)
  | rotateApiKey id => exact hmap _ (h.rotateApiKey ctx id)
  | regenerateKey id => exact hmap _ (h.regenerateKey ctx id)
  | regenerateSecret id => exact hmap _ (h.regenerateSecret ctx id)
  | _ =>
    exact h.run_of_writes (handleAdmin_writes ctx key _)
      (by simp [AdminRequest.writes, Write.tables])

/-- One request, whatever it is and however it ends. -/
theorem World.Sound.serve {w : World} (h : w.Sound) (ctx : Context) (clock : AuthClock)
    (req : Request) : ((HookExecutor.serve ctx clock req).run Op.exec w).2.Sound := by
  refine Program.run_bind_post (J := World.Sound) (h.authenticate ctx clock req) (fun _ h => h)
    fun a t hauth ht => ?_
  have hdb : t.db = w.db := authenticate_db hauth
  cases a with
  | admin key request =>
    have hkey : key ∈ t.db.apiKeys := hdb ▸ h.caller_mem hauth rfl
    exact Program.run_bind_post (J := World.Sound) (ht.handleAdmin ctx hkey request)
      (fun _ h => h) fun _ _ _ h => h
  | invoke key inv =>
    exact ht.run_of_writes (.map _ (handleInvocation_writes ctx inv key)) (by decide)

/-- The master row a start mints has no creator and no template of its own. -/
theorem masterRow_ok {state : AppState} {start : Startup} {row : ApiKey}
    (h : masterRow state start = .ok row) :
    row.isMaster = true ∧ row.parentKeyId = none ∧ row.SignsByPolicy := by
  simp only [masterRow, Except.bind_eq_ok_iff] at h
  obtain ⟨_, -, hrow⟩ := h
  cases hrow
  exact ⟨rfl, rfl, by simp, fun _ => rfl⟩

/-- What a start needs of the database another process left, and what it keeps
of it while it looks for the master. -/
structure Database.Startable (db : Database) : Prop where
  wellFormed : db.WellFormed
  lineage : db.Lineage
  masterRoot : ∀ key ∈ db.apiKeys, key.isMaster = true → key.parentKeyId = none
  signing : ∀ key ∈ db.apiKeys, key.SignsByPolicy

theorem World.Sound.startable {w : World} (h : w.Sound) : w.db.Startable where
  wellFormed := h.wellFormed
  lineage := h.lineage
  masterRoot := by
    obtain ⟨m, hm, hmaster, hparent, -⟩ := h.master
    intro key hkey hkm
    rw [h.wellFormed.master_unique hkey hm hkm hmaster]
    exact hparent
  signing := h.signing

theorem Database.startable_empty : empty.Startable :=
  ⟨wellFormed_empty, lineage_empty, by simp [empty], by simp [empty]⟩

/-- Minting a master keeps a database startable. -/
theorem Database.Startable.insertMaster {db : Database} (h : db.Startable) {row : ApiKey}
    (hparent : row.parentKeyId = none) (hsigns : row.SignsByPolicy) :
    (db.insertApiKey row).2.Startable := by
  have hwf := h.wellFormed.insertApiKey row
  unfold Database.insertApiKey at hwf ⊢
  split
  · exact h
  · rename_i hcollides
    have hfresh : ∀ k ∈ db.apiKeys, k.id ≠ row.id := by
      intro k hk hid
      exact hcollides (List.any_eq_true.mpr ⟨k, hk, by simp [apiKeyCollides, hid]⟩)
    simp only [hcollides] at hwf
    refine ⟨hwf, ⟨?_, ?_⟩, ?_, ?_⟩
    · intro key hkey p hp
      rcases List.mem_append.mp hkey with hkey | hkey
      · have := h.lineage.parents key hkey p hp
        simp only [Database.keyIds, List.map_append] at this ⊢
        exact List.mem_append_left _ this
      · rw [List.mem_singleton.mp hkey, hparent] at hp
        cases hp
    · obtain ⟨rank, hrank⟩ := h.lineage.ranked
      refine ⟨rank, fun key hkey p hp => ?_⟩
      rcases List.mem_append.mp hkey with hkey | hkey
      · exact hrank key hkey p hp
      · rw [List.mem_singleton.mp hkey, hparent] at hp
        cases hp
    · intro key hkey hmaster
      rcases List.mem_append.mp hkey with hkey | hkey
      · exact h.masterRoot key hkey hmaster
      · rw [List.mem_singleton.mp hkey]
        exact hparent
    · intro key hkey
      rcases List.mem_append.mp hkey with hkey | hkey
      · exact h.signing key hkey
      · rw [List.mem_singleton.mp hkey]
        exact hsigns

/-- The identity a start pins is that of a master row. -/
theorem pinAtBoot_ok {v w : World} (hrun : pinAtBoot.run Op.exec v = (.ok (), w)) :
    ∃ m ∈ v.db.apiKeys, m.isMaster = true ∧ w = { v with pinned := v.pinned.or (some m.id) } := by
  simp only [pinAtBoot, resolveInner, Program.bind_eq, Program.pure_eq,
    Program.run_bind_eq_ok_iff, Handler.exec_trySql, Program.run_pure, Stmt.exec] at hrun
  obtain ⟨found, v', ⟨masters, _, hmasters, hfound⟩, hpin⟩ := hrun
  cases hmasters
  simp only [Database.orderApiKeys, id_eq, Prod.mk.injEq, Except.ok.injEq] at hfound
  obtain ⟨rfl, rfl⟩ := hfound
  cases hrows : v.db.apiKeys.filter ApiKeyCondition.isMaster.holds with
  | nil => simp [hrows] at hpin
  | cons m rest =>
    cases rest with
    | cons m' rest => simp [hrows] at hpin
    | nil =>
      have hm : m ∈ v.db.apiKeys ∧ m.isMaster = true := by
        simpa [ApiKeyCondition.holds] using
          List.mem_filter.mp (hrows ▸ List.mem_singleton_self m : m ∈ v.db.apiKeys.filter _)
      refine ⟨m, hm.1, hm.2, ?_⟩
      simp only [hrows, Program.run_ask, Op.exec, Prod.mk.injEq] at hpin
      exact hpin.2.symm

/-- A start that succeeds leaves a sound world. -/
theorem Database.Startable.boot {db : Database} (h : db.Startable) {state : AppState}
    {start : Startup} {w : World}
    (hrun : (HookExecutor.boot state start).run Op.exec (startProcess state start db) =
      (.ok (), w)) : w.Sound := by
  have hmint : ((bootstrapMasterKey state start).run Op.exec
      (startProcess state start db)).2.db.Startable ∧ ((bootstrapMasterKey state start).run
        Op.exec (startProcess state start db)).2.pinned = none := by
    refine Program.run_bind_read (K := fun v : World => v.db.Startable ∧ v.pinned = none)
      (by simp [Stmt.exec]) ⟨h, rfl⟩ fun existing _ => ?_
    cases existing.isEmpty with
    | false => exact ⟨h, rfl⟩
    | true =>
      refine Program.run_bind_read (K := fun v : World => v.db.Startable ∧ v.pinned = none)
        (by simp) ⟨h, rfl⟩ fun row hrow => ?_
      obtain ⟨-, hparent, hsigns⟩ := masterRow_ok (by simpa using hrow)
      rw [run_sql_snd]
      exact ⟨h.insertMaster hparent hsigns, rfl⟩
  simp only [HookExecutor.boot, Program.bind_eq, Program.run_bind_eq_ok_iff] at hrun
  obtain ⟨_, v, hboot, hpin⟩ := hrun
  rw [hboot] at hmint
  obtain ⟨hstart, hunpinned⟩ : v.db.Startable ∧ v.pinned = none := hmint
  obtain ⟨m, hm, hmaster, rfl⟩ := pinAtBoot_ok hpin
  exact ⟨hstart.wellFormed, hstart.lineage,
    ⟨m, hm, hmaster, hstart.masterRoot m hm hmaster, by simp [hunpinned]⟩, hstart.signing⟩

theorem Reachable.sound {state : AppState} {w : World} (h : Reachable state w) : w.Sound := by
  induction h with
  | start start started => exact Database.startable_empty.boot started
  | restart _ start started ih => exact ih.startable.boot started
  | serve _ ctx clock req _ ih => exact ih.serve ctx clock req
  | sweepExecutions _ now ih =>
    exact ih.run_of_writes (W := [.deleteExecutions]) (purgeExpiredExecutions_writes _ _
      (by decide)) (by decide)
  | sweepDeletedHooks _ now ih =>
    exact ih.run_of_writes (W := [.deleteHooks]) (purgeExpiredDeletedHooks_writes _ _
      (by decide)) (by decide)

/-- What every statement keeps, the database never loses. -/
theorem Reachable.database {state : AppState} {w : World} {J : Database → Prop}
    (h : Reachable state w) (hempty : J .empty)
    (hstmt : ∀ {β : Type} (s : Stmt β) {db : Database}, J db → J (s.exec db).2) : J w.db := by
  have hrun : ∀ {α : Type} (p : Handler α) {w : World}, J w.db → J (p.run Op.exec w).2.db := by
    intro α p w hw
    refine ((Program.emits_any p).mono ?_).run_inv (J := fun w : World => J w.db) hw
    intro β q _ w hw
    rw [Op.exec_db]
    cases q with
    | db s => exact hstmt s hw
    | _ => exact hw
  induction h with
  | @start state start _ started =>
    have hboot := hrun (boot state start) (w := startProcess state start .empty) hempty
    rwa [started] at hboot
  | @restart _ state v _ _ start started ih =>
    have hboot := hrun (boot state start) (w := startProcess state start v.db) ih
    rwa [started] at hboot
  | serve _ ctx clock req _ ih => exact hrun _ ih
  | sweepExecutions _ now ih => exact hrun _ ih
  | sweepDeletedHooks _ now ih => exact hrun _ ih

/-- Between requests, and during them, the guard has one entry a signature. -/
theorem Reachable.distinct {state : AppState} {w : World} (h : Reachable state w) :
    w.replay.Distinct := by
  have hrun : ∀ {α : Type} (p : Handler α) {w : World}, w.replay.Distinct →
      (p.run Op.exec w).2.replay.Distinct := by
    intro α p w hw
    refine ((Program.emits_any p).mono ?_).run_inv (J := fun w : World => w.replay.Distinct) hw
    intro β q _ w hw
    cases q with
    | checkAndRecord keyId digest now => exact hw.checkAndRecord ⟨keyId, digest⟩ now
    | tryAcquire keyId permits =>
      change (w.tryAcquire keyId permits).2.replay.Distinct
      rwa [World.tryAcquire_replay]
    | release permit =>
      change (w.release permit).replay.Distinct
      rwa [World.release_replay]
    | _ => exact hw
  induction h with
  | @start state start _ started =>
    have hboot := hrun (boot state start) (w := startProcess state start .empty)
      (ReplayGuard.distinct_new _ _)
    rwa [started] at hboot
  | @restart _ state v _ _ start started _ =>
    have hboot := hrun (boot state start) (w := startProcess state start v.db)
      (ReplayGuard.distinct_new _ _)
    rwa [started] at hboot
  | serve _ ctx clock req _ ih => exact hrun _ ih
  | sweepExecutions _ now ih => exact hrun _ ih
  | sweepDeletedHooks _ now ih => exact hrun _ ih

end HookExecutor
