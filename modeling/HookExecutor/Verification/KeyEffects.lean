import HookExecutor.Verification.Deletion
import HookExecutor.Verification.Reissue

/-!
# What one request does to the key table

A key is minted below its creator, edited in place, or removed with everything
below it. The master's row is never minted, never removed, and edited in its
network binding alone.
-/

namespace HookExecutor

/-- An update that writes the network binding of a key and nothing else. -/
def ApiKeyUpdate.OnlyBoundIps (u : ApiKeyUpdate) : Prop :=
  u = { boundIps := u.boundIps, updatedAt := u.updatedAt }

/-- A row, edited if it is the one. -/
def ApiKeyUpdate.at_ (u : ApiKeyUpdate) (id : Uuid) (k : ApiKey) : ApiKey :=
  if k.id == id then u.apply k else k

/-- The ways one request of a key can leave the key table. -/
inductive KeyStep (key : ApiKey) (request : AdminRequest) (db : Database) : List ApiKey → Prop
  | kept : KeyStep key request db db.apiKeys
  | created (row : ApiKey) (fresh : ∀ k ∈ db.apiKeys, k.id ≠ row.id)
      (ordinary : row.isMaster = false) (daughter : row.parentKeyId = some key.id) :
      KeyStep key request db (db.apiKeys ++ [row])
  | edited {target : ApiKey} (u : ApiKeyUpdate) (mem : target ∈ db.apiKeys)
      (may : target.isMaster = false ∨ key.id = target.id ∧ u.OnlyBoundIps) :
      KeyStep key request db (db.apiKeys.map (u.at_ target.id))
  | removed {id : Uuid} {payload : DeleteApiKeyPayload} {target : ApiKey}
      (asked : request = .deleteApiKey id payload)
      (deletes : db.Deletes key id payload.resolutions target) :
      KeyStep key request db (db.apiKeys.filter fun k => k.id ∉ db.subtree id)

section Keys

variable {ctx : Context} {key : ApiKey} {request : AdminRequest} {w : World}

theorem Handler.run_apiKeys_eq {W : List Write} {α : Type} {p : Handler α}
    (hp : p.Emits (WritesAmong W)) (hW : ∀ k ∈ W, Table.apiKeys ∉ k.tables) (w : World) :
    (p.run Op.exec w).2.db.apiKeys = w.db.apiKeys :=
  Handler.run_agree (t := .apiKeys) hp hW w

theorem KeyStep.rest {α : Type} {p : Handler α} {db : Database} {t : World}
    (h : KeyStep key request db t.db.apiKeys) (hp : p.Emits (WritesAmong [.insertAuditLog])) :
    KeyStep key request db (p.run Op.exec t).2.db.apiKeys := by
  rw [Handler.run_apiKeys_eq hp (by decide)]
  exact h

theorem KeyStep.update {target : ApiKey} {u : ApiKeyUpdate} {id : Uuid}
    (hfound : w.db.apiKeyById id = some target)
    (may : target.isMaster = false ∨ key.id = target.id ∧ u.OnlyBoundIps) :
    KeyStep key request w.db ((sql (.updateApiKey id u)).run Op.exec w).2.db.apiKeys := by
  obtain ⟨hmem, rfl⟩ := Database.apiKeyById_mem hfound
  rw [run_sql_snd]
  change KeyStep key request w.db (w.db.updateApiKey target.id u).2.apiKeys
  unfold Database.updateApiKey
  split
  · exact .kept
  · split
    · exact .kept
    · exact .edited u hmem may

theorem createApiKey_keyStep (ctx : Context) (payload : CreateApiKeyPayload) (w : World) :
    KeyStep key request w.db ((createApiKey ctx key payload).run Op.exec w).2.db.apiKeys := by
  let K : World → Prop := fun t => KeyStep key request w.db t.db.apiKeys
  refine Program.run_bind_read (K := K) (by simp) .kept fun _ _ => ?_
  refine Program.run_bind_read (K := K) (by simp) .kept fun pair _ => ?_
  refine Handler.bind_keep (K := fun db => KeyStep key request w.db db.apiKeys) ?_ fun _ _ hstep =>
    hstep.rest ((createAuditLog_writes (by decide) _ _ _ _ _ _).bind fun _ => trivial)
  rw [run_sql_snd]
  change KeyStep key request w.db (w.db.insertApiKey _).2.apiKeys
  unfold Database.insertApiKey
  split
  · exact .kept
  · rename_i hcollides
    refine .created _ (fun k hk hid => hcollides (List.any_eq_true.mpr ⟨k, hk, ?_⟩)) rfl rfl
    simp [Database.apiKeyCollides, hid]

/-- What the edit of a master's row was let through with. -/
theorem validateUpdateApiKey_master {platform : Platform} {target : ApiKey}
    {payload : UpdateApiKeyPayload} (now : DateTime)
    (h : validateUpdateApiKey platform key target payload = .ok ()) :
    target.isMaster = false ∨ key.id = target.id ∧ (apiKeyChanges payload now).OnlyBoundIps := by
  simp only [validateUpdateApiKey, Except.bind_eq_ok_iff] at h
  obtain ⟨_, -, _, hself, -⟩ := h
  cases hmaster : target.isMaster with
  | false => exact .inl rfl
  | true =>
    refine .inr ?_
    by_cases hid : key.id = target.id
    · refine ⟨hid, ?_⟩
      cases hfield : masterImmutableField payload with
      | some field => simp [guardMasterSelfEditIsBoundIpsOnly, hmaster, hid, hfield] at hself
      | none =>
        simp only [masterImmutableField, Option.map_eq_none_iff, List.find?_eq_none] at hfield
        simp only [List.mem_cons, List.not_mem_nil, or_false, forall_eq_or_imp, forall_eq,
          Option.isSome_iff_ne_none, ne_eq, not_not] at hfield
        obtain ⟨hname, hjobs, hkeys, htemplate, hhooks⟩ := hfield
        simp [ApiKeyUpdate.OnlyBoundIps, apiKeyChanges, hname, hjobs, hkeys, htemplate, hhooks]
    · simp [guardMasterSelfEditIsBoundIpsOnly, hmaster, hid] at hself

theorem updateApiKey_keyStep (ctx : Context) (id : Uuid) (payload : UpdateApiKeyPayload)
    (w : World) :
    KeyStep key request w.db ((updateApiKey ctx key id payload).run Op.exec w).2.db.apiKeys := by
  let K : World → Prop := fun t => KeyStep key request w.db t.db.apiKeys
  refine Program.run_bind_read (K := K) (by simp) .kept fun _ _ => ?_
  refine Program.run_bind_read (K := K) (run_loadAdministrableKey_snd _ _ _) .kept
    fun target hload => ?_
  obtain ⟨-, hfound, -⟩ := loadAdministrableKey_ok.mp hload
  refine Program.run_bind_read (K := K) (by simp) .kept fun _ hvalid => ?_
  have hmay := validateUpdateApiKey_master (ctx.draws.now 0) (by simpa using hvalid)
  exact Handler.bind_keep (K := fun db => KeyStep key request w.db db.apiKeys)
    (.update hfound hmay) fun _ _ hstep => hstep.rest
      ((createAuditLog_writes (by decide) _ _ _ _ _ _).bind fun _ => buildApiKeySummary_writes _)

theorem run_loadReissuableKey_snd (id : Uuid) (action : String) (w : World) :
    ((loadReissuableKey key id action).run Op.exec w).2 = w := by
  refine Program.run_bind_read (K := fun t => t = w) (by simp) rfl fun _ _ => ?_
  refine Program.run_bind_read (K := fun t => t = w) (run_loadAdministrableKey_snd _ _ _) rfl
    fun _ _ => ?_
  refine Program.run_bind_read (K := fun t => t = w) (by simp) rfl fun _ _ => ?_
  exact Program.run_bind_read (K := fun t => t = w) (by simp) rfl fun _ _ => rfl

/-- A reissue goes on only for a row that is no master's. -/
theorem reissue_keyStep {α : Type} {id : Uuid} {action : String} {f : ApiKey → Handler α}
    (hf : ∀ target, w.db.apiKeyById id = some target → target.isMaster = false →
      KeyStep key request w.db ((f target).run Op.exec w).2.db.apiKeys) :
    KeyStep key request w.db
      (((loadReissuableKey key id action).bind f).run Op.exec w).2.db.apiKeys := by
  refine Program.run_bind_read (K := fun t : World => KeyStep key request w.db t.db.apiKeys)
    (run_loadReissuableKey_snd _ _ _) .kept fun target hload => ?_
  obtain ⟨-, hfound, -, -, hordinary⟩ := loadReissuableKey_ok hload
  exact hf target hfound hordinary

/-- The columns of a reissue, and its audit row. -/
theorem reissued_keyStep {α : Type} {id : Uuid} {target : ApiKey} {u : ApiKeyUpdate} {draw : Nat}
    {action : String} {resource details : Option String} {a : α}
    (hfound : w.db.apiKeyById id = some target) (hordinary : target.isMaster = false) :
    KeyStep key request w.db (((sql (.updateApiKey id u)).bind fun _ =>
      (createAuditLog ctx key draw action resource details).bind fun _ =>
        (.pure a : Handler α)).run Op.exec w).2.db.apiKeys :=
  Handler.bind_keep (K := fun db => KeyStep key request w.db db.apiKeys)
    (.update hfound (.inl hordinary)) fun _ _ hstep => hstep.rest
      ((createAuditLog_writes (by decide) _ _ _ _ _ _).bind fun _ => trivial)

theorem deleteApiKey_keyStep (ctx : Context) {id : Uuid} {payload : DeleteApiKeyPayload}
    {w : World} (hwf : w.db.WellFormed) :
    KeyStep key (.deleteApiKey id payload) w.db
      ((deleteApiKey ctx key id payload).run Op.exec w).2.db.apiKeys := by
  rcases deleteApiKey_outcome ctx key id payload hwf with
    ⟨target, hdeletes, -, hkeys, -⟩ | ⟨-, hsame⟩
  · rw [hkeys]
    exact .removed rfl hdeletes
  · rw [hsame]
    exact .kept

/-- Whatever a request is and however it ends. -/
theorem handleAdmin_keyStep (ctx : Context) (request : AdminRequest) {w : World}
    (hwf : w.db.WellFormed) :
    KeyStep key request w.db ((handleAdmin ctx key request).run Op.exec w).2.db.apiKeys := by
  have hmap : ∀ {α β : Type} {p : Handler α} (f : α → β),
      KeyStep key request w.db (p.run Op.exec w).2.db.apiKeys →
      KeyStep key request w.db ((f <$> p).run Op.exec w).2.db.apiKeys := fun f h =>
    Handler.map_keep (K := fun db => KeyStep key request w.db db.apiKeys) f h
  cases request with
  | createApiKey payload => exact hmap _ (createApiKey_keyStep ctx payload w)
  | updateApiKey id payload => exact hmap _ (updateApiKey_keyStep ctx id payload w)
  | deleteApiKey id payload => exact hmap _ (deleteApiKey_keyStep ctx hwf)
  | rotateApiKey id =>
    refine hmap _ (reissue_keyStep fun target hfound hordinary => ?_)
    exact Program.run_bind_read (K := fun t : World => KeyStep key _ w.db t.db.apiKeys) (by simp)
      .kept fun _ _ => reissued_keyStep hfound hordinary
  | regenerateKey id =>
    exact hmap _ (reissue_keyStep fun target hfound hordinary => reissued_keyStep hfound hordinary)
  | regenerateSecret id =>
    refine hmap _ (reissue_keyStep fun target hfound hordinary => ?_)
    exact Program.run_bind_read (K := fun t : World => KeyStep key _ w.db t.db.apiKeys) (by simp)
      .kept fun _ _ => reissued_keyStep hfound hordinary
  | _ =>
    rw [Handler.run_apiKeys_eq (handleAdmin_writes ctx key _) (by simp [AdminRequest.writes,
      Write.tables])]
    exact .kept

end Keys

end HookExecutor
