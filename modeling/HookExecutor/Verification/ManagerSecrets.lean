import HookExecutor.Verification.KeyEffects
import HookExecutor.Verification.Runs
import HookExecutor.Verification.Sample

/-!
# Key managers and their signing secrets

A key that manages keys must sign every request, so it needs a secret. Minting
asks for one, and no reissue takes one away. An edit of the scopes alone does
not look: it makes a manager of a key that was minted with no secret.
-/

namespace HookExecutor

/-- Every key that manages keys has something to sign with. The master does not
have to sign. -/
def Database.ManagersCanSign (db : Database) : Prop :=
  ∀ k ∈ db.apiKeys, k.isMaster = false → k.canManageKeys = true → k.signingSecret ≠ none

/-- An edit that is let through sets the scope on a row without a secret. -/
structure Database.PromotesBare (db : Database) (platform : Platform) (key : ApiKey) (id : Uuid)
    (payload : UpdateApiKeyPayload) (target : ApiKey) : Prop where
  found : db.apiKeyById id = some target
  bare : target.signingSecret = none
  asked : payload.canManageKeys = some true
  valid : validateUpdateApiKey platform key target payload = .ok ()

/-- The request is such an edit. -/
def PromotesBareKey : RequestCondition := fun w ctx clock req =>
  ∃ key id payload target w₁,
    (authenticate ctx clock req).run Op.exec w = (.ok (.admin key (.updateApiKey id payload)), w₁) ∧
      w.db.PromotesBare ctx.state.platform key id payload target

namespace Database.ManagersCanSign

variable {db db' : Database} {u : ApiKeyUpdate} {id : Uuid}

theorem congr (h : db.ManagersCanSign) (hkeys : db'.apiKeys = db.apiKeys) :
    db'.ManagersCanSign := by
  unfold Database.ManagersCanSign
  rw [hkeys]
  exact h

theorem insertApiKey (h : db.ManagersCanSign) {row : ApiKey}
    (hrow : row.canManageKeys = true → row.signingSecret ≠ none) :
    (db.insertApiKey row).2.ManagersCanSign := by
  unfold Database.insertApiKey
  split
  · exact h
  · intro k hk hordinary
    rcases List.mem_append.mp hk with hk | hk
    · exact h k hk hordinary
    · rw [List.mem_singleton.mp hk]
      exact hrow

theorem updateApiKey (h : db.ManagersCanSign)
    (hrow : ∀ k ∈ db.apiKeys, k.id = id → k.isMaster = false →
      (u.apply k).canManageKeys = true → (u.apply k).signingSecret ≠ none) :
    (db.updateApiKey id u).2.ManagersCanSign := by
  unfold Database.updateApiKey
  split
  · exact h
  · split
    · exact h
    · intro k' hk' hordinary
      obtain ⟨k, hk, rfl⟩ := List.mem_map.mp hk'
      by_cases hid : k.id = id
      · simp only [beq_iff_eq, hid, if_true] at hordinary ⊢
        exact hrow k hk hid hordinary
      · simp only [beq_iff_eq, hid, if_false] at hordinary ⊢
        exact h k hk hordinary

theorem filter (h : db.ManagersCanSign) {keep : ApiKey → Bool}
    (hkeys : db'.apiKeys = db.apiKeys.filter keep) : db'.ManagersCanSign := by
  intro k hk
  rw [hkeys] at hk
  exact h k (List.mem_of_mem_filter hk)

end Database.ManagersCanSign

/-! ### Keys do not collide -/

/-- No two keys share a unique column. -/
def Database.DistinctKeys (db : Database) : Prop :=
  ∀ k ∈ db.apiKeys, ∀ l ∈ db.apiKeys, k.id ≠ l.id → Database.apiKeyCollides k l = false

theorem Database.apiKeyCollides_comm (k l : ApiKey) :
    Database.apiKeyCollides k l = Database.apiKeyCollides l k := by
  have hkeyId : (l.keyId.isSome && k.keyId == l.keyId) =
    (k.keyId.isSome && l.keyId == k.keyId) := by
    cases k.keyId <;> cases l.keyId <;> simp [eq_comm]
  simp only [Database.apiKeyCollides, hkeyId, BEq.comm (a := k.id), BEq.comm (a := k.keyHash),
    Bool.and_comm k.isMaster]

theorem Stmt.exec_distinctKeys {β : Type} (s : Stmt β) {db : Database}
    (h : db.WellFormed ∧ db.DistinctKeys) :
    (s.exec db).2.WellFormed ∧ (s.exec db).2.DistinctKeys := by
  refine ⟨s.exec_wellFormed h.1, ?_⟩
  obtain ⟨hwf, h⟩ := h
  have hother : (∀ k ∈ s.write?, Table.apiKeys ∉ k.tables) → (s.exec db).2.DistinctKeys :=
    fun hs => by
    unfold Database.DistinctKeys
    rw [show _ = db.apiKeys from s.exec_agree db hs]
    exact h
  cases s with
  | insertApiKey row =>
    change (db.insertApiKey row).2.DistinctKeys
    unfold Database.insertApiKey
    split
    · exact h
    · rename_i hfree
      have hnew : ∀ k ∈ db.apiKeys, Database.apiKeyCollides k row = false := by
        simpa using hfree
      intro k hk l hl hid
      rcases List.mem_append.mp hk with hk | hk <;> rcases List.mem_append.mp hl with hl | hl
      · exact h k hk l hl hid
      · rw [List.mem_singleton.mp hl]
        exact hnew k hk
      · rw [List.mem_singleton.mp hk, Database.apiKeyCollides_comm]
        exact hnew l hl
      · exact absurd (congrArg ApiKey.id ((List.mem_singleton.mp hk).trans
          (List.mem_singleton.mp hl).symm)) hid
  | updateApiKey id u =>
    change (db.updateApiKey id u).2.DistinctKeys
    unfold Database.updateApiKey
    split
    · exact h
    · rename_i row hrow
      obtain ⟨hmem, rfl⟩ := Database.apiKeyById_mem hrow
      split
      · exact h
      · rename_i hfree
        have hnew : ∀ k ∈ db.apiKeys, k.id ≠ row.id →
            Database.apiKeyCollides k (u.apply row) = false := by
          simpa using hfree
        intro k' hk' l' hl' hid
        obtain ⟨k, hk, rfl⟩ := List.mem_map.mp hk'
        obtain ⟨l, hl, rfl⟩ := List.mem_map.mp hl'
        by_cases hkid : k.id = row.id <;> by_cases hlid : l.id = row.id
        · simp [hkid, hlid] at hid
        · obtain rfl := hwf.eq_of_id hk hmem hkid
          simp only [beq_iff_eq, hlid, if_true, if_false]
          rw [Database.apiKeyCollides_comm]
          exact hnew l hl hlid
        · obtain rfl := hwf.eq_of_id hl hmem hlid
          simp only [beq_iff_eq, hkid, if_true, if_false]
          exact hnew k hk hkid
        · simp only [beq_iff_eq, hkid, hlid, if_false] at hid ⊢
          exact h k hk l hl hid
  | deleteApiKeys c =>
    intro k hk l hl
    exact h k (List.mem_of_mem_filter hk) l (List.mem_of_mem_filter hl)
  | _ => exact hother (by simp [Stmt.write?, Write.tables])

theorem Reachable.distinctKeys {state : AppState} {w : World} (h : Reachable state w) :
    w.db.DistinctKeys :=
  (h.database ⟨Database.wellFormed_empty, by simp [Database.DistinctKeys, Database.empty]⟩
    Stmt.exec_distinctKeys).2

section Handlers

variable {ctx : Context} {key : ApiKey} {w : World}

theorem guardSigningPair_ok {payload : CreateApiKeyPayload} (h : guardSigningPair payload = .ok ())
    (hmanages : payload.canManageKeys.getD false = true) :
    payload.generateSigningSecret.getD true = true := by
  unfold guardSigningPair at h
  split at h
  · cases h
  · rename_i hpair
    by_contra hnone
    exact hpair (by simp [hmanages, hnone])

theorem validateCreateApiKey_signingPair {platform : Platform} {payload : CreateApiKeyPayload}
    (h : validateCreateApiKey platform key payload = .ok ())
    (hmanages : payload.canManageKeys.getD false = true) :
    payload.generateSigningSecret.getD true = true := by
  simp only [validateCreateApiKey, Except.bind_eq_ok_iff] at h
  obtain ⟨_, -, _, -, _, hpair, -⟩ := h
  exact guardSigningPair_ok hpair hmanages

/-- The audit row and what is read for the answer leave the keys alone. -/
theorem managersCanSign_rest {α : Type} {p : Handler α} {t : World}
    (h : t.db.ManagersCanSign) (hp : p.Emits (WritesAmong [.insertAuditLog])) :
    (p.run Op.exec t).2.db.ManagersCanSign :=
  h.congr (Handler.run_apiKeys_eq hp (by decide) t)

theorem createApiKey_managersCanSign (h : w.db.ManagersCanSign) (ctx : Context)
    (payload : CreateApiKeyPayload) :
    ((createApiKey ctx key payload).run Op.exec w).2.db.ManagersCanSign := by
  let K : World → Prop := fun t => t.db.ManagersCanSign
  refine Program.run_bind_read (K := K) (by simp) h fun _ hvalid => ?_
  have hwants := validateCreateApiKey_signingPair (by simpa using hvalid)
  refine Program.run_bind_read (K := K) (by simp) h fun pair hpair => ?_
  refine Handler.bind_keep (K := Database.ManagersCanSign) ?_ fun _ _ hstep =>
    managersCanSign_rest hstep
      ((createAuditLog_writes (by decide) _ _ _ _ _ _).bind fun _ => trivial)
  rw [run_sql_snd]
  refine h.insertApiKey fun hmanages => ?_
  -- a row that manages keys is minted with the pair
  have hminted : (mintSigningPair ctx 1).map some = .ok pair := by
    simpa [hwants hmanages] using hpair
  cases hmint : mintSigningPair ctx 1 with
  | error e =>
    rw [hmint] at hminted
    cases hminted
  | ok signing =>
    rw [hmint] at hminted
    cases hminted
    exact nofun

/-- What a key edit that is let through leaves, unless it makes a manager of a
key without a secret. -/
theorem updateApiKey_managersCanSign (h : w.db.ManagersCanSign)
    (hwf : w.db.WellFormed) {id : Uuid} {payload : UpdateApiKeyPayload}
    (hnot : ∀ target, ¬w.db.PromotesBare ctx.state.platform key id payload target) :
    ((updateApiKey ctx key id payload).run Op.exec w).2.db.ManagersCanSign := by
  let K : World → Prop := fun t => t.db.ManagersCanSign
  refine Program.run_bind_read (K := K) (by simp) h fun _ _ => ?_
  refine Program.run_bind_read (K := K) (run_loadAdministrableKey_snd _ _ _) h
    fun target hload => ?_
  obtain ⟨-, hfound, -⟩ := loadAdministrableKey_ok.mp hload
  obtain ⟨hmem, hid⟩ := Database.apiKeyById_mem hfound
  refine Program.run_bind_read (K := K) (by simp) h fun _ hvalid => ?_
  refine Handler.bind_keep (K := Database.ManagersCanSign) ?_ fun _ _ hstep =>
    managersCanSign_rest hstep ((createAuditLog_writes (by decide) _ _ _ _ _ _).bind fun _ =>
      buildApiKeySummary_writes _)
  rw [run_sql_snd]
  refine h.updateApiKey fun k hk hkid hordinary hmanages => ?_
  obtain rfl := hwf.eq_of_id hk hmem (hkid.trans hid.symm)
  change k.signingSecret ≠ none
  cases hasked : payload.canManageKeys with
  | none =>
    have hmanager : k.canManageKeys = true := by
      simpa [ApiKeyUpdate.apply, apiKeyChanges, hasked] using hmanages
    exact h k hk hordinary hmanager
  | some manages =>
    have hset : manages = true := by
      simpa [ApiKeyUpdate.apply, apiKeyChanges, hasked] using hmanages
    intro hbare
    exact hnot k ⟨hfound, hbare, hset ▸ hasked, by simpa using hvalid⟩

/-- An update that touches neither the scope nor, unless to set it, the secret. -/
theorem reissue_managersCanSign (h : w.db.ManagersCanSign) {id : Uuid} {u : ApiKeyUpdate}
    (hscope : u.canManageKeys = none) (hsecret : u.signingSecret ≠ some none) :
    ((sql (.updateApiKey id u)).run Op.exec w).2.db.ManagersCanSign := by
  rw [run_sql_snd]
  refine h.updateApiKey fun k hk _ hordinary hmanages => ?_
  have hmanager : k.canManageKeys = true := by
    simpa [ApiKeyUpdate.apply, hscope] using hmanages
  cases hwritten : u.signingSecret with
  | none => simpa [ApiKeyUpdate.apply, hwritten] using h k hk hordinary hmanager
  | some secret =>
    rw [hwritten] at hsecret
    simpa [ApiKeyUpdate.apply, hwritten] using hsecret

/-- Whatever a request is and however it ends. -/
theorem handleAdmin_managersCanSign (h : w.db.ManagersCanSign)
    (hwf : w.db.WellFormed) (request : AdminRequest)
    (hnot : ∀ id payload target, request = .updateApiKey id payload →
      ¬w.db.PromotesBare ctx.state.platform key id payload target) :
    ((handleAdmin ctx key request).run Op.exec w).2.db.ManagersCanSign := by
  let K : World → Prop := fun t => t.db.ManagersCanSign
  have hmap : ∀ {α β : Type} {p : Handler α} (f : α → β),
      (p.run Op.exec w).2.db.ManagersCanSign →
      ((f <$> p).run Op.exec w).2.db.ManagersCanSign := fun f h =>
    Handler.map_keep (K := Database.ManagersCanSign) f h
  have haudit : ∀ {α : Type} {action : String} {resource details : Option String} {draw : Nat}
    (a : α),
      ((createAuditLog ctx key draw action resource details).bind fun _ =>
        (.pure a : Handler α)).Emits (WritesAmong [.insertAuditLog]) := fun _ =>
    (createAuditLog_writes (by decide) _ _ _ _ _ _).bind fun _ => trivial
  cases request with
  | createApiKey payload => exact hmap _ (createApiKey_managersCanSign h ctx payload)
  | updateApiKey id payload =>
    exact hmap _ (updateApiKey_managersCanSign h hwf (hnot id payload · rfl))
  | deleteApiKey id payload =>
    refine hmap _ ?_
    rcases deleteApiKey_outcome ctx key id payload hwf with ⟨_, -, -, hkeys, -⟩ | ⟨-, hsame⟩
    · exact h.filter hkeys
    · rw [hsame]
      exact h
  | rotateApiKey id =>
    refine hmap _ (Program.run_bind_read (K := K) (run_loadReissuableKey_snd _ _ _) h
      fun _ _ => Program.run_bind_read (K := K) (by simp) h fun pair _ => ?_)
    exact Handler.bind_keep (K := Database.ManagersCanSign)
      (reissue_managersCanSign h rfl (by simp)) fun _ _ hstep =>
        managersCanSign_rest hstep (haudit _)
  | regenerateKey id =>
    refine hmap _ (Program.run_bind_read (K := K) (run_loadReissuableKey_snd _ _ _) h
      fun _ _ => ?_)
    exact Handler.bind_keep (K := Database.ManagersCanSign)
      (reissue_managersCanSign h rfl (by simp [bearerColumns])) fun _ _ hstep =>
        managersCanSign_rest hstep (haudit _)
  | regenerateSecret id =>
    refine hmap _ (Program.run_bind_read (K := K) (run_loadReissuableKey_snd _ _ _) h
      fun _ _ => Program.run_bind_read (K := K) (by simp) h fun pair _ => ?_)
    exact Handler.bind_keep (K := Database.ManagersCanSign)
      (reissue_managersCanSign h rfl (by simp)) fun _ _ hstep =>
        managersCanSign_rest hstep (haudit _)
  | _ =>
    refine h.congr (Handler.run_apiKeys_eq (handleAdmin_writes ctx key _) ?_ w)
    simp [AdminRequest.writes, Write.tables]

theorem validateUpdateApiKey_scopes {platform : Platform} {target : ApiKey}
    {payload : UpdateApiKeyPayload} (h : validateUpdateApiKey platform key target payload = .ok ())
    (hasked : payload.canManageKeys = some true) :
    key.isMaster = true ∧ target.isMaster = false := by
  obtain hordinary | ⟨-, hbound⟩ := validateUpdateApiKey_master 0 h
  · refine ⟨?_, hordinary⟩
    simp only [validateUpdateApiKey, Except.bind_eq_ok_iff] at h
    obtain ⟨_, -, _, -, _, hscopes, -⟩ := h
    exact (guardMasterToGrantScopes_ok hscopes).resolve_right (by simp [hasked])
  · have hscope := congrArg ApiKeyUpdate.canManageKeys hbound
    simp [apiKeyChanges, hasked] at hscope

/-- An edit of a row collides with no other row: it sets no unique column. -/
theorem Database.DistinctKeys.updateApiKey_changes {db : Database} (h : db.DistinctKeys)
    {id : Uuid} {payload : UpdateApiKeyPayload} {target : ApiKey} (now : DateTime)
    (hfound : db.apiKeyById id = some target) :
    db.updateApiKey id (apiKeyChanges payload now) =
      (.ok ((apiKeyChanges payload now).apply target),
        { db with apiKeys := db.apiKeys.map ((apiKeyChanges payload now).at_ id) }) := by
  obtain ⟨hmem, hid⟩ := Database.apiKeyById_mem hfound
  have hfree : ¬(db.apiKeys.any fun other => other.id != id &&
      Database.apiKeyCollides other ((apiKeyChanges payload now).apply target)) = true := by
    simp only [List.any_eq_true, Bool.and_eq_true, bne_iff_ne, not_exists, not_and]
    intro other hother hoid hcollides
    have hapart := h other hother target hmem (hid ▸ hoid)
    exact absurd (hapart.symm.trans hcollides) nofun
  unfold Database.updateApiKey
  rw [show db.apiKeys.find? (·.id == id) = some target from hfound]
  exact if_neg hfree

/-- Such an edit is the master's, of another key, and leaves a manager that
cannot sign. -/
theorem Database.PromotesBare.breaks (hdistinct : w.db.DistinctKeys) {id : Uuid}
    {payload : UpdateApiKeyPayload} {target : ApiKey}
    (h : w.db.PromotesBare ctx.state.platform key id payload target) :
    ¬((HookExecutor.updateApiKey ctx key id payload).run Op.exec w).2.db.ManagersCanSign := by
  obtain ⟨hmaster, hordinary⟩ := validateUpdateApiKey_scopes h.valid h.asked
  obtain ⟨hmem, hid⟩ := Database.apiKeyById_mem h.found
  have hload : (loadAdministrableKey key id).run Op.exec w = (.ok target, w) :=
    loadAdministrableKey_ok.mpr ⟨rfl, h.found, .inl hmaster⟩
  have hguard : (.ofExcept (guardKeyManager key) : Handler Unit).run Op.exec w = (.ok (), w) := by
    rw [Program.run_ofExcept, guardKeyManager_ok.mpr (.inl hmaster)]
  have hvalid : (.ofExcept (validateUpdateApiKey ctx.state.platform key target payload) :
      Handler Unit).run Op.exec w = (.ok (), w) := by
    rw [Program.run_ofExcept, h.valid]
  have hwrite : (sql (.updateApiKey id (apiKeyChanges payload (ctx.draws.now 0)))).run Op.exec w =
      (.ok ((apiKeyChanges payload (ctx.draws.now 0)).apply target), { w with db := { w.db with
        apiKeys := w.db.apiKeys.map ((apiKeyChanges payload (ctx.draws.now 0)).at_ id) } }) := by
    simp [Stmt.exec, hdistinct.updateApiKey_changes _ h.found, Except.mapError]
  have hafter : ((HookExecutor.updateApiKey ctx key id payload).run Op.exec w).2.db.apiKeys =
      w.db.apiKeys.map ((apiKeyChanges payload (ctx.draws.now 0)).at_ id) := by
    simp only [HookExecutor.updateApiKey, Program.bind_eq]
    rw [Program.run_bind_ok hguard, Program.run_bind_ok hload, Program.run_bind_ok hvalid,
      Program.run_bind_ok hwrite]
    exact Handler.run_apiKeys_eq ((createAuditLog_writes (by decide) _ _ _ _ _ _).bind fun _ =>
      buildApiKeySummary_writes _) (by decide : ∀ k ∈ [Write.insertAuditLog], _) _
  intro hall
  have hpromoted : (apiKeyChanges payload (ctx.draws.now 0)).apply target ∈
      ((HookExecutor.updateApiKey ctx key id payload).run Op.exec w).2.db.apiKeys := by
    rw [hafter]
    refine List.mem_map.mpr ⟨target, hmem, ?_⟩
    rw [ApiKeyUpdate.at_, if_pos (by simp [hid])]
  refine hall _ hpromoted hordinary ?_ h.bare
  simp [ApiKeyUpdate.apply, apiKeyChanges, h.asked]

end Handlers

section Requests

variable {state : AppState} {w₀ w : World}

theorem masterRow_signingSecret {start : Startup} {row : ApiKey}
    (h : masterRow state start = .ok row) : row.signingSecret ≠ none := by
  simp only [masterRow, Except.bind_eq_ok_iff] at h
  obtain ⟨_, -, hrow⟩ := h
  cases hrow
  exact Option.some_ne_none _

/-- At first there is the master alone. -/
theorem Bootstrapped.managersCanSign (h : Bootstrapped state w) : w.db.ManagersCanSign := by
  obtain ⟨start, hstarted⟩ := h
  have hempty : Database.empty.ManagersCanSign := by simp [Database.ManagersCanSign, Database.empty]
  have hboot : ((boot state start).run Op.exec
      (startProcess state start .empty)).2.db.ManagersCanSign := by
    refine Handler.bind_keep (K := Database.ManagersCanSign) ?_ fun _ t hstep =>
      hstep.congr (Handler.run_apiKeys_eq (W := []) pinAtBoot_writes (by simp) t)
    refine Program.run_bind_read (K := fun t : World => t.db.ManagersCanSign)
      (by simp [Stmt.exec]) hempty fun existing _ => ?_
    cases existing.isEmpty with
    | false => exact hempty
    | true =>
      refine Program.run_bind_read (K := fun t : World => t.db.ManagersCanSign) (by simp) hempty
        fun row hrow => ?_
      have hsecret : row.signingSecret ≠ none := masterRow_signingSecret (by simpa using hrow)
      rw [run_sql_snd]
      exact hempty.insertApiKey fun _ => hsecret
  rwa [hstarted] at hboot

/-- A request leaves every manager able to sign, unless it makes one that
cannot. -/
theorem serve_managersCanSign_iff (hw : Reachable state w) (h : w.db.ManagersCanSign)
    (ctx : Context) (clock : AuthClock) (req : Request) :
    ((serve ctx clock req).run Op.exec w).2.db.ManagersCanSign ↔
      ¬PromotesBareKey w ctx clock req := by
  rcases serve_agree_or_admin ctx clock req w with
    ⟨hnone, hagree⟩ | ⟨key, request, w₁, hauth, hdb, hserved⟩
  · refine iff_of_true (h.congr (hagree .apiKeys (by decide))) ?_
    rintro ⟨key, id, payload, _, w₁, hauth, -⟩
    exact hnone key _ w₁ hauth
  · rw [hserved]
    have hwf : w₁.db.WellFormed := hdb ▸ hw.sound.wellFormed
    have hdistinct : w₁.db.DistinctKeys := hdb ▸ hw.distinctKeys
    rw [← hdb] at h
    constructor
    · rintro hafter ⟨_, id, payload, target, _, hauth', hpromotes⟩
      cases hauth.symm.trans hauth'
      rw [← hdb] at hpromotes
      have hrun : ((handleAdmin ctx key (.updateApiKey id payload)).run Op.exec w₁).2 =
          ((updateApiKey ctx key id payload).run Op.exec w₁).2 :=
        congrArg Prod.snd (Program.run_map _ _ w₁)
      rw [hrun] at hafter
      exact hpromotes.breaks hdistinct hafter
    · intro hnot
      refine handleAdmin_managersCanSign h hwf request ?_
      rintro id payload target rfl hpromotes
      exact hnot ⟨key, id, payload, target, w₁, hauth, hdb ▸ hpromotes⟩

/-- After any run of requests none of which makes a manager of a key without a
secret, every key that manages keys can sign; and the first request that does so
ends that. -/
theorem managers_can_sign (hboot : Bootstrapped state w₀)
    (hrun : Runs state (fun w ctx clock req => ¬PromotesBareKey w ctx clock req) w₀ w) :
    w.db.ManagersCanSign ∧ ∀ ctx clock req, ctx.state = state →
      (((serve ctx clock req).run Op.exec w).2.db.ManagersCanSign ↔
        ¬PromotesBareKey w ctx clock req) := by
  have hreach := hboot.reachable
  have hstart : w₀.db.ManagersCanSign := hboot.managersCanSign
  have hafter : w.db.ManagersCanSign :=
    hrun.invariant (J := fun w => w.db.ManagersCanSign) hreach hstart
      fun hv _ hnot hw => (serve_managersCanSign_iff hv hw _ _ _).mpr hnot
  exact ⟨hafter, fun ctx clock req _ =>
    serve_managersCanSign_iff (hrun.reachable hreach) hafter ctx clock req⟩

end Requests

section Sample

open Sample

/-- Minting a manager is not making one of a key that exists. -/
theorem managers_can_sign_parent : withParent.db.ManagersCanSign ∧
    ∀ ctx clock req, ctx.state = Sample.state →
      (((serve ctx clock req).run Op.exec withParent).2.db.ManagersCanSign ↔
        ¬PromotesBareKey withParent ctx clock req) := by
  have hminting : ¬PromotesBareKey booted (ctx 1) clock mintParent := by
    rintro ⟨key, id, payload, target, w₁, hauth, -⟩
    have hmaster := authenticate_master 1 "/keys" (.createApiKey
      { name := "parent", canManageKeys := some true }) (w := booted) rfl rfl
    cases hmaster.symm.trans hauth
  exact managers_can_sign ⟨start, boot_start⟩
    (.single ⟨ctx 1, clock, mintParent, rfl, hminting, serveAt_mintParent⟩)

/-- The master mints a key with nothing to sign with. -/
def mintBare : Request :=
  .admin (bearer "/keys" masterKey)
    (.createApiKey { name := "bare", generateSigningSecret := some false })

/-- And lets it manage keys. -/
def promoteBare : Request :=
  .admin (bearer "/keys/00000000-0000-0000-0000-000000000065" masterKey)
    (.updateApiKey 101 { canManageKeys := some true })

def bareRow : ApiKey :=
  { parentRow with name := "bare", keyId := none, signingSecret := none, canManageKeys := false }

def withBare : World :=
  worldOf { Database.empty with
    apiKeys := [Sample.masterRow, bareRow]
    auditLogs := [auditRowOf 102 Sample.masterRow "KEY_CREATE" "bare"
      "Created key 'bare' (00000000...) (bearer-only, no signing secret)"] } []

theorem serveAt_mintBare : serveAt 1 mintBare booted = withBare := by
  refine (serveAt_master 1 "/keys" _ rfl rfl).trans ?_
  decide +kernel

/-- A manager that cannot sign, by two requests of the master. -/
theorem bare_key_promoted : ¬∀ {state : AppState} {w₀ w : World}, Bootstrapped state w₀ →
    Runs state (fun _ _ _ _ => True) w₀ w → w.db.ManagersCanSign := by
  intro hclaim
  have hrun : Runs Sample.state (fun _ _ _ _ => True) booted (serveAt 2 promoteBare withBare) :=
    .tail (.single ⟨ctx 1, clock, mintBare, rfl, trivial, serveAt_mintBare⟩)
      ⟨ctx 2, clock, promoteBare, rfl, trivial, rfl⟩
  have hall := hclaim ⟨start, boot_start⟩ hrun
  have hrow : { bareRow with canManageKeys := true } ∈
      (serveAt 2 promoteBare withBare).db.apiKeys := by
    rw [promoteBare, serveAt_master 2 _ _ rfl rfl]
    decide
  exact hall _ hrow rfl rfl rfl

end Sample

end HookExecutor
