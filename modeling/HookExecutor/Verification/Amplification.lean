import HookExecutor.Verification.Reachability
import HookExecutor.Verification.Sample

/-!
# Nothing is amplified

Which keys hold which verbs on which hooks, and which global scopes, before and
after a request. Only an upsert of a permission row can give anybody a verb,
and only two requests make one; only an insert or an update of a key could give
anybody a scope, and the checks in front of those take the scopes out. So a
request of a key that is not the master hands on what that key holds and
nothing else.
-/

namespace HookExecutor

inductive Verb where
  | view | execute | manage
  deriving DecidableEq

inductive Scope where
  | master | manageKeys | manageHooks
  deriving DecidableEq

def Permission.has (p : Permission) : Verb → Bool
  | .view => p.canViewExecution
  | .execute => p.canExecute
  | .manage => p.canManage

def ApiKey.has (key : ApiKey) : Scope → Bool
  | .master => key.isMaster
  | .manageKeys => key.canManageKeys
  | .manageHooks => key.canManageHooks

/-- A key holds a verb on a hook. -/
def Database.Holds (db : Database) (keyId : Uuid) (v : Verb) (hookId : Uuid) : Prop :=
  ∃ p ∈ db.permissions, p.apiKeyId = keyId ∧ p.hookId = hookId ∧ p.has v = true

instance (db : Database) (keyId : Uuid) (v : Verb) (hookId : Uuid) :
    Decidable (db.Holds keyId v hookId) :=
  inferInstanceAs (Decidable (∃ p ∈ db.permissions, _))

/-- A key holds a global scope. -/
def Database.HoldsScope (db : Database) (keyId : Uuid) (s : Scope) : Prop :=
  ∃ key ∈ db.apiKeys, key.id = keyId ∧ key.has s = true

instance (db : Database) (keyId : Uuid) (s : Scope) : Decidable (db.HoldsScope keyId s) :=
  inferInstanceAs (Decidable (∃ key ∈ db.apiKeys, _))

/-- A hook that runs as an account of its own. -/
def Hook.Privileged (hook : Hook) : Prop := Executor.effectiveRunAsUser hook.runAsUser ≠ none

theorem Database.holds_of_permissionOf {db : Database} {keyId hookId : Uuid} {row : Permission}
    {v : Verb} (hrow : db.permissionOf keyId hookId = some row) (hv : row.has v = true) :
    db.Holds keyId v hookId := by
  obtain ⟨hmem, hkey, hhook⟩ := permissionOf_mem hrow
  exact ⟨row, hmem, hkey, hhook, hv⟩

/-! ### Verbs -/

/-- Nobody holds a verb in `b` it did not hold in `a`. -/
def NoVerbGained (a b : Database) : Prop := ∀ T v h, b.Holds T v h → a.Holds T v h

theorem noVerbGained_refl (db : Database) : NoVerbGained db db := fun _ _ _ h => h

theorem NoVerbGained.trans {a b c : Database} (hab : NoVerbGained a b) (hbc : NoVerbGained b c) :
    NoVerbGained a c := fun T v h hc => hab T v h (hbc T v h hc)

theorem noVerbGained_of_subset {a b : Database} (h : b.permissions ⊆ a.permissions) :
    NoVerbGained a b := by
  rintro T v hook ⟨p, hp, hrest⟩
  exact ⟨p, h hp, hrest⟩

/-- Only an upsert of a permission row can give a verb. -/
theorem Stmt.exec_noVerbGained {β : Type} (s : Stmt β) (db : Database)
    (hs : s.write? ≠ some .upsertPermission) : NoVerbGained db (s.exec db).2 := by
  refine noVerbGained_of_subset ?_
  have hother : (∀ k ∈ s.write?, Table.permissions ∉ k.tables) →
      (s.exec db).2.permissions ⊆ db.permissions := fun h =>
    (s.exec_agree (t := .permissions) db h).symm ▸ List.Subset.refl _
  cases s with
  | upsertPermission row columns => simp [Stmt.write?] at hs
  | deleteApiKeys c => exact List.filter_subset_self _
  | deleteHooks c => exact List.filter_subset_self _
  | deletePermissions c => exact List.filter_subset_self _
  | _ => exact hother (by simp [Stmt.write?, Write.tables])

/-- What an upsert gives: the verbs of its row, to its key, on its hook. -/
theorem Database.holds_upsertPermission {db : Database} {row : Permission}
    {columns : List PermissionColumn} {T h : Uuid} {v : Verb}
    (hholds : (db.upsertPermission row columns).2.Holds T v h) :
    db.Holds T v h ∨ T = row.apiKeyId ∧ h = row.hookId ∧ row.has v = true := by
  unfold Database.upsertPermission at hholds
  dsimp only at hholds
  split at hholds
  · obtain ⟨q, hq, rfl, rfl, hv⟩ := hholds
    obtain ⟨p, hp, rfl⟩ := List.mem_map.mp hq
    by_cases hsame : (p.apiKeyId == row.apiKeyId && p.hookId == row.hookId) = true
    · rw [if_pos hsame] at hv ⊢
      obtain ⟨hkey, hhook⟩ := Bool.and_eq_true_iff.mp hsame
      by_cases hold : p.has v = true
      · exact .inl ⟨p, hp, rfl, rfl, hold⟩
      · refine .inr ⟨by simpa using hkey, by simpa using hhook, ?_⟩
        cases v <;> simp only [Permission.has, overwritePermission] at hv hold ⊢ <;>
          split at hv <;> first | exact hv | exact absurd hv hold
    · rw [if_neg hsame] at hv ⊢
      exact .inl ⟨p, hp, rfl, rfl, hv⟩
  · split at hholds
    · exact .inl hholds
    · split at hholds
      · obtain ⟨p, hp, rfl, rfl, hv⟩ := hholds
        rcases List.mem_append.mp hp with hp | hp
        · exact .inl ⟨p, hp, rfl, rfl, hv⟩
        · rw [List.mem_singleton.mp hp] at hv ⊢
          exact .inr ⟨rfl, rfl, hv⟩
      · exact .inl hholds

theorem Handler.run_noVerbGained {W : List Write} {α : Type} {p : Handler α}
    (hp : p.Emits (WritesAmong W)) (hW : Write.upsertPermission ∉ W) (w : World) :
    NoVerbGained w.db (p.run Op.exec w).2.db :=
  Handler.run_db_rel hp (fun _ s k hs hk db => s.exec_noVerbGained db fun he => by
      rw [hs, Option.some_inj] at he
      exact hW (he ▸ hk))
    noVerbGained_refl NoVerbGained.trans w

/-! ### Scopes -/

/-- Nobody holds a scope in `b` it did not hold in `a`. -/
def NoScopeGained (a b : Database) : Prop := ∀ T s, b.HoldsScope T s → a.HoldsScope T s

theorem noScopeGained_of_agree {a b : Database} (h : Agree .apiKeys a b) : NoScopeGained a b := by
  rintro T s ⟨key, hkey, hrest⟩
  exact ⟨key, h ▸ hkey, hrest⟩

/-- A statement whose row or columns turn no scope on. -/
def Stmt.GrantsNoScope : {β : Type} → Stmt β → Prop
  | _, insertApiKey row => ∀ s, row.has s = false
  | _, updateApiKey _ u => u.canManageKeys ≠ some true ∧ u.canManageHooks ≠ some true
  | _, _ => True

def Op.GrantsNoScope : (β : Type) → Op β → Prop
  | _, .db s => s.GrantsNoScope
  | _, _ => True

theorem ApiKeyUpdate.apply_has {u : ApiKeyUpdate} {key : ApiKey} {s : Scope}
    (hkeys : u.canManageKeys ≠ some true) (hhooks : u.canManageHooks ≠ some true)
    (h : (u.apply key).has s = true) : key.has s = true := by
  cases s with
  | master => exact h
  | manageKeys =>
    cases hu : u.canManageKeys with
    | none => simpa [ApiKey.has, ApiKeyUpdate.apply, hu] using h
    | some on => cases on <;> simp_all [ApiKey.has, ApiKeyUpdate.apply]
  | manageHooks =>
    cases hu : u.canManageHooks with
    | none => simpa [ApiKey.has, ApiKeyUpdate.apply, hu] using h
    | some on => cases on <;> simp_all [ApiKey.has, ApiKeyUpdate.apply]

theorem Stmt.exec_noScopeGained {β : Type} (s : Stmt β) (db : Database) (hs : s.GrantsNoScope) :
    NoScopeGained db (s.exec db).2 := by
  have hother : (∀ k ∈ s.write?, Table.apiKeys ∉ k.tables) → NoScopeGained db (s.exec db).2 :=
    fun h => noScopeGained_of_agree (s.exec_agree db h)
  cases s with
  | insertApiKey row =>
    rintro T v ⟨key, hkey, rfl, hv⟩
    simp only [Stmt.exec, Database.insertApiKey] at hkey
    split at hkey
    · exact ⟨key, hkey, rfl, hv⟩
    · rcases List.mem_append.mp hkey with hkey | hkey
      · exact ⟨key, hkey, rfl, hv⟩
      · rw [List.mem_singleton.mp hkey, hs v] at hv
        cases hv
  | updateApiKey id u =>
    rintro T v ⟨key, hkey, rfl, hv⟩
    simp only [Stmt.exec, Database.updateApiKey] at hkey
    split at hkey
    · exact ⟨key, hkey, rfl, hv⟩
    · split at hkey
      · exact ⟨key, hkey, rfl, hv⟩
      · obtain ⟨k, hk, rfl⟩ := List.mem_map.mp hkey
        by_cases hkid : (k.id == id) = true
        · rw [if_pos hkid] at hv ⊢
          exact ⟨k, hk, rfl, ApiKeyUpdate.apply_has hs.1 hs.2 hv⟩
        · rw [if_neg hkid] at hv ⊢
          exact ⟨k, hk, rfl, hv⟩
  | deleteApiKeys c =>
    rintro T v ⟨key, hkey, hrest⟩
    exact ⟨key, (List.mem_filter.mp hkey).1, hrest⟩
  | _ => exact hother (by simp [Stmt.write?, Write.tables])

theorem Handler.run_noScopeGained {α : Type} {p : Handler α} (hp : p.Emits Op.GrantsNoScope)
    (w : World) : NoScopeGained w.db (p.run Op.exec w).2.db := by
  refine (hp.mono ?_).run_rel (R := fun v v' : World => NoScopeGained v.db v'.db)
    (fun _ _ _ h => h) (fun h h' T s hs => h T s (h' T s hs)) w
  intro γ q hq v
  rw [Op.exec_db]
  cases q with
  | db s => exact s.exec_noScopeGained v.db hq
  | _ => exact fun _ _ h => h

/-- Statements of the other kinds grant no scope whatever they say. -/
theorem WritesAmong.grantsNoScope {W : List Write} (hinsert : Write.insertApiKey ∉ W)
    (hupdate : Write.updateApiKey ∉ W) (β : Type) (q : Op β) (hq : WritesAmong W β q) :
    q.GrantsNoScope := by
  cases q with
  | db s =>
    cases s with
    | insertApiKey row => exact absurd (hq _ rfl) hinsert
    | updateApiKey id u => exact absurd (hq _ rfl) hupdate
    | _ => trivial
  | _ => trivial

theorem grantsNoScope_of_writes {W : List Write} {α : Type} {p : Handler α}
    (hp : p.Emits (WritesAmong W)) (hinsert : Write.insertApiKey ∉ W)
    (hupdate : Write.updateApiKey ∉ W) : p.Emits Op.GrantsNoScope :=
  hp.mono (WritesAmong.grantsNoScope hinsert hupdate)

section Ordinary

variable {key : ApiKey}

/-- A request of a key that is not the master turns no scope on. -/
theorem handleAdmin_grantsNoScope (hkey : key.isMaster = false) (ctx : Context)
    (request : AdminRequest) : (handleAdmin ctx key request).Emits Op.GrantsNoScope := by
  have hreads : ∀ {α : Type} {p : Handler α}, p.Emits (WritesAmong []) →
      p.Emits Op.GrantsNoScope := fun hp => grantsNoScope_of_writes hp (by decide) (by decide)
  have haudit : ∀ {α : Type} {p : Handler α}, p.Emits (WritesAmong [.insertAuditLog]) →
      p.Emits Op.GrantsNoScope := fun hp => grantsNoScope_of_writes hp (by decide) (by decide)
  cases request with
  | createApiKey payload =>
    refine .map _ (Program.emits_ofExcept_bind fun _ hvalid =>
      .bind (Program.emits_ofExcept _) fun pair => .bind ?_ fun _ =>
        haudit (.bind (createAuditLog_writes (by decide) _ _ _ _ _ _) fun _ => trivial))
    obtain ⟨-, hscopes, -⟩ := validateCreateApiKey_ok hvalid
    obtain ⟨hk, hh⟩ := hscopes.resolve_left (by simp [hkey])
    rw [emits_sql]
    intro s
    cases s with
    | master => rfl
    | manageKeys => exact hk
    | manageHooks => exact hh
  | updateApiKey id payload =>
    refine .map _ (.bind (Program.emits_ofExcept _) fun _ =>
      .bind (hreads (loadAdministrableKey_writes _ _)) fun target =>
        Program.emits_ofExcept_bind fun _ hvalid => .bind ?_ fun _ =>
          haudit ((createAuditLog_writes (by decide) _ _ _ _ _ _).bind fun _ =>
            buildApiKeySummary_writes _))
    simp only [validateUpdateApiKey, Except.bind_eq_ok_iff] at hvalid
    obtain ⟨_, -, _, -, _, hscopes, -⟩ := hvalid
    obtain ⟨hk, hh⟩ := (guardMasterToGrantScopes_ok hscopes).resolve_left (by simp [hkey])
    rw [emits_sql]
    constructor
    · intro h
      simp only [apiKeyChanges] at h
      simp [h] at hk
    · intro h
      simp only [apiKeyChanges] at h
      simp [h] at hh
  | rotateApiKey id =>
    exact .map _ (.bind (hreads (loadReissuableKey_writes _ _ _)) fun _ =>
      .bind (Program.emits_ofExcept _) fun _ => .bind (by simp [Op.GrantsNoScope,
        Stmt.GrantsNoScope, bearerColumns]) fun _ =>
      haudit ((createAuditLog_writes (by decide) _ _ _ _ _ _).bind fun _ => trivial))
  | regenerateKey id =>
    exact .map _ (.bind (hreads (loadReissuableKey_writes _ _ _)) fun _ =>
      .bind (by simp [Op.GrantsNoScope, Stmt.GrantsNoScope, bearerColumns]) fun _ =>
      haudit ((createAuditLog_writes (by decide) _ _ _ _ _ _).bind fun _ => trivial))
  | regenerateSecret id =>
    exact .map _ (.bind (hreads (loadReissuableKey_writes _ _ _)) fun _ =>
      .bind (Program.emits_ofExcept _) fun _ => .bind (by simp [Op.GrantsNoScope,
        Stmt.GrantsNoScope]) fun _ =>
      haudit ((createAuditLog_writes (by decide) _ _ _ _ _ _).bind fun _ => trivial))
  | _ =>
    exact grantsNoScope_of_writes (handleAdmin_writes ctx key _) (by simp [AdminRequest.writes])
      (by simp [AdminRequest.writes])

end Ordinary

/-! ### The two requests that give verbs -/

/-- A hook that was not there before and belongs to the key afterwards. -/
structure CreatedBy (key : ApiKey) (hookId : Uuid) (before after : Database) : Prop where
  fresh : hookId ∉ before.hookIds
  owned : ∃ hook ∈ after.hooks, hook.id = hookId ∧ hook.ownerKeyId = some key.id

/-- Every verb gained is the key's own, on a hook it created. -/
def OnlyOnCreated (key : ApiKey) (before after : Database) : Prop :=
  ∀ T v h, after.Holds T v h → before.Holds T v h ∨ T = key.id ∧ CreatedBy key h before after

/-- What a key that hands a verb on has of it itself, and to whom it may. -/
structure MayHandOn (db : Database) (key : ApiKey) (T : Uuid) (v : Verb) (hookId : Uuid) :
    Prop where
  verb : db.Holds key.id v hookId
  manage : db.Holds key.id .manage hookId
  scope : db.HoldsScope key.id .manageKeys
  notSelf : T ≠ key.id
  notMaster : ¬db.HoldsScope T .master
  unprivileged : ∀ hook ∈ db.hooks, hook.id = hookId → ¬hook.Privileged

section Verbs

variable {w : World} {key : ApiKey}

/-- The insert of a hook adds its row, or refuses and leaves the world alone. -/
theorem insertNewHook_run (row : Hook) (w : World) :
    ((∀ g ∈ w.db.hooks, g.id ≠ row.id ∧ g.name ≠ row.name) ∧ (insertNewHook row).run Op.exec w =
        (.ok (), { w with db := { w.db with hooks := w.db.hooks ++ [row] } })) ∨
      ((∃ g ∈ w.db.hooks, g.id = row.id ∨ g.name = row.name) ∧
        ∃ trashed, (insertNewHook row).run Op.exec w =
          (.error (nameConflict row.name trashed), w)) := by
  by_cases hcollides : (w.db.hooks.any fun g => g.id == row.id || g.name == row.name) = true
  · refine .inr ⟨by simpa using hcollides, ?_⟩
    simp only [insertNewHook, Program.bind_eq, Program.run_bind, Handler.exec_trySql, Stmt.exec,
      Database.insertHook, hcollides, if_true, Program.map_eq, Handler.exec_sql,
      Except.mapError, Program.run_pure, Program.run_fail]
    exact ⟨_, rfl⟩
  · refine .inl ⟨by simpa using hcollides, ?_⟩
    simp [insertNewHook, Program.run_bind, Stmt.exec, Database.insertHook, hcollides]

theorem createHook_verbs (ctx : Context) (payload : CreateHookPayload) (w : World) :
    OnlyOnCreated key w.db ((createHook ctx key payload).run Op.exec w).2.db := by
  refine Program.run_bind_read (K := fun t : World => OnlyOnCreated key w.db t.db) (by simp)
    (fun _ _ _ hh => .inl hh) fun checked _ => ?_
  set row := newHook ctx key payload checked with hrow
  rcases insertNewHook_run row w with ⟨hfree, hrun⟩ | ⟨-, _, hrun⟩
  · rw [Program.bind_eq, Program.run_bind_ok hrun]
    have hfresh : row.id ∉ w.db.hookIds := by
      intro hmem
      obtain ⟨g, hg, hid⟩ := List.mem_map.mp hmem
      exact (hfree g hg).1 hid
    -- the hook stays in place whatever becomes of the rest
    have hkeep : ∀ {W : List Write} {α : Type} {p : Handler α} {t : World},
        p.Emits (WritesAmong W) → (∀ k ∈ W, Table.hooks ∉ k.tables) →
        row ∈ t.db.hooks → row ∈ (p.run Op.exec t).2.db.hooks :=
      fun hp hW ht => (Handler.run_agree (t := .hooks) hp hW _).symm ▸ ht
    have hcreated : ∀ {T h : Uuid} {db : Database}, row ∈ db.hooks → T = key.id ∧ h = row.id →
        T = key.id ∧ CreatedBy key h w.db db :=
      fun hmem ⟨hT, hid⟩ => ⟨hT, hid ▸ hfresh, row, hmem, hid.symm, rfl⟩
    refine Program.run_bind_post
      (J := fun t : World => row ∈ t.db.hooks ∧ NoVerbGained w.db t.db)
      (K := fun t : World => OnlyOnCreated key w.db t.db)
      ⟨hkeep (W := [.insertHookParameter]) (insertDeclared_writes (by decide) _ _ _ _)
        (by decide) (List.mem_append_right _ (List.mem_singleton_self _)),
        Handler.run_noVerbGained (W := [.insertHookParameter])
          (insertDeclared_writes (by decide) _ _ _ _) (by decide) _⟩
      (fun t ht T v h hh => .inl (ht.2 T v h hh)) fun _ t _ ht => ?_
    refine Program.run_bind_post
      (J := fun t : World => row ∈ t.db.hooks ∧ ∀ T v h, t.db.Holds T v h →
        w.db.Holds T v h ∨ T = key.id ∧ h = row.id)
      (K := fun t : World => OnlyOnCreated key w.db t.db) ?_
      (fun t ht T v h hh => (ht.2 T v h hh).imp_right (hcreated ht.1)) fun _ t _ ht => ?_
    · refine ⟨hkeep (W := [.upsertPermission]) (emits_write rfl (by decide)) (by decide) ht.1, ?_⟩
      intro T v h hh
      rw [grantFullHookPermission, run_sql_snd] at hh
      rcases Database.holds_upsertPermission hh with hold | ⟨hT, hid, -⟩
      · exact .inl (ht.2 T v h hold)
      · exact .inr ⟨hT, hid⟩
    · have hrest : ∀ {α : Type} {p : Handler α}, p.Emits (WritesAmong [.insertAuditLog]) →
          OnlyOnCreated key w.db (p.run Op.exec t).2.db := fun hp T v h hh =>
        (ht.2 T v h (Handler.run_noVerbGained hp (by decide) t T v h hh)).imp_right
          (hcreated (hkeep hp (by decide) ht.1))
      exact hrest (.bind (createAuditLog_writes (by decide) _ _ _ _ _ _) fun _ =>
        .bind (findHookById_writes _) fun _ => .bind (emits_orElse _ _) fun _ =>
        buildHookDetail_writes _ _)
  · rw [Program.bind_eq, Program.run_bind_error hrun]
    exact fun _ _ _ hh => .inl hh

/-- The verbs a write turns on. -/
def HookPermInput.asks (payload : HookPermInput) : Verb → Bool
  | .view => payload.canViewExecution
  | .execute => payload.canExecute
  | .manage => payload.canManage

theorem isPermissionReduction_asks {existing : Option Permission} {payload : HookPermInput}
    (h : isPermissionReduction existing payload.canExecute payload.canManage
      payload.canViewExecution = true) {v : Verb} (hv : payload.asks v = true) :
    existing.any (·.has v) = true := by
  cases v <;> simp_all [isPermissionReduction, HookPermInput.asks, Permission.has]

theorem grantOverreach_asks {held : Permission} {payload : HookPermInput}
    (h : grantOverreach held payload.canExecute payload.canManage payload.canViewExecution = none)
    {v : Verb} (hv : payload.asks v = true) : held.has v = true := by
  cases v <;> simp_all [grantOverreach, HookPermInput.asks, Permission.has]

/-- A key that is not the master writes a row only to take verbs away, or to
hand on verbs it holds, on a hook it manages, to another key. -/
theorem guardPermissionWrite_ok {id : Uuid} {hook : Hook} {payload : HookPermInput} {w' : World}
    (hkey : key.isMaster = false)
    (h : (guardPermissionWrite key id hook (w.db.permissionOf id hook.id) payload).run Op.exec w =
      (.ok (), w')) :
    w' = w ∧ ((∀ v, payload.asks v = true → w.db.Holds id v hook.id) ∨
      id ≠ key.id ∧ key.canManageKeys = true ∧ w.db.Holds key.id .manage hook.id ∧
        ∀ v, payload.asks v = true → w.db.Holds key.id v hook.id) := by
  simp only [guardPermissionWrite, hkey, Bool.false_eq_true, if_false] at h
  split at h
  · rename_i hreduction
    simp only [Program.bind_eq, Program.pure_eq, Program.run_bind_eq_ok_iff,
      guardHookManageConjunction_ok, Program.run_pure] at h
    obtain ⟨_, _, ⟨rfl, -⟩, hret⟩ := h
    cases hret
    refine ⟨rfl, .inl fun v hv => ?_⟩
    obtain ⟨row, hrow, hhas⟩ := (Option.any_eq_true _ _).mp
      (isPermissionReduction_asks hreduction hv)
    exact Database.holds_of_permissionOf hrow hhas
  · simp only [Program.bind_eq, Program.run_bind_eq_ok_iff, Program.run_require,
      guardDelegatedHookGrant, hkey, Bool.false_eq_true, if_false,
      guardHookManageConjunction_ok] at h
    obtain ⟨_, _, hself, held, _, ⟨rfl, hrow, hkeys, hmanage⟩, hgrant⟩ := h
    by_cases hid : id ≠ key.id
    · rw [if_pos hid] at hself
      obtain ⟨-, rfl⟩ := Prod.mk.inj hself
      cases hover : grantOverreach held payload.canExecute payload.canManage
          payload.canViewExecution with
      | some verb => simp [hover] at hgrant
      | none =>
        simp only [hover, Program.pure_eq, Program.run_pure, Prod.mk.injEq] at hgrant
        obtain ⟨-, rfl⟩ := hgrant
        refine ⟨rfl, .inr ⟨hid, hkeys, Database.holds_of_permissionOf hrow hmanage, fun v hv => ?_⟩⟩
        exact Database.holds_of_permissionOf hrow (grantOverreach_asks hover hv)
    · rw [if_neg hid] at hself
      cases hself

theorem guardMasterForPrivilegedHook_ok {hook : Hook} {action : String}
    (hkey : key.isMaster = false)
    (h : guardMasterForPrivilegedHook key hook action = .ok ()) : ¬hook.Privileged := by
  unfold guardMasterForPrivilegedHook at h
  unfold Hook.Privileged
  cases hrun : Executor.effectiveRunAsUser hook.runAsUser with
  | none => simp
  | some user => simp [hkey, hrun] at h

/-- Every verb gained was handed on by a key that may. -/
def OnlyHandedOn (key : ApiKey) (before after : Database) : Prop :=
  ∀ T v h, after.Holds T v h → before.Holds T v h ∨ MayHandOn before key T v h

theorem OnlyHandedOn.read {α β : Type} {p : Handler α} {f : α → Handler β}
    (hread : (p.run Op.exec w).2 = w)
    (hf : ∀ a, p.run Op.exec w = (.ok a, w) →
      OnlyHandedOn key w.db ((f a).run Op.exec w).2.db) :
    OnlyHandedOn key w.db ((p.bind f).run Op.exec w).2.db :=
  Program.run_bind_read (K := fun t : World => OnlyHandedOn key w.db t.db) hread
    (fun _ _ _ hh => .inl hh) hf

theorem updateKeyHookPermissions_verbs (hw : w.Sound) (hmem : key ∈ w.db.apiKeys)
    (hkey : key.isMaster = false) (ctx : Context) (id : Uuid) (payload : HookPermInput) :
    OnlyHandedOn key w.db ((updateKeyHookPermissions ctx key id payload).run Op.exec w).2.db := by
  refine .read (run_hasPermissionAdminStanding_snd key w) fun _ _ => ?_
  refine .read (by simp) fun _ _ => .read (by simp) fun found hfound => ?_
  refine .read (by simp) fun target htarget => ?_
  refine .read (run_keyVisibility_snd key target w) fun _ _ => ?_
  refine .read (by simp) fun _ _ => .read (by simp) fun _ hplain => ?_
  refine .read (by simp) fun identifier _ => .read (by simp) fun hook hhook => ?_
  refine .read (by simp) fun existing hexisting => ?_
  obtain rfl : w.db.permissionOf id hook.id = existing := by simpa using hexisting
  have htarget : w.db.apiKeyById id = some target := by
    obtain rfl : w.db.apiKeyById id = found := by simpa using hfound
    cases hkeyById : w.db.apiKeyById id with
    | none => simp [hkeyById] at htarget
    | some k => simpa [hkeyById] using htarget
  have hordinary : target.isMaster = false := by
    by_contra hne
    simp [hne] at hplain
  refine Program.run_bind_post (J := fun t : World => t.db = w.db)
    (K := fun t : World => OnlyHandedOn key w.db t.db)
    (Handler.run_db_eq (guardPermissionWrite_writes _ _ _ _ _) w)
    (fun t ht T v h hh => .inl (ht ▸ hh)) fun _ t hguard _ => ?_
  obtain ⟨rfl, hmay⟩ := guardPermissionWrite_ok hkey hguard
  refine .read (by simp) fun _ hprivileged => ?_
  have hunprivileged : ¬hook.Privileged :=
    guardMasterForPrivilegedHook_ok hkey (by simpa using hprivileged)
  obtain ⟨hhookMem, -⟩ := Database.resolveLive_mem (run_resolveHook_ok.mp hhook).2
  obtain ⟨htargetMem, rfl⟩ := Database.apiKeyById_mem htarget
  have hgain : OnlyHandedOn key t.db (t.db.upsertPermission
      { id := ctx.draws.uuid 0, apiKeyId := target.id, hookId := hook.id
        canExecute := payload.canExecute, canManage := payload.canManage
        canViewExecution := payload.canViewExecution, createdAt := ctx.draws.now 0 }
      [.canExecute, .canManage, .canViewExecution]).2 := by
    intro T v h hh
    rcases Database.holds_upsertPermission hh with hold | ⟨rfl, rfl, hv⟩
    · exact .inl hold
    have hasks : payload.asks v = true := by
      cases v <;> exact hv
    rcases hmay with hheld | ⟨hself, hkeys, hmanage, hverbs⟩
    · exact .inl (hheld v hasks)
    · refine .inr ⟨hverbs v hasks, hmanage, ⟨key, hmem, rfl, hkeys⟩, hself, ?_, ?_⟩
      · rintro ⟨k, hk, hkid, hmaster⟩
        obtain rfl := hw.wellFormed.eq_of_id hk htargetMem hkid
        simp [ApiKey.has, hordinary] at hmaster
      · intro g hg hgid
        rwa [hw.wellFormed.hook_eq_of_id hg hhookMem hgid]
  refine Program.run_bind_post (J := fun v : World => OnlyHandedOn key t.db v.db)
    (K := fun v : World => OnlyHandedOn key t.db v.db) (by rw [run_sql_snd]; exact hgain)
    (fun _ h => h) fun _ v _ hv T verb h hh => ?_
  exact hv T verb h (Handler.run_noVerbGained (W := [.insertAuditLog])
    (createAuditLog_writes (by decide) _ _ _ _ _ _) (by decide) v T verb h hh)

end Verbs

/-! ### Over any request -/

/-- How a key comes to hold a verb through a request of a key that is not the
master: by creating the hook, or by being handed what the other holds. -/
theorem handle_verbs {w : World} {key : ApiKey} (hw : w.Sound) (hmem : key ∈ w.db.apiKeys)
    (hkey : key.isMaster = false) (ctx : Context) {a : Authenticated}
    (hcaller : a.caller = some key) {T h : Uuid} {v : Verb}
    (hholds : ((a.handle ctx).run Op.exec w).2.db.Holds T v h) :
    w.db.Holds T v h ∨
      (T = key.id ∧ (∃ payload, a = .admin key (.createHook payload)) ∧
        CreatedBy key h w.db ((a.handle ctx).run Op.exec w).2.db) ∨
      MayHandOn w.db key T v h := by
  cases a with
  | invoke caller inv =>
    exact .inl (Handler.run_noVerbGained (handle_writes ctx (.invoke caller inv))
      (by simp [Authenticated.writes]) w _ _ _ hholds)
  | admin caller request =>
    obtain rfl : caller = key := by simpa [Authenticated.caller] using hcaller
    have hsame : ∀ {α β γ : Type} {p : Handler α} (f : α → β) (g : β → γ),
        ((g <$> f <$> p : Handler γ).run Op.exec w).2 = (p.run Op.exec w).2 := by
      intro α β γ p f g
      simp only [Program.map_eq, Program.run_bind]
      cases p.run Op.exec w with
      | mk r t => cases r <;> rfl
    cases request with
    | createHook payload =>
      simp only [Authenticated.handle, handleAdmin, hsame] at hholds ⊢
      exact (createHook_verbs ctx payload w _ _ _ hholds).imp_right fun hown =>
        .inl ⟨hown.1, ⟨payload, rfl⟩, hown.2⟩
    | updateKeyHookPermissions id payload =>
      simp only [Authenticated.handle, handleAdmin, hsame] at hholds ⊢
      exact (updateKeyHookPermissions_verbs hw hmem hkey ctx id payload _ _ _ hholds).imp_right
        .inr
    | _ =>
      exact .inl (Handler.run_noVerbGained (handle_writes ctx _)
        (by simp [Authenticated.writes, AdminRequest.writes]) w _ _ _ hholds)

theorem handle_scopes {w : World} {key : ApiKey} (hkey : key.isMaster = false) (ctx : Context)
    {a : Authenticated} (hcaller : a.caller = some key) :
    NoScopeGained w.db ((a.handle ctx).run Op.exec w).2.db := by
  cases a with
  | invoke caller inv =>
    exact noScopeGained_of_agree
      (Handler.run_agree (handle_writes ctx (.invoke caller inv))
        (by simp [Authenticated.writes, Write.tables]) w)
  | admin caller request =>
    obtain rfl : caller = key := by simpa [Authenticated.caller] using hcaller
    exact Handler.run_noScopeGained (.map _ (handleAdmin_grantsNoScope hkey ctx request)) w

/-- In any reachable world, a request of a key that is not the master gives
nobody a scope, and gives a verb only to its own key on a hook it created, or to
another key when the caller holds that verb, manages the hook under R2, and the
hook runs as no account of its own. -/
theorem no_amplification {state : AppState} {w w₁ : World} (hw : Reachable state w)
    {ctx : Context} {clock : AuthClock} {req : Request} {a : Authenticated} {key : ApiKey}
    (hauth : (authenticate ctx clock req).run Op.exec w = (.ok a, w₁))
    (hcaller : a.caller = some key) (hkey : key.isMaster = false) :
    (∀ T v h, ((serve ctx clock req).run Op.exec w).2.db.Holds T v h → ¬w.db.Holds T v h →
      (T = key.id ∧ (∃ payload, a = .admin key (.createHook payload)) ∧
        CreatedBy key h w.db ((serve ctx clock req).run Op.exec w).2.db) ∨
      MayHandOn w.db key T v h) ∧
    ∀ T s, ((serve ctx clock req).run Op.exec w).2.db.HoldsScope T s → w.db.HoldsScope T s := by
  have hsound := hw.sound
  have hmem := hsound.caller_mem hauth hcaller
  have hsound₁ := hsound.authenticate ctx clock req
  have hdb : w₁.db = w.db := authenticate_db hauth
  rw [hauth] at hsound₁
  rw [run_serve hauth, ← hdb]
  constructor
  · intro T v h hafter hbefore
    exact (handle_verbs hsound₁ (hdb ▸ hmem) hkey ctx hcaller hafter).resolve_left hbefore
  · exact handle_scopes hkey ctx hcaller

section Sample

open Sample

/-- The parent, who may execute and manage the hook, lets its daughter execute
it. -/
theorem no_amplification_grant :
    (serveAt 5 (.admin (signed (daughterPath ++ "/permissions") grantBody grantSignature)
      (permissionsOf 201 true false)) entrusted).db.Holds 201 .execute 301 ∧
    ¬entrusted.db.Holds 201 .execute 301 ∧ MayHandOn entrusted.db parentRow 201 .execute 301 := by
  unfold serveAt
  have hauth := authenticate_admin 5 (permissionsOf 201 true false) authMiddleware_grant
  have hafter : ((serve (ctx 5) clock (.admin (signed (daughterPath ++ "/permissions") grantBody
      grantSignature) (permissionsOf 201 true false))).run Op.exec entrusted).2.db.Holds
        201 .execute 301 := by
    rw [run_serve hauth]
    decide
  have hbefore : ¬entrusted.db.Holds 201 .execute 301 := by decide
  obtain ⟨hverbs, -⟩ := no_amplification reachable_entrusted hauth rfl rfl
  rcases hverbs 201 .execute 301 hafter hbefore with ⟨hself, -⟩ | hgrant
  · exact absurd (congrArg Fin.val hself) (by decide)
  · exact ⟨hafter, hbefore, hgrant⟩

end Sample

end HookExecutor
