import HookExecutor.Router

/-!
# What a request can write

Every statement that changes the database has a kind, and every handler has a
short list of the kinds it can ever issue, whatever the database answers it.
Whatever relation between databases those kinds respect therefore relates the
two ends of a request.
-/

namespace HookExecutor

/-- The kinds of statements that change the database. -/
inductive Write where
  | insertApiKey | updateApiKey | deleteApiKeys
  | insertHook | updateHook | updateHooks | deleteHooks
  | insertHookParameter | updateHookParameter | deleteHookParameter
  | upsertPermission | deletePermissions
  | insertExecution | deleteExecutions
  | insertAuditLog
  deriving DecidableEq

def Stmt.write? : {β : Type} → Stmt β → Option Write
  | _, insertApiKey _ => some .insertApiKey
  | _, updateApiKey _ _ => some .updateApiKey
  | _, deleteApiKeys _ => some .deleteApiKeys
  | _, insertHook _ => some .insertHook
  | _, updateHook _ _ => some .updateHook
  | _, updateHooks _ _ => some .updateHooks
  | _, deleteHooks _ => some .deleteHooks
  | _, insertHookParameter _ => some .insertHookParameter
  | _, updateHookParameter _ _ => some .updateHookParameter
  | _, deleteHookParameter _ => some .deleteHookParameter
  | _, upsertPermission _ _ => some .upsertPermission
  | _, deletePermissions _ => some .deletePermissions
  | _, insertExecution _ => some .insertExecution
  | _, deleteExecutions _ => some .deleteExecutions
  | _, insertAuditLog _ => some .insertAuditLog
  | _, _ => none

/-- A statement without a kind is a read. -/
theorem Stmt.exec_snd_of_read {β : Type} {s : Stmt β} (h : s.write? = none) (db : Database) :
    (s.exec db).2 = db := by
  cases s <;> simp_all [Stmt.write?, Stmt.exec]

/-- The operation writes to the database with one of these kinds at most. -/
def WritesAmong (W : List Write) : ∀ β, Op β → Prop
  | _, .db s => ∀ k ∈ s.write?, k ∈ W
  | _, _ => True

section Leaves

variable {W : List Write} {α β : Type}

@[simp] theorem writesAmong_db (s : Stmt β) :
    WritesAmong W _ (.db s) ↔ ∀ k ∈ s.write?, k ∈ W := Iff.rfl
@[simp] theorem writesAmong_checkAndRecord (keyId : Uuid) (digest : Bytes) (now : Instant) :
    WritesAmong W _ (.checkAndRecord keyId digest now) := trivial
@[simp] theorem writesAmong_pinnedMaster : WritesAmong W _ .pinnedMaster := trivial
@[simp] theorem writesAmong_pinMaster (id : Uuid) : WritesAmong W _ (.pinMaster id) := trivial
@[simp] theorem writesAmong_tryAcquire (keyId : Uuid) (permits : Nat) :
    WritesAmong W _ (.tryAcquire keyId permits) := trivial
@[simp] theorem writesAmong_release (permit : Permit) : WritesAmong W _ (.release permit) :=
  trivial

theorem WritesAmong.mono {W' : List Write} (hsub : W ⊆ W') (β : Type) (q : Op β)
    (h : WritesAmong W β q) : WritesAmong W' β q := by
  cases q with
  | db s => exact fun k hk => hsub (h k hk)
  | _ => trivial

@[simp] theorem emits_sql {P : ∀ β, Op β → Prop} (s : Stmt β) :
    (sql s).Emits P ↔ P _ (.db s) := by
  simp [sql]

@[simp] theorem emits_trySql {P : ∀ β, Op β → Prop} (s : Stmt β) :
    (trySql s).Emits P ↔ P _ (.db s) := by
  simp [trySql]

@[simp] theorem emits_orElse {P : ∀ β, Op β → Prop} (found : Option α) (e : AppError) :
    (orElse found e).Emits P := by
  cases found <;> trivial

/-- A write of one of the kinds allowed. -/
theorem emits_write {s : Stmt β} {k : Write} (hs : s.write? = some k) (hk : k ∈ W) :
    (sql s).Emits (WritesAmong W) := by
  simpa [hs] using hk

end Leaves

/-! ### Reads write nothing -/

section Reads

variable {W : List Write}

theorem emits_read {β : Type} {s : Stmt β} (hs : s.write? = none) :
    (sql s).Emits (WritesAmong W) := by
  simp [hs]

theorem findApiKeyById_writes (id : Uuid) : (findApiKeyById id).Emits (WritesAmong W) :=
  .map _ (emits_read rfl)

theorem findHookById_writes (id : Uuid) : (findHookById id).Emits (WritesAmong W) :=
  .map _ (emits_read rfl)

theorem hookPermission_writes (keyId hookId : Uuid) :
    (hookPermission keyId hookId).Emits (WritesAmong W) :=
  .map _ (emits_read rfl)

theorem resolveHookIncludingDeleted_writes (identifier : String) :
    (resolveHookIncludingDeleted identifier).Emits (WritesAmong W) := by
  refine .bind ?_ fun byId => ?_
  · cases Uuid.parseStr identifier with
    | none => trivial
    | some id => exact findHookById_writes id
  · cases byId with
    | none => exact .bind (.map _ (emits_read rfl)) fun _ => emits_orElse _ _
    | some _ => trivial

theorem resolveHook_writes (identifier : String) :
    (resolveHook identifier).Emits (WritesAmong W) :=
  (resolveHookIncludingDeleted_writes identifier).bind fun _ =>
    .bind (Program.emits_require _ _) fun _ => trivial

theorem loadParameters_writes (hookId : Uuid) : (loadParameters hookId).Emits (WritesAmong W) :=
  emits_read rfl

theorem guardHookManageConjunction_writes (key : ApiKey) (hookId : Uuid) :
    (guardHookManageConjunction key hookId).Emits (WritesAmong W) :=
  (hookPermission_writes _ _).bind fun _ => .bind (emits_orElse _ _) fun _ =>
    .bind (Program.emits_require _ _) fun _ => trivial

theorem guardDispatchConfiguration_writes (key : ApiKey) (hook : Hook) :
    (guardDispatchConfiguration key hook).Emits (WritesAmong W) :=
  Program.emits_unless ((guardHookManageConjunction_writes _ _).bind fun _ => trivial)

theorem guardRevocation_writes (key : ApiKey) (hook : Hook) :
    (guardRevocation key hook).Emits (WritesAmong W) :=
  Program.emits_unless ((guardHookManageConjunction_writes _ _).bind fun _ => trivial)

theorem guardManage_writes (key : ApiKey) (hook : Hook) :
    (guardManage key hook).Emits (WritesAmong W) :=
  Program.emits_unless ((guardHookManageConjunction_writes _ _).bind fun _ => trivial)

theorem guardExecute_writes (key : ApiKey) (hookId : Uuid) :
    (guardExecute key hookId).Emits (WritesAmong W) :=
  Program.emits_unless ((hookPermission_writes _ _).bind fun _ => Program.emits_require _ _)

theorem guardVisibility_writes (key : ApiKey) (hook : Hook) :
    (guardVisibility key hook).Emits (WritesAmong W) :=
  Program.emits_unless ((hookPermission_writes _ _).bind fun _ => Program.emits_require _ _)

theorem mayReadExecution_writes (key : ApiKey) (execution : Execution) :
    (mayReadExecution key execution).Emits (WritesAmong W) :=
  Program.emits_unless ((findHookById_writes _).bind fun _ =>
    Program.emits_unless ((hookPermission_writes _ _).bind fun _ => trivial))

theorem executionVisibleHookIds_writes (key : ApiKey) :
    (executionVisibleHookIds key).Emits (WritesAmong W) :=
  .bind (emits_read rfl) fun _ => .bind (emits_read rfl) fun _ => trivial

theorem visibleHookIds_writes (key : ApiKey) : (visibleHookIds key).Emits (WritesAmong W) :=
  Program.emits_unless (.bind (emits_read rfl) fun _ => .bind (emits_read rfl) fun _ => trivial)

theorem hasPermissionAdminStanding_writes (key : ApiKey) :
    (hasPermissionAdminStanding key).Emits (WritesAmong W) :=
  Program.emits_unless (Program.emits_unless (.map _ (emits_read rfl)))

theorem guardDelegatedHookGrant_writes (key : ApiKey) (hook : Hook) (e m v : Bool) :
    (guardDelegatedHookGrant key hook e m v).Emits (WritesAmong W) := by
  refine Program.emits_unless ((guardHookManageConjunction_writes _ _).bind fun held => ?_)
  cases grantOverreach held e m v <;> trivial

theorem descendantKeyIds_writes (root : Uuid) :
    (descendantKeyIds root).Emits (WritesAmong W) :=
  Walk.levels_emits (fun _ => .map _ (emits_read rfl)) root maxLevels [] [root]

theorem managedHookIds_writes (keyId : Uuid) : (managedHookIds keyId).Emits (WritesAmong W) :=
  .map _ (emits_read rfl)

theorem keyVisibility_writes (caller target : ApiKey) :
    (keyVisibility caller target).Emits (WritesAmong W) :=
  Program.emits_unless ((descendantKeyIds_writes _).bind fun _ => Program.emits_unless
    ((managedHookIds_writes _).bind fun _ => Program.emits_unless
      (.bind (emits_read rfl) fun _ => trivial)))

theorem loadAdministrableKey_writes (caller : ApiKey) (id : Uuid) :
    (loadAdministrableKey caller id).Emits (WritesAmong W) :=
  (findApiKeyById_writes _).bind fun _ => .bind (emits_orElse _ _) fun _ =>
    .bind (keyVisibility_writes _ _) fun _ => .bind (Program.emits_require _ _) fun _ => trivial

end Reads

/-! ### The kinds each handler writes with -/

section Handlers

variable {W : List Write}

theorem createAuditLog_writes (hk : Write.insertAuditLog ∈ W) (ctx : Context) (key : ApiKey)
    (draw : Nat) (action : String) (targetResource details : Option String) :
    (createAuditLog ctx key draw action targetResource details).Emits (WritesAmong W) :=
  emits_write rfl hk

theorem buildHookDetail_writes (key : ApiKey) (model : Hook) :
    (buildHookDetail key model).Emits (WritesAmong W) :=
  (loadParameters_writes _).bind fun _ =>
    .bind (Program.emits_unless (hookPermission_writes _ _)) fun _ => trivial

theorem hookDetails_writes (key : ApiKey) (hooks : List Hook) :
    (hookDetails key hooks).Emits (WritesAmong W) := by
  induction hooks with
  | nil => trivial
  | cons hook rest ih =>
    exact (buildHookDetail_writes _ _).bind fun _ => ih.bind fun _ => trivial

theorem insertNewHook_writes (hk : Write.insertHook ∈ W) (row : Hook) :
    (insertNewHook row).Emits (WritesAmong W) := by
  refine .bind (p := trySql _) (by simpa [Stmt.write?] using hk) fun inserted => ?_
  cases inserted with
  | ok _ => trivial
  | error err =>
    cases err with
    | uniqueConstraintViolation => exact .bind (.map _ (emits_read rfl)) fun _ => trivial
    | _ => trivial

theorem insertParameter_writes (hk : Write.insertHookParameter ∈ W) (row : HookParameter)
    (duplicate : AppError) : (insertParameter row duplicate).Emits (WritesAmong W) := by
  refine .bind (p := trySql _) (by simpa [Stmt.write?] using hk) fun inserted => ?_
  cases inserted with
  | ok _ => trivial
  | error err => cases err <;> trivial

theorem insertDeclared_writes (hk : Write.insertHookParameter ∈ W) (ctx : Context)
    (hookId : Uuid) (declared : List ParameterInput) (draw : Nat) :
    (insertDeclared ctx hookId draw declared).Emits (WritesAmong W) := by
  induction declared generalizing draw with
  | nil => trivial
  | cons param rest ih => exact (insertParameter_writes hk _ _).bind fun _ => ih _

theorem createHook_writes (ctx : Context) (key : ApiKey) (payload : CreateHookPayload) :
    (createHook ctx key payload).Emits
      (WritesAmong [.insertHook, .insertHookParameter, .upsertPermission, .insertAuditLog]) :=
  .bind (Program.emits_ofExcept _) fun _ => .bind (insertNewHook_writes (by decide) _) fun _ =>
    .bind (insertDeclared_writes (by decide) _ _ _ _) fun _ =>
    .bind (emits_write rfl (by decide)) fun _ =>
    .bind (createAuditLog_writes (by decide) _ _ _ _ _ _) fun _ =>
    .bind (findHookById_writes _) fun _ => .bind (emits_orElse _ _) fun _ =>
    buildHookDetail_writes _ _

theorem requestedOwner_writes (key : ApiKey) (payload : UpdateHookPayload) :
    (requestedOwner key payload).Emits (WritesAmong W) := by
  unfold requestedOwner
  cases payload.ownerKeyId with
  | none => trivial
  | some owner =>
    exact .bind (Program.emits_require _ _) fun _ => .bind (findApiKeyById_writes _) fun _ =>
      Program.emits_require _ _

theorem guardUpdateHook_writes (key : ApiKey) (model : Hook) (payload : UpdateHookPayload) :
    (guardUpdateHook key model payload).Emits (WritesAmong W) := by
  refine (guardManage_writes _ _).bind fun _ => .bind ?_ fun _ =>
    .bind (Program.emits_ofExcept _) fun _ => .bind (Program.emits_ofExcept _) fun _ =>
    .bind ?_ fun _ => (requestedOwner_writes _ _).bind fun _ => trivial
  · cases touchesDispatch payload with
    | true => exact guardDispatchConfiguration_writes _ _
    | false => trivial
  · cases payload.name.isSome with
    | true => exact Program.emits_ofExcept _
    | false => trivial

theorem writeHookUpdate_writes (hk : Write.updateHook ∈ W) (id : Uuid) (u : HookUpdate) :
    (writeHookUpdate id u).Emits (WritesAmong W) := by
  refine .bind (p := trySql _) (by simpa [Stmt.write?] using hk) fun updated => ?_
  cases updated with
  | ok _ => trivial
  | error err => cases err <;> trivial

theorem updateHook_writes (ctx : Context) (key : ApiKey) (identifier : String)
    (payload : UpdateHookPayload) :
    (updateHook ctx key identifier payload).Emits (WritesAmong [.updateHook, .insertAuditLog]) :=
  (resolveHook_writes _).bind fun _ => (guardUpdateHook_writes _ _ _).bind fun _ =>
    .bind (Program.emits_ofExcept _) fun _ => .bind (Program.emits_ofExcept _) fun _ =>
    (loadParameters_writes _).bind fun _ => .bind (Program.emits_ofExcept _) fun _ =>
    (writeHookUpdate_writes (by decide) _ _).bind fun _ =>
    (createAuditLog_writes (by decide) _ _ _ _ _ _).bind fun _ => buildHookDetail_writes _ _

theorem resolveEither_writes (c : Bool) (identifier : String) :
    (if c then resolveHookIncludingDeleted identifier
      else resolveHook identifier).Emits (WritesAmong W) := by
  cases c with
  | true => exact resolveHookIncludingDeleted_writes _
  | false => exact resolveHook_writes _

theorem deleteHook_writes (ctx : Context) (key : ApiKey) (identifier : String)
    (query : DeleteHookQuery) :
    (deleteHook ctx key identifier query).Emits
      (WritesAmong [.deleteHooks, .updateHooks, .insertAuditLog]) := by
  refine (resolveEither_writes (query.hard.getD false) _).bind fun model =>
    (guardManage_writes _ _).bind fun _ => .bind (Program.emits_ofExcept _) fun _ =>
    .bind (Program.emits_ofExcept _) fun _ => ?_
  cases query.hard.getD false with
  | true =>
    exact .bind (Program.emits_require _ _) fun _ => .bind (emits_write rfl (by decide)) fun _ =>
      .bind (Program.emits_require _ _) fun _ => createAuditLog_writes (by decide) _ _ _ _ _ _
  | false =>
    exact .bind (emits_write rfl (by decide)) fun _ =>
      .bind (Program.emits_require _ _) fun _ => createAuditLog_writes (by decide) _ _ _ _ _ _

theorem restoreHook_writes (ctx : Context) (key : ApiKey) (identifier : String) :
    (restoreHook ctx key identifier).Emits (WritesAmong [.updateHook, .insertAuditLog]) :=
  .bind (Program.emits_require _ _) fun _ => (resolveHookIncludingDeleted_writes _).bind fun _ =>
    .bind (Program.emits_require _ _) fun _ => .bind (emits_write rfl (by decide)) fun _ =>
    (createAuditLog_writes (by decide) _ _ _ _ _ _).bind fun _ =>
    (findHookById_writes _).bind fun _ => .bind (emits_orElse _ _) fun _ =>
    buildHookDetail_writes _ _

theorem purgeExpiredDeletedHooks_writes (now : DateTime) (days : Int)
    (hk : Write.deleteHooks ∈ W) :
    (purgeExpiredDeletedHooks now days).Emits (WritesAmong W) :=
  Program.emits_unless (.bind (Program.emits_ofExcept _) fun _ => emits_write rfl hk)

theorem purgeExpiredExecutions_writes (now : DateTime) (days : Int)
    (hk : Write.deleteExecutions ∈ W) :
    (purgeExpiredExecutions now days).Emits (WritesAmong W) :=
  Program.emits_unless (.bind (Program.emits_ofExcept _) fun _ => emits_write rfl hk)

theorem purgeDeletedHooks_writes (ctx : Context) (key : ApiKey) (query : PurgeQuery) :
    (purgeDeletedHooks ctx key query).Emits (WritesAmong [.deleteHooks, .insertAuditLog]) :=
  .bind (Program.emits_require _ _) fun _ => .bind (Program.emits_ofExcept _) fun _ =>
    (purgeExpiredDeletedHooks_writes _ _ (by decide)).bind fun _ =>
    (createAuditLog_writes (by decide) _ _ _ _ _ _).bind fun _ => trivial

theorem createHookParameter_writes (ctx : Context) (key : ApiKey) (identifier : String)
    (payload : ParameterInput) :
    (createHookParameter ctx key identifier payload).Emits
      (WritesAmong [.insertHookParameter, .insertAuditLog]) :=
  (resolveHook_writes _).bind fun _ => (guardManage_writes _ _).bind fun _ =>
    .bind (Program.emits_ofExcept _) fun _ => .bind (Program.emits_require _ _) fun _ =>
    (insertParameter_writes (by decide) _ _).bind fun _ =>
    (createAuditLog_writes (by decide) _ _ _ _ _ _).bind fun _ =>
    .bind (emits_read rfl) fun _ => emits_orElse _ _

theorem findParameterOf_writes (model : Hook) (paramId : Uuid) :
    (findParameterOf model paramId).Emits (WritesAmong W) :=
  .bind (emits_read rfl) fun _ => emits_orElse _ _

theorem updateHookParameter_writes (ctx : Context) (key : ApiKey) (identifier : String)
    (paramId : Uuid) (payload : UpdateParameterPayload) :
    (updateHookParameter ctx key identifier paramId payload).Emits
      (WritesAmong [.updateHookParameter, .insertAuditLog]) :=
  (resolveHook_writes _).bind fun _ => (guardManage_writes _ _).bind fun _ =>
    .bind (Program.emits_ofExcept _) fun _ => (findParameterOf_writes _ _).bind fun _ =>
    .bind (emits_write rfl (by decide)) fun _ =>
    (createAuditLog_writes (by decide) _ _ _ _ _ _).bind fun _ => trivial

theorem deleteHookParameter_writes (ctx : Context) (key : ApiKey) (identifier : String)
    (paramId : Uuid) :
    (deleteHookParameter ctx key identifier paramId).Emits
      (WritesAmong [.deleteHookParameter, .insertAuditLog]) :=
  (resolveHook_writes _).bind fun _ => (guardManage_writes _ _).bind fun _ =>
    .bind (Program.emits_ofExcept _) fun _ => (findParameterOf_writes _ _).bind fun _ =>
    .bind (emits_write rfl (by decide)) fun _ => createAuditLog_writes (by decide) _ _ _ _ _ _

theorem listHooks_writes (key : ApiKey) (query : ListHooksQuery) :
    (listHooks key query).Emits (WritesAmong W) := by
  refine .bind (Program.emits_ofExcept _) fun _ => (visibleHookIds_writes _).bind fun visible =>
    .bind ?_ fun _ => hookDetails_writes _ _
  match visible with
  | some [] => trivial
  | some (_ :: _) => exact emits_read rfl
  | none => exact emits_read rfl

theorem getHook_writes (key : ApiKey) (identifier : String) (query : ListHooksQuery) :
    (getHook key identifier query).Emits (WritesAmong W) :=
  .bind (Program.emits_ofExcept _) fun _ => .bind (resolveEither_writes _ _) fun _ =>
    (guardVisibility_writes _ _).bind fun _ => buildHookDetail_writes _ _

/-! #### Keys -/

theorem loadHookPermissions_writes (keyId : Uuid) :
    (loadHookPermissions keyId).Emits (WritesAmong W) :=
  .map _ (emits_read rfl)

theorem buildApiKeySummary_writes (model : ApiKey) :
    (buildApiKeySummary model).Emits (WritesAmong W) :=
  (loadHookPermissions_writes _).bind fun _ => trivial

theorem createApiKey_writes (ctx : Context) (key : ApiKey) (payload : CreateApiKeyPayload) :
    (createApiKey ctx key payload).Emits (WritesAmong [.insertApiKey, .insertAuditLog]) :=
  .bind (Program.emits_ofExcept _) fun _ => .bind (Program.emits_ofExcept _) fun _ =>
    .bind (emits_write rfl (by decide)) fun _ =>
    (createAuditLog_writes (by decide) _ _ _ _ _ _).bind fun _ => trivial

theorem collectEach_writes {α β : Type} {f : α → Handler (Option β)}
    (hf : ∀ a, (f a).Emits (WritesAmong W)) (l : List α) :
    (collectEach f l).Emits (WritesAmong W) := by
  induction l with
  | nil => trivial
  | cons a rest ih => exact (hf a).bind fun _ => ih.bind fun _ => trivial

theorem listedApiKey_writes (key : ApiKey) (subtree managed sharedHolders : List Uuid)
    (model : ApiKey) :
    (listedApiKey key subtree managed sharedHolders model).Emits (WritesAmong W) := by
  unfold listedApiKey
  split
  · exact (buildApiKeySummary_writes _).bind fun _ => trivial
  · split
    · exact .bind (.bind (emits_read rfl) fun _ => trivial) fun _ => trivial
    · trivial

theorem listApiKeys_writes (key : ApiKey) : (listApiKeys key).Emits (WritesAmong W) :=
  .bind (Program.emits_ofExcept _) fun _ => .bind (emits_read rfl) fun _ =>
    .bind (Program.emits_unless (descendantKeyIds_writes _)) fun _ =>
    .bind (Program.emits_unless (managedHookIds_writes _)) fun _ =>
    .bind (Program.emits_unless (.map _ (emits_read rfl))) fun _ =>
    collectEach_writes (listedApiKey_writes _ _ _ _) _

theorem updateApiKey_writes (ctx : Context) (key : ApiKey) (id : Uuid)
    (payload : UpdateApiKeyPayload) :
    (updateApiKey ctx key id payload).Emits (WritesAmong [.updateApiKey, .insertAuditLog]) :=
  .bind (Program.emits_ofExcept _) fun _ => (loadAdministrableKey_writes _ _).bind fun _ =>
    .bind (Program.emits_ofExcept _) fun _ => .bind (emits_write rfl (by decide)) fun _ =>
    (createAuditLog_writes (by decide) _ _ _ _ _ _).bind fun _ => buildApiKeySummary_writes _

theorem collectSubtreeInventory_writes (root : Uuid) :
    (collectSubtreeInventory root).Emits (WritesAmong W) :=
  (descendantKeyIds_writes _).bind fun _ => .bind (emits_read rfl) fun _ =>
    .bind (emits_read rfl) fun _ => trivial

theorem validateReassignments_writes (subtree : List Uuid)
    (resolutions : List (Uuid × EntityResolution)) :
    (validateReassignments subtree resolutions).Emits (WritesAmong W) := by
  induction resolutions with
  | nil => trivial
  | cons entry rest ih =>
    refine .bind ?_ fun _ => ih
    unfold validateReassignment
    cases entry.2 with
    | delete => trivial
    | reassign target =>
      exact .bind (Program.emits_require _ _) fun _ => (findApiKeyById_writes _).bind fun _ =>
        Program.emits_require _ _

theorem applyResolutions_writes (hk : Write.updateHook ∈ W) (key : ApiKey) (now : DateTime)
    (resolutions : List (Uuid × EntityResolution)) (counts : ResolutionCounts) :
    (applyResolutions key now resolutions counts).Emits (WritesAmong W) := by
  induction resolutions generalizing counts with
  | nil => trivial
  | cons entry rest ih =>
    refine (findHookById_writes _).bind fun found => ?_
    cases found with
    | none => exact ih _
    | some hook => exact .bind (emits_write rfl hk) fun _ => ih _

theorem deleteApiKey_writes (ctx : Context) (key : ApiKey) (id : Uuid)
    (payload : DeleteApiKeyPayload) :
    (deleteApiKey ctx key id payload).Emits
      (WritesAmong [.updateHook, .deleteApiKeys, .insertAuditLog]) :=
  .bind (Program.emits_ofExcept _) fun _ => .bind (Program.emits_require _ _) fun _ =>
    (loadAdministrableKey_writes _ _).bind fun _ => .bind (Program.emits_ofExcept _) fun _ =>
    .bind (Program.emits_ofExcept _) fun _ => (collectSubtreeInventory_writes _).bind fun _ =>
    .bind (Program.emits_ofExcept _) fun _ => (validateReassignments_writes _ _).bind fun _ =>
    (applyResolutions_writes (by decide) _ _ _ _).bind fun _ =>
    .bind (emits_write rfl (by decide)) fun _ => .bind (Program.emits_require _ _) fun _ =>
    createAuditLog_writes (by decide) _ _ _ _ _ _

theorem loadReissuableKey_writes (key : ApiKey) (id : Uuid) (action : String) :
    (loadReissuableKey key id action).Emits (WritesAmong W) :=
  .bind (Program.emits_ofExcept _) fun _ => (loadAdministrableKey_writes _ _).bind fun _ =>
    .bind (Program.emits_ofExcept _) fun _ => .bind (Program.emits_ofExcept _) fun _ => trivial

theorem rotateApiKey_writes (ctx : Context) (key : ApiKey) (id : Uuid) :
    (rotateApiKey ctx key id).Emits (WritesAmong [.updateApiKey, .insertAuditLog]) :=
  (loadReissuableKey_writes _ _ _).bind fun _ => .bind (Program.emits_ofExcept _) fun _ =>
    .bind (emits_write rfl (by decide)) fun _ =>
    (createAuditLog_writes (by decide) _ _ _ _ _ _).bind fun _ => trivial

theorem regenerateKey_writes (ctx : Context) (key : ApiKey) (id : Uuid) :
    (regenerateKey ctx key id).Emits (WritesAmong [.updateApiKey, .insertAuditLog]) :=
  (loadReissuableKey_writes _ _ _).bind fun _ => .bind (emits_write rfl (by decide)) fun _ =>
    (createAuditLog_writes (by decide) _ _ _ _ _ _).bind fun _ => trivial

theorem regenerateSecret_writes (ctx : Context) (key : ApiKey) (id : Uuid) :
    (regenerateSecret ctx key id).Emits (WritesAmong [.updateApiKey, .insertAuditLog]) :=
  (loadReissuableKey_writes _ _ _).bind fun _ => .bind (Program.emits_ofExcept _) fun _ =>
    .bind (emits_write rfl (by decide)) fun _ =>
    (createAuditLog_writes (by decide) _ _ _ _ _ _).bind fun _ => trivial

theorem guardPermissionWrite_writes (key : ApiKey) (id : Uuid) (hook : Hook)
    (existing : Option Permission) (payload : HookPermInput) :
    (guardPermissionWrite key id hook existing payload).Emits (WritesAmong W) := by
  refine Program.emits_unless ?_
  split
  · exact (guardHookManageConjunction_writes _ _).bind fun _ => trivial
  · exact .bind (Program.emits_require _ _) fun _ => guardDelegatedHookGrant_writes _ _ _ _ _

theorem updateKeyHookPermissions_writes (ctx : Context) (key : ApiKey) (id : Uuid)
    (payload : HookPermInput) :
    (updateKeyHookPermissions ctx key id payload).Emits
      (WritesAmong [.upsertPermission, .insertAuditLog]) :=
  (hasPermissionAdminStanding_writes _).bind fun _ => .bind (Program.emits_require _ _) fun _ =>
    (findApiKeyById_writes _).bind fun _ => .bind (emits_orElse _ _) fun _ =>
    (keyVisibility_writes _ _).bind fun _ => .bind (Program.emits_require _ _) fun _ =>
    .bind (Program.emits_require _ _) fun _ => .bind (Program.emits_ofExcept _) fun _ =>
    (resolveHook_writes _).bind fun _ => (hookPermission_writes _ _).bind fun _ =>
    (guardPermissionWrite_writes _ _ _ _ _).bind fun _ =>
    .bind (Program.emits_ofExcept _) fun _ => .bind (emits_write rfl (by decide)) fun _ =>
    createAuditLog_writes (by decide) _ _ _ _ _ _

theorem revokeKeyHookPermission_writes (ctx : Context) (key : ApiKey) (id : Uuid)
    (identifier : String) :
    (revokeKeyHookPermission ctx key id identifier).Emits
      (WritesAmong [.deletePermissions, .insertAuditLog]) :=
  (hasPermissionAdminStanding_writes _).bind fun _ => .bind (Program.emits_require _ _) fun _ =>
    (resolveHook_writes _).bind fun _ => (guardRevocation_writes _ _).bind fun _ =>
    .bind (emits_write rfl (by decide)) fun _ => .bind (Program.emits_require _ _) fun _ =>
    (findApiKeyById_writes _).bind fun _ => .bind (emits_orElse _ _) fun _ =>
    createAuditLog_writes (by decide) _ _ _ _ _ _

/-! #### Executions and the master's reads -/

theorem authorizeInvocation_writes (key : Option ApiKey) (identifier : String) :
    (authorizeInvocation key identifier).Emits (WritesAmong W) := by
  refine (resolveHook_writes _).bind fun _ => .bind ?_ fun _ => trivial
  cases key with
  | none => trivial
  | some key => exact guardExecute_writes _ _

theorem resolveRequestParameters_writes (ctx : Context) (hook : Hook) (body : Bytes) :
    (resolveRequestParameters ctx hook body).Emits (WritesAmong W) :=
  .bind (Program.emits_ofExcept _) fun _ => (loadParameters_writes _).bind fun _ =>
    Program.emits_ofExcept _

theorem runPlanned_writes (hk : Write.insertExecution ∈ W) (ctx : Context) (hook : Hook)
    (key : Option ApiKey) (resolved : Executor.ResolvedParameters) :
    (Executor.runPlanned ctx hook key resolved).Emits (WritesAmong W) :=
  .bind (Program.emits_ofExcept _) fun _ => .bind (emits_write rfl hk) fun _ => trivial

theorem executeHook_writes (hk : Write.insertExecution ∈ W) (ctx : Context) (hook : Hook)
    (key : Option ApiKey) (resolved : Executor.ResolvedParameters) :
    (Executor.executeHook ctx hook key resolved).Emits (WritesAmong W) := by
  refine .bind (Program.emits_ofExcept _) fun _ => ?_
  cases key with
  | none => exact runPlanned_writes hk _ _ _ _
  | some key =>
    exact .bind (.bind (p := .ask _) (by simp) fun _ => emits_orElse _ _) fun _ =>
      .bind (runPlanned_writes hk _ _ _ _).attempt fun _ =>
      .bind (p := .ask _) (by simp) fun _ => Program.emits_ofExcept _

theorem runHookRequest_writes (hk : Write.insertExecution ∈ W) (ctx : Context)
    (key : Option ApiKey) (identifier : String) (body : Bytes) :
    (runHookRequest ctx key identifier body).Emits (WritesAmong W) :=
  (authorizeInvocation_writes _ _).bind fun _ =>
    (resolveRequestParameters_writes _ _ _).bind fun _ => .bind (Program.emits_require _ _) fun _ =>
    (executeHook_writes hk _ _ _ _).bind fun _ => trivial

theorem testHook_writes (ctx : Context) (key : Option ApiKey) (identifier : String)
    (body : Bytes) : (testHook ctx key identifier body).Emits (WritesAmong W) :=
  (authorizeInvocation_writes _ _).bind fun _ =>
    (resolveRequestParameters_writes _ _ _).bind fun _ => trivial

theorem handleInvocation_writes (ctx : Context) (inv : Invocation) (key : Option ApiKey) :
    (handleInvocation ctx inv key).Emits (WritesAmong [.insertExecution]) := by
  refine .bind (Program.emits_ofExcept _) fun _ => .bind (Program.emits_ofExcept _) fun _ => ?_
  cases inv.route with
  | test => exact .map _ (testHook_writes _ _ _ _)
  | _ => exact .map _ (runHookRequest_writes (by decide) _ _ _ _)

theorem optionalCondition_writes (filter : Option String)
    {build : String → Handler ExecutionCondition}
    (hbuild : ∀ raw, (build raw).Emits (WritesAmong W)) :
    (optionalCondition filter build).Emits (WritesAmong W) := by
  unfold optionalCondition
  cases nonEmpty filter with
  | none => trivial
  | some raw => exact hbuild raw

theorem optionalAuditCondition_writes (filter : Option String)
    {build : String → Handler AuditLogCondition}
    (hbuild : ∀ raw, (build raw).Emits (WritesAmong W)) :
    (optionalAuditCondition filter build).Emits (WritesAmong W) := by
  unfold optionalAuditCondition
  cases nonEmpty filter with
  | none => trivial
  | some raw => exact hbuild raw

theorem resolveApiKeyFilter_writes (platform : Platform) (raw : String) :
    (resolveApiKeyFilter platform raw).Emits (WritesAmong W) := by
  unfold resolveApiKeyFilter
  cases Uuid.parseStr raw with
  | none => exact .map _ (emits_read rfl)
  | some id => trivial

theorem executionVisibility_writes (key : ApiKey) :
    (executionVisibility key).Emits (WritesAmong W) :=
  Program.emits_unless ((executionVisibleHookIds_writes _).bind fun _ =>
    Program.emits_unless trivial)

theorem executionFilters_writes (ctx : Context) (key : ApiKey) (query : ExecutionQuery) :
    (executionFilters ctx key query).Emits (WritesAmong W) :=
  (executionVisibility_writes _).bind fun _ =>
    .bind (optionalCondition_writes _ fun _ => (resolveHook_writes _).bind fun _ =>
      (guardVisibility_writes _ _).bind fun _ => trivial) fun _ =>
    .bind (optionalCondition_writes _ fun _ => .map _ (Program.emits_ofExcept _)) fun _ =>
    .bind (optionalCondition_writes _ fun _ => .map _ (resolveApiKeyFilter_writes _ _)) fun _ =>
    .bind (optionalCondition_writes _ fun _ => .map _ (Program.emits_ofExcept _)) fun _ =>
    .bind (optionalCondition_writes _ fun _ => .map _ (Program.emits_ofExcept _)) fun _ => trivial

theorem listExecutions_writes (ctx : Context) (key : ApiKey) (query : ExecutionQuery) :
    (listExecutions ctx key query).Emits (WritesAmong W) :=
  (executionFilters_writes _ _ _).bind fun _ => .bind (emits_read rfl) fun _ =>
    .bind (Program.emits_unless (emits_read rfl)) fun _ => trivial

theorem findExecutionById_writes (id : Uuid) : (findExecutionById id).Emits (WritesAmong W) :=
  .map _ (emits_read rfl)

theorem getExecution_writes (ctx : Context) (key : ApiKey) (id : Uuid) :
    (getExecution ctx key id).Emits (WritesAmong W) := by
  refine (findExecutionById_writes _).bind fun _ => .bind (emits_orElse _ _) fun model =>
    (mayReadExecution_writes _ _).bind fun _ => .bind (Program.emits_require _ _) fun _ =>
    (findHookById_writes _).bind fun _ => .bind ?_ fun _ => trivial
  cases model.apiKeyId with
  | none => trivial
  | some keyId => exact findApiKeyById_writes _

theorem deleteExecution_writes (ctx : Context) (key : ApiKey) (id : Uuid) :
    (deleteExecution ctx key id).Emits (WritesAmong [.deleteExecutions, .insertAuditLog]) :=
  (findExecutionById_writes _).bind fun _ => .bind (emits_orElse _ _) fun _ =>
    (findHookById_writes _).bind fun _ => .bind (emits_orElse _ _) fun _ =>
    (guardManage_writes _ _).bind fun _ => .bind (emits_write rfl (by decide)) fun _ =>
    createAuditLog_writes (by decide) _ _ _ _ _ _

theorem purgeExecutions_writes (ctx : Context) (key : ApiKey) (query : PurgeQuery) :
    (purgeExecutions ctx key query).Emits (WritesAmong [.deleteExecutions, .insertAuditLog]) :=
  .bind (Program.emits_require _ _) fun _ => .bind (Program.emits_ofExcept _) fun _ =>
    (purgeExpiredExecutions_writes _ _ (by decide)).bind fun _ =>
    (createAuditLog_writes (by decide) _ _ _ _ _ _).bind fun _ => trivial

theorem listAuditLogs_writes (ctx : Context) (key : ApiKey) (query : AuditLogQuery) :
    (listAuditLogs ctx key query).Emits (WritesAmong W) :=
  .bind (Program.emits_require _ _) fun _ =>
    .bind (optionalAuditCondition_writes _ fun _ => trivial) fun _ =>
    .bind (optionalAuditCondition_writes _ fun _ => trivial) fun _ =>
    .bind (optionalAuditCondition_writes _ fun _ => .map _ (resolveApiKeyFilter_writes _ _))
    fun _ =>
    .bind (optionalAuditCondition_writes _ fun _ => .map _ (Program.emits_ofExcept _)) fun _ =>
    .bind (optionalAuditCondition_writes _ fun _ => .map _ (Program.emits_ofExcept _)) fun _ =>
    emits_read rfl

theorem getSettings_writes (ctx : Context) (key : ApiKey) :
    (getSettings ctx key).Emits (WritesAmong W) :=
  .bind (Program.emits_require _ _) fun _ => .bind (emits_read rfl) fun _ =>
    .bind (emits_read rfl) fun _ => .bind (emits_read rfl) fun _ => trivial

end Handlers

/-- The kinds of statements each administrative request can write with. -/
def AdminRequest.writes : AdminRequest → List Write
  | .createHook _ => [.insertHook, .insertHookParameter, .upsertPermission, .insertAuditLog]
  | .updateHook _ _ => [.updateHook, .insertAuditLog]
  | .deleteHook _ _ => [.deleteHooks, .updateHooks, .insertAuditLog]
  | .restoreHook _ => [.updateHook, .insertAuditLog]
  | .createHookParameter _ _ => [.insertHookParameter, .insertAuditLog]
  | .updateHookParameter _ _ _ => [.updateHookParameter, .insertAuditLog]
  | .deleteHookParameter _ _ => [.deleteHookParameter, .insertAuditLog]
  | .createApiKey _ => [.insertApiKey, .insertAuditLog]
  | .updateApiKey _ _ => [.updateApiKey, .insertAuditLog]
  | .deleteApiKey _ _ => [.updateHook, .deleteApiKeys, .insertAuditLog]
  | .rotateApiKey _ => [.updateApiKey, .insertAuditLog]
  | .regenerateKey _ => [.updateApiKey, .insertAuditLog]
  | .regenerateSecret _ => [.updateApiKey, .insertAuditLog]
  | .updateKeyHookPermissions _ _ => [.upsertPermission, .insertAuditLog]
  | .revokeKeyHookPermission _ _ => [.deletePermissions, .insertAuditLog]
  | .purgeExecutions _ => [.deleteExecutions, .insertAuditLog]
  | .deleteExecution _ => [.deleteExecutions, .insertAuditLog]
  | .purgeDeletedHooks _ => [.deleteHooks, .insertAuditLog]
  | _ => []

theorem handleAdmin_writes (ctx : Context) (key : ApiKey) (request : AdminRequest) :
    (handleAdmin ctx key request).Emits (WritesAmong request.writes) := by
  cases request with
  | getMe => exact .map _ ((loadHookPermissions_writes _).bind fun _ => trivial)
  | createHook payload => exact .map _ (createHook_writes _ _ _)
  | listHooks query => exact .map _ (listHooks_writes _ _)
  | getHook identifier query => exact .map _ (getHook_writes _ _ _)
  | updateHook identifier payload => exact .map _ (updateHook_writes _ _ _ _)
  | deleteHook identifier query => exact .map _ (deleteHook_writes _ _ _ _)
  | restoreHook identifier => exact .map _ (restoreHook_writes _ _ _)
  | listHookParameters identifier =>
    exact .map _ ((resolveHook_writes _).bind fun _ => (guardVisibility_writes _ _).bind fun _ =>
      loadParameters_writes _)
  | createHookParameter identifier payload => exact .map _ (createHookParameter_writes _ _ _ _)
  | updateHookParameter identifier paramId payload =>
    exact .map _ (updateHookParameter_writes _ _ _ _ _)
  | deleteHookParameter identifier paramId => exact .map _ (deleteHookParameter_writes _ _ _ _)
  | createApiKey payload => exact .map _ (createApiKey_writes _ _ _)
  | listApiKeys => exact .map _ (listApiKeys_writes _)
  | updateApiKey id payload => exact .map _ (updateApiKey_writes _ _ _ _)
  | deleteApiKey id payload => exact .map _ (deleteApiKey_writes _ _ _ _)
  | rotateApiKey id => exact .map _ (rotateApiKey_writes _ _ _)
  | regenerateKey id => exact .map _ (regenerateKey_writes _ _ _)
  | regenerateSecret id => exact .map _ (regenerateSecret_writes _ _ _)
  | updateKeyHookPermissions id payload => exact .map _ (updateKeyHookPermissions_writes _ _ _ _)
  | revokeKeyHookPermission id identifier => exact .map _ (revokeKeyHookPermission_writes _ _ _ _)
  | listExecutions query => exact .map _ (listExecutions_writes _ _ _)
  | purgeExecutions query => exact .map _ (purgeExecutions_writes _ _ _)
  | getExecution id => exact .map _ (getExecution_writes _ _ _)
  | deleteExecution id => exact .map _ (deleteExecution_writes _ _ _)
  | listAuditLogs query => exact .map _ (listAuditLogs_writes _ _ _)
  | getSettings => exact .map _ (getSettings_writes _ _)
  | purgeDeletedHooks query => exact .map _ (purgeDeletedHooks_writes _ _ _)
  | refused rejection => trivial

/-- What handling an authenticated request can write with. -/
def Authenticated.writes : Authenticated → List Write
  | admin _ request => request.writes
  | invoke _ _ => [.insertExecution]

theorem handle_writes (ctx : Context) (a : Authenticated) :
    (a.handle ctx).Emits (WritesAmong a.writes) := by
  cases a with
  | admin key request => exact .map _ (handleAdmin_writes _ _ _)
  | invoke key inv => exact .map _ (handleInvocation_writes _ _ _)

/-! ### Authentication writes nothing to the database -/

section Authentication

variable {W : List Write}

theorem resolveInner_writes : resolveInner.Emits (WritesAmong W) :=
  .bind (p := trySql _) (by simp [Stmt.write?]) fun _ => trivial

theorem authenticatePin_writes (key : ApiKey) : (authenticatePin key).Emits (WritesAmong W) := by
  refine Program.emits_unless (.bind ?_ fun _ => trivial)
  refine .bind (p := .ask _) (by simp) fun pinned => ?_
  cases pinned with
  | some id => trivial
  | none =>
    refine resolveInner_writes.bind fun found => ?_
    cases found with
    | error e => trivial
    | ok id => exact .bind (p := .ask _) (by simp) fun _ => by simp

theorem checkSignature_writes (state : AppState) (clock : AuthClock) (req : HttpRequest)
    (hook : Option Hook) (key : ApiKey) (presentedTimestamp : Option String) :
    (checkSignature state clock req hook key presentedTimestamp).Emits (WritesAmong W) := by
  unfold checkSignature
  cases req.headers.getStr signatureHeader with
  | none => exact Program.emits_require _ _
  | some signature =>
    exact .bind (Program.emits_ofExcept _) fun _ => .bind (p := .ask _) (by simp) fun _ =>
      Program.emits_require _ _

theorem authenticateBearerKey_writes (state : AppState) (clock : AuthClock)
    (presentedKey : String) (clientIp : IpAddr) (hook : Option Hook) (req : HttpRequest) :
    (authenticateBearerKey state clock presentedKey clientIp hook req).Emits (WritesAmong W) :=
  .bind (Program.emits_ofExcept _) fun _ => .bind (.map _ (emits_read rfl)) fun _ =>
    .bind (emits_orElse _ _) fun _ => (authenticatePin_writes _).bind fun _ =>
    (checkSignature_writes _ _ _ _ _ _).bind fun _ => .bind (Program.emits_ofExcept _) fun _ =>
    trivial

theorem mapFailure_writes {α : Type} {p : Handler α} (f : AppError → AppError)
    (hp : p.Emits (WritesAmong W)) : (mapFailure p f).Emits (WritesAmong W) :=
  hp.attempt.bind fun _ => Program.emits_ofExcept _

theorem invocationAuthMiddleware_writes (state : AppState) (clock : AuthClock)
    (clientIp : IpAddr) (req : HttpRequest) :
    (invocationAuthMiddleware state clock clientIp req).Emits (WritesAmong W) := by
  unfold invocationAuthMiddleware
  -- the identifier is data here; its parsing would otherwise be unfolded
  generalize hookIdentifierFromPath req.path = identifier
  cases req.headers.getStr apiKeyHeader with
  | some presentedKey =>
    refine .bind ?_ fun _ =>
      (mapFailure_writes _ (authenticateBearerKey_writes _ _ _ _ _ _)).bind fun _ => trivial
    cases identifier with
    | none => trivial
    | some identifier => exact .map _ (resolveHook_writes _).attempt
  | none =>
    exact .bind (emits_orElse _ _) fun _ => (mapFailure_writes _ (resolveHook_writes _)).bind
      fun _ => .bind (Program.emits_ofExcept _) fun _ => trivial

theorem authenticate_writes (ctx : Context) (clock : AuthClock) (req : Request) :
    (authenticate ctx clock req).Emits (WritesAmong W) := by
  cases req with
  | admin http request =>
    exact .map _ (.bind (emits_orElse _ _) fun _ => authenticateBearerKey_writes _ _ _ _ _ _)
  | invoke inv => exact .map _ (invocationAuthMiddleware_writes _ _ _ _)

end Authentication

/-! ### From kinds to relations between databases -/

/-- Every statement whose kind is listed relates the databases around it. -/
def Respects (W : List Write) (R : Database → Database → Prop) : Prop :=
  ∀ (β : Type) (s : Stmt β) (k : Write), s.write? = some k → k ∈ W → ∀ db, R db (s.exec db).2

theorem Op.exec_db {β : Type} (q : Op β) (w : World) :
    (Op.exec _ q w).2.db = match q with
      | .db s => (s.exec w.db).2
      | _ => w.db := by
  cases q <;> simp [Op.exec]

/-- A relation the kinds respect holds around each operation of a kind. -/
theorem WritesAmong.exec_rel {W : List Write} {R : Database → Database → Prop} {β : Type}
    {q : Op β} (hq : WritesAmong W _ q) (hR : Respects W R) (refl : ∀ db, R db db) (w : World) :
    R w.db (Op.exec _ q w).2.db := by
  rw [Op.exec_db]
  cases q with
  | db s =>
    cases hs : s.write? with
    | none =>
      simp only [Stmt.exec_snd_of_read hs]
      exact refl _
    | some k => exact hR _ s k hs (hq k hs) w.db
  | _ => exact refl _

theorem respects_nil (R : Database → Database → Prop) : Respects [] R :=
  fun _ _ _ _ h => absurd h List.not_mem_nil

/-- A relation the kinds of a program respect holds between its two ends. -/
theorem Handler.run_db_rel {W : List Write} {R : Database → Database → Prop} {α : Type}
    {p : Handler α} (hp : p.Emits (WritesAmong W)) (hR : Respects W R) (refl : ∀ db, R db db)
    (trans : ∀ {a b c}, R a b → R b c → R a c) (w : World) : R w.db (p.run Op.exec w).2.db :=
  (hp.mono fun _ _ hq v => hq.exec_rel hR refl v).run_rel (R := fun w w' => R w.db w'.db)
    (fun w => refl w.db) (fun {s t v} h h' => @trans s.db t.db v.db h h') w

/-! ### The tables a kind changes -/

inductive Table where
  | apiKeys | hooks | hookParameters | permissions | executions | auditLogs
  deriving DecidableEq

/-- The tables a kind of statement can change, cascades included. -/
def Write.tables : Write → List Table
  | .insertApiKey | .updateApiKey => [.apiKeys]
  | .deleteApiKeys => [.apiKeys, .permissions, .executions, .auditLogs]
  | .insertHook | .updateHook | .updateHooks => [.hooks]
  | .deleteHooks => [.hooks, .hookParameters, .permissions, .executions]
  | .insertHookParameter | .updateHookParameter | .deleteHookParameter => [.hookParameters]
  | .upsertPermission | .deletePermissions => [.permissions]
  | .insertExecution | .deleteExecutions => [.executions]
  | .insertAuditLog => [.auditLogs]

/-- The table is the same in both. -/
def Agree : Table → Database → Database → Prop
  | .apiKeys, a, b => b.apiKeys = a.apiKeys
  | .hooks, a, b => b.hooks = a.hooks
  | .hookParameters, a, b => b.hookParameters = a.hookParameters
  | .permissions, a, b => b.permissions = a.permissions
  | .executions, a, b => b.executions = a.executions
  | .auditLogs, a, b => b.auditLogs = a.auditLogs

theorem agree_refl (t : Table) (db : Database) : Agree t db db := by
  cases t <;> rfl

theorem Agree.trans {t : Table} {a b c : Database} (hab : Agree t a b) (hbc : Agree t b c) :
    Agree t a c := by
  cases t <;> exact Eq.trans hbc hab

section OneTable

variable {t : Table} {db : Database}

theorem agree_apiKeys (h : t ∉ [Table.apiKeys]) (rows : List ApiKey) :
    Agree t db { db with apiKeys := rows } := by
  cases t <;> first | rfl | exact absurd (List.mem_singleton_self _) h

theorem agree_hooks (h : t ∉ [Table.hooks]) (rows : List Hook) :
    Agree t db { db with hooks := rows } := by
  cases t <;> first | rfl | exact absurd (List.mem_singleton_self _) h

theorem agree_hookParameters (h : t ∉ [Table.hookParameters]) (rows : List HookParameter) :
    Agree t db { db with hookParameters := rows } := by
  cases t <;> first | rfl | exact absurd (List.mem_singleton_self _) h

theorem agree_permissions (h : t ∉ [Table.permissions]) (rows : List Permission) :
    Agree t db { db with permissions := rows } := by
  cases t <;> first | rfl | exact absurd (List.mem_singleton_self _) h

theorem agree_executions (h : t ∉ [Table.executions]) (rows : List Execution) :
    Agree t db { db with executions := rows } := by
  cases t <;> first | rfl | exact absurd (List.mem_singleton_self _) h

theorem agree_auditLogs (h : t ∉ [Table.auditLogs]) (rows : List AuditLog) :
    Agree t db { db with auditLogs := rows } := by
  cases t <;> first | rfl | exact absurd (List.mem_singleton_self _) h

end OneTable

/-- A statement changes no table but those of its kind. -/
theorem Stmt.exec_agree {β : Type} (s : Stmt β) (db : Database) {t : Table}
    (hs : ∀ k ∈ s.write?, t ∉ k.tables) : Agree t db (s.exec db).2 := by
  cases s with
  | insertApiKey row =>
    simp only [Stmt.exec, Database.insertApiKey]
    split
    · exact agree_refl t db
    · exact agree_apiKeys (hs _ rfl) _
  | updateApiKey id u =>
    simp only [Stmt.exec, Database.updateApiKey]
    split
    · exact agree_refl t db
    · split
      · exact agree_refl t db
      · exact agree_apiKeys (hs _ rfl) _
  | deleteApiKeys c =>
    have ht := hs _ rfl
    cases t <;> first | rfl | exact absurd (by simp [Write.tables]) ht
  | insertHook row =>
    simp only [Stmt.exec, Database.insertHook]
    split
    · exact agree_refl t db
    · exact agree_hooks (hs _ rfl) _
  | updateHook id u =>
    simp only [Stmt.exec, Database.updateHook]
    split
    · exact agree_refl t db
    · split
      · exact agree_refl t db
      · exact agree_hooks (hs _ rfl) _
  | updateHooks c u =>
    simp only [Stmt.exec, Database.updateHooks]
    split
    · exact agree_hooks (hs _ rfl) _
    · exact agree_refl t db
  | deleteHooks c =>
    have ht := hs _ rfl
    cases t <;> first | rfl | exact absurd (by simp [Write.tables]) ht
  | insertHookParameter row =>
    simp only [Stmt.exec, Database.insertHookParameter]
    split
    · exact agree_refl t db
    · split
      · exact agree_hookParameters (hs _ rfl) _
      · exact agree_refl t db
  | updateHookParameter id u =>
    simp only [Stmt.exec, Database.updateHookParameter]
    split
    · exact agree_refl t db
    · exact agree_hookParameters (hs _ rfl) _
  | deleteHookParameter id => exact agree_hookParameters (hs _ rfl) _
  | upsertPermission row columns =>
    simp only [Stmt.exec, Database.upsertPermission]
    split
    · exact agree_permissions (hs _ rfl) _
    · split
      · exact agree_refl t db
      · split
        · exact agree_permissions (hs _ rfl) _
        · exact agree_refl t db
  | deletePermissions c => exact agree_permissions (hs _ rfl) _
  | insertExecution row =>
    simp only [Stmt.exec, Database.insertExecution]
    split
    · exact agree_refl t db
    · split
      · exact agree_executions (hs _ rfl) _
      · exact agree_refl t db
  | deleteExecutions c => exact agree_executions (hs _ rfl) _
  | insertAuditLog row =>
    simp only [Stmt.exec, Database.insertAuditLog]
    split
    · exact agree_refl t db
    · split
      · exact agree_auditLogs (hs _ rfl) _
      · exact agree_refl t db
  | _ => exact agree_refl t db

/-- A program changes no table but those of the kinds it writes with. -/
theorem Handler.run_agree {W : List Write} {α : Type} {p : Handler α} {t : Table}
    (hp : p.Emits (WritesAmong W)) (hW : ∀ k ∈ W, t ∉ k.tables) (w : World) :
    Agree t w.db (p.run Op.exec w).2.db :=
  Handler.run_db_rel hp (fun _ s k hs hk db => s.exec_agree db fun k' hk' => by
      rw [hs, Option.mem_some_iff] at hk'
      exact hk' ▸ hW k hk)
    (agree_refl t) Agree.trans w

/-- A program with nothing to write leaves the database as it found it. -/
theorem Handler.run_db_eq {α : Type} {p : Handler α} (hp : p.Emits (WritesAmong []))
    (w : World) : (p.run Op.exec w).2.db = w.db :=
  run_db_rel (R := fun a b => b = a) hp (respects_nil _) (fun _ => rfl)
    (fun h h' => h'.trans h) w

/-! ### Following the database through a handler -/

section Follow

variable {K : Database → Prop} {W : List Write} {α β : Type} {p : Handler α}
  {f : α → Handler β} {w : World}

/-- A first half that only reads hands the database on as it was. -/
theorem Handler.bind_read (hp : p.Emits (WritesAmong [])) (hw : K w.db)
    (hf : ∀ a t, p.run Op.exec w = (.ok a, t) → t.db = w.db → K ((f a).run Op.exec t).2.db) :
    K ((p.bind f).run Op.exec w).2.db := by
  have hdb := Handler.run_db_eq hp w
  exact Program.run_bind_post (J := fun t : World => t.db = w.db) (K := fun t => K t.db) hdb
    (fun t ht => ht ▸ hw) hf

/-- What a first half is shown to leave, a second half that cannot touch it
keeps. -/
theorem Handler.bind_keep (hp : K (p.run Op.exec w).2.db)
    (hf : ∀ a t, K t.db → K ((f a).run Op.exec t).2.db) :
    K ((p.bind f).run Op.exec w).2.db :=
  Program.run_bind_post (J := fun t : World => K t.db) (K := fun t => K t.db) hp (fun _ h => h)
    fun a t _ => hf a t

theorem Handler.map_keep (g : α → β) (hp : K (p.run Op.exec w).2.db) :
    K ((g <$> p).run Op.exec w).2.db :=
  bind_keep hp fun _ _ h => h

end Follow

end HookExecutor
