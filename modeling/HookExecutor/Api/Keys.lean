import HookExecutor.Api.KeyVisibility

/-!
# API keys and their grants

Creating, editing, deleting and reissuing keys, and granting or revoking their
verbs on one hook. Deleting a key walks its subtree, lists the hooks those keys
own, and goes on only when the caller has resolved every one of them.
-/

namespace HookExecutor

/-! ### Views -/

structure HookPermissionView where
  hookId : Uuid
  hookName : String
  canExecute : Bool
  canManage : Bool
  canViewExecution : Bool

structure MeResponse where
  id : Uuid
  name : String
  prefixText : String
  keyId : Option String
  hmacMode : HmacMode
  canonicalTemplate : Option String
  boundIps : Option String
  maxConcurrentJobs : Int
  isMaster : Bool
  canManageKeys : Bool
  canManageHooks : Bool
  hookPermissions : List HookPermissionView
  keylessHooksAllowed : Bool

structure ApiKeySummary where
  id : Uuid
  name : String
  prefixText : String
  keyId : Option String
  hasSigningSecret : Bool
  hmacMode : HmacMode
  canonicalTemplate : Option String
  boundIps : Option String
  maxConcurrentJobs : Int
  isMaster : Bool
  canManageKeys : Bool
  canManageHooks : Bool
  parentKeyId : Option Uuid
  createdAt : DateTime
  hookPermissions : List HookPermissionView

structure MinimalApiKeyView where
  id : Uuid
  name : String
  hookPermissions : List HookPermissionView
  partial_ : Bool

inductive ApiKeyView where
  | full (summary : ApiKeySummary)
  | minimal (view : MinimalApiKeyView)

/-- Rows whose hook is gone are left out. -/
def permissionViews (rows : List (Permission × Option Hook)) : List HookPermissionView :=
  rows.filterMap fun row => row.2.map fun hook =>
    { hookId := row.1.hookId
      hookName := hook.name
      canExecute := row.1.canExecute
      canManage := row.1.canManage
      canViewExecution := row.1.canViewExecution }

def loadHookPermissions (keyId : Uuid) : Handler (List HookPermissionView) :=
  permissionViews <$> sql (.selectPermissionsWithHook (.apiKeyIdEq keyId))

def getMe (ctx : Context) (key : ApiKey) : Handler MeResponse := do
  let hookPermissions ← loadHookPermissions key.id
  return { id := key.id
           name := key.name
           prefixText := key.prefixText
           keyId := key.keyId
           hmacMode := key.hmacMode
           canonicalTemplate := key.canonicalTemplate
           boundIps := key.boundIps
           maxConcurrentJobs := key.maxConcurrentJobs
           isMaster := key.isMaster
           canManageKeys := key.canManageKeys
           canManageHooks := key.canManageHooks
           hookPermissions := hookPermissions
           keylessHooksAllowed := !ctx.state.config.requireSignedRequests }

def buildApiKeySummary (model : ApiKey) : Handler ApiKeySummary := do
  let hookPermissions ← loadHookPermissions model.id
  return { id := model.id
           name := model.name
           prefixText := model.prefixText
           keyId := model.keyId
           hasSigningSecret := model.signingSecret.isSome
           hmacMode := model.hmacMode
           canonicalTemplate := model.canonicalTemplate
           boundIps := model.boundIps
           maxConcurrentJobs := model.maxConcurrentJobs
           isMaster := model.isMaster
           canManageKeys := model.canManageKeys
           canManageHooks := model.canManageHooks
           parentKeyId := model.parentKeyId
           createdAt := model.createdAt
           hookPermissions := hookPermissions }

def buildMinimalApiKeyView (model : ApiKey) (sharedHookIds : List Uuid) :
    Handler MinimalApiKeyView := do
  let rows ← sql (.selectPermissionsWithHook (.and (.apiKeyIdEq model.id)
    (.hookIdIn sharedHookIds)))
  return ⟨model.id, model.name, permissionViews rows, true⟩

/-! ### Creation and listing -/

structure CreateApiKeyResponse where
  id : Uuid
  plaintextKey : String
  keyId : Option String
  signingSecret : Option String
  name : String
  boundIps : Option String

/-- Administering keys at all takes the global scope. -/
def guardKeyManager (key : ApiKey) : Except AppError Unit :=
  if !key.isMaster && !key.canManageKeys then .error (.forbidden "Permission denied") else .ok ()

/-- A key that manages keys has to be able to sign. -/
def guardSigningPair (payload : CreateApiKeyPayload) : Except AppError Unit :=
  if payload.canManageKeys.getD false && !payload.generateSigningSecret.getD true then
    .error (.invalidInput ("can_manage_keys requires a signing secret: generate_signing_secret " ++
      "cannot be false for a key that manages other keys, since such a key must always sign."))
  else .ok ()

/-- Authorization first, then the fields. -/
def validateCreateApiKey (platform : Platform) (key : ApiKey) (payload : CreateApiKeyPayload) :
    Except AppError Unit := do
  guardKeyManager key
  guardMasterToGrantScopes key payload.canManageKeys payload.canManageHooks
  guardSigningPair payload
  guardCanonicalV1ForKeyManagement (payload.canManageKeys.getD false)
    (payload.hmacMode.getD .canonicalV1) (nonEmpty payload.canonicalTemplate)
  checkField payload.boundIps (validateBoundIps platform)
  validateConcurrency (payload.maxConcurrentJobs.getD 10)

/-- The row `createApiKey` inserts: never a master, and a daughter of its
creator. -/
def newApiKey (ctx : Context) (key : ApiKey) (payload : CreateApiKeyPayload)
    (pair : Option SigningPair) : ApiKey :=
  let plaintextKey := generateRandomKey (ctx.draws.randomBytes 0)
  { id := ctx.draws.uuid 0
    name := payload.name
    keyHash := hashKey ctx.prim plaintextKey
    prefixText := displayPrefix plaintextKey
    keyId := pair.map (·.keyId)
    signingSecret := pair.map (·.sealedSecret)
    hmacMode := payload.hmacMode.getD .canonicalV1
    boundIps := payload.boundIps
    maxConcurrentJobs := payload.maxConcurrentJobs.getD 10
    isMaster := false
    canManageKeys := payload.canManageKeys.getD false
    canManageHooks := payload.canManageHooks.getD false
    parentKeyId := some key.id
    createdAt := ctx.draws.now 0
    updatedAt := ctx.draws.now 0
    canonicalTemplate := nonEmpty payload.canonicalTemplate }

def createApiKey (ctx : Context) (key : ApiKey) (payload : CreateApiKeyPayload) :
    Handler CreateApiKeyResponse := do
  .ofExcept (validateCreateApiKey ctx.state.platform key payload)
  let wantsSigningPair := payload.generateSigningSecret.getD true
  let pair ← .ofExcept (if wantsSigningPair then (mintSigningPair ctx 1).map some else .ok none)
  let row := newApiKey ctx key payload pair
  sql (.insertApiKey row)
  let signing := if wantsSigningPair then describeHmacMode row.hmacMode
    else "bearer-only, no signing secret"
  createAuditLog ctx key 1 "KEY_CREATE" (some payload.name)
    (some s!"Created key {formatReference payload.name row.id} ({signing})")
  return ⟨row.id, generateRandomKey (ctx.draws.randomBytes 0), row.keyId,
    pair.map (·.signingSecret), payload.name, payload.boundIps⟩

/-- One view of the listing: full, minimal or none. -/
def listedApiKey (key : ApiKey) (subtree managed sharedHolders : List Uuid) (model : ApiKey) :
    Handler (Option ApiKeyView) := do
  if key.isMaster || model.id == key.id || subtree.contains model.id then
    let summary ← buildApiKeySummary model
    return some (.full summary)
  else if sharedHolders.contains model.id then
    let view ← buildMinimalApiKeyView model managed
    return some (.minimal view)
  else return none

/-- A handler for each element in turn, keeping what each returns. -/
def collectEach {α β : Type} (f : α → Handler (Option β)) : List α → Handler (List β)
  | [] => pure []
  | a :: rest => do
    let head ← f a
    let tail ← collectEach f rest
    return head.toList ++ tail

def listApiKeys (key : ApiKey) : Handler (List ApiKeyView) := do
  .ofExcept (guardKeyManager key)
  let keys ← sql (.selectApiKeys .all .byCreatedAt)
  let subtree ← (if key.isMaster then pure [] else descendantKeyIds key.id)
  let managed ← (if key.isMaster then pure [] else managedHookIds key.id)
  let sharedHolders ← (if managed.isEmpty then pure []
    else List.map (·.apiKeyId) <$> sql (.selectPermissions (.hookIdIn managed)))
  collectEach (listedApiKey key subtree managed sharedHolders) keys

/-! ### Editing -/

/-- The canonical template the key has after the update. -/
def effectiveCanonicalTemplate (payload : UpdateApiKeyPayload) (target : ApiKey) :
    Option String :=
  match payload.canonicalTemplate with
  | some t => nonEmpty (some t)
  | none => target.canonicalTemplate

def validateUpdateApiKey (platform : Platform) (key target : ApiKey)
    (payload : UpdateApiKeyPayload) : Except AppError Unit := do
  guardMasterToAdminister key target "update"
  guardMasterSelfEditIsBoundIpsOnly key target payload
  guardMasterToGrantScopes key payload.canManageKeys payload.canManageHooks
  guardCanonicalV1ForKeyManagement (payload.canManageKeys.getD target.canManageKeys)
    target.hmacMode (effectiveCanonicalTemplate payload target)
  checkField payload.boundIps (validateBoundIps platform)
  checkField payload.maxConcurrentJobs validateConcurrency

def apiKeyChanges (payload : UpdateApiKeyPayload) (now : DateTime) : ApiKeyUpdate :=
  { name := payload.name
    boundIps := payload.boundIps.map some
    maxConcurrentJobs := payload.maxConcurrentJobs
    canonicalTemplate := payload.canonicalTemplate.map fun t => nonEmpty (some t)
    canManageKeys := payload.canManageKeys
    canManageHooks := payload.canManageHooks
    updatedAt := now }

def updateApiKey (ctx : Context) (key : ApiKey) (id : Uuid) (payload : UpdateApiKeyPayload) :
    Handler ApiKeySummary := do
  .ofExcept (guardKeyManager key)
  let target ← loadAdministrableKey key id
  .ofExcept (validateUpdateApiKey ctx.state.platform key target payload)
  let updated ← sql (.updateApiKey id (apiKeyChanges payload (ctx.draws.now 0)))
  createAuditLog ctx key 1 "KEY_UPDATE" (some updated.name)
    (some s!"Updated key {formatReference updated.name id}")
  buildApiKeySummary updated

/-! ### Deletion -/

/-- The subtree of a key, its rows, and the hooks it owns, trashed ones
included. -/
structure SubtreeInventory where
  subtree : List Uuid
  doomed : List DoomedKey
  inventory : List OwnedEntity

def ownedEntity (hook : Hook) : Option OwnedEntity :=
  hook.ownerKeyId.map fun owner => ⟨"hook", hook.id, hook.name, owner⟩

def collectSubtreeInventory (root : Uuid) : Handler SubtreeInventory := do
  let below ← descendantKeyIds root
  let subtree := root :: below
  let doomed ← sql (.selectApiKeys (.idIn subtree) .byCreatedAt)
  let owned ← sql (.selectHooks (.ownerKeyIdIn subtree) .byName)
  return ⟨subtree, doomed.map fun k => ⟨k.id, k.name⟩, owned.filterMap ownedEntity⟩

/-- A resolution for everything in the inventory, and for nothing else. -/
def guardResolutions (payload : DeleteApiKeyPayload) (found : SubtreeInventory) :
    Except AppError Unit :=
  let resolved := payload.resolutions.map (·.1)
  match resolved.find? fun id => !(found.inventory.map (·.id)).contains id with
  | some stray => .error (.invalidInput (s!"resolution supplied for '{Uuid.toText stray}', " ++
      "which this key subtree does not own"))
  | none =>
    let unresolved := found.inventory.filter fun e => !resolved.contains e.id
    if unresolved.isEmpty then .ok ()
    else
      let plural := if unresolved.length = 1 then "y" else "ies"
      .error (.conflictWithDetails ("Deletion refused: this key subtree owns " ++
        s!"{unresolved.length} entit{plural} with no " ++
        "resolution. Resubmit with a 'resolutions' map naming, for every id below, either " ++
        "\x7b\"action\":\"delete\"\x7d or \x7b\"action\":\"reassign\",\"to\":\"<key-id>\"\x7d.")
        ⟨found.doomed, found.inventory⟩)

/-- A hook may go to an existing key outside the doomed subtree. -/
def validateReassignment (subtree : List Uuid) (entry : Uuid × EntityResolution) :
    Handler Unit :=
  match entry.2 with
  | .delete => pure ()
  | .reassign target => do
    .require (target ∉ subtree) (.invalidInput (s!"cannot reassign '{Uuid.toText entry.1}' " ++
      s!"to '{Uuid.toText target}': that key is inside the subtree being                      deleted"))
    let existing ← findApiKeyById target
    .require (existing.isSome = true) (.invalidInput ("cannot reassign " ++
      s!"'{Uuid.toText entry.1}' to '{Uuid.toText target}': no such API key"))

def validateReassignments (subtree : List Uuid) :
    List (Uuid × EntityResolution) → Handler Unit
  | [] => pure ()
  | entry :: rest => do
    validateReassignment subtree entry
    validateReassignments subtree rest

/-- How many hooks a deletion trashed and how many it handed on. -/
structure ResolutionCounts where
  deletedHooks : Nat
  reassignedHooks : Nat

def resolutionUpdate (key : ApiKey) (now : DateTime) : EntityResolution → HookUpdate
  | .delete =>
    { isDeleted := some true
      deletedAt := some (some now)
      deletedBy := some (some (Uuid.toText key.id))
      updatedAt := now }
  | .reassign target => { ownerKeyId := some (some target), updatedAt := now }

def countResolution : EntityResolution → ResolutionCounts → ResolutionCounts
  | .delete, counts => { counts with deletedHooks := counts.deletedHooks + 1 }
  | .reassign _, counts => { counts with reassignedHooks := counts.reassignedHooks + 1 }

/-- Trash or hand on each hook of the map; one that has vanished is passed
over. -/
def applyResolutions (key : ApiKey) (now : DateTime) :
    List (Uuid × EntityResolution) → ResolutionCounts → Handler ResolutionCounts
  | [], counts => pure counts
  | entry :: rest, counts => do
    let found ← findHookById entry.1
    match found with
    | none => applyResolutions key now rest counts
    | some _ => do
      let _ ← sql (.updateHook entry.1 (resolutionUpdate key now entry.2))
      applyResolutions key now rest (countResolution entry.2 counts)

def deleteApiKey (ctx : Context) (key : ApiKey) (id : Uuid) (payload : DeleteApiKeyPayload) :
    Handler Unit := do
  .ofExcept (guardKeyManager key)
  .require (id ≠ key.id) (.forbidden "Cannot delete yourself")
  let target ← loadAdministrableKey key id
  .ofExcept (guardMasterToAdminister key target "delete")
  .ofExcept (refuseMasterLifecycleAction target "delete")
  let found ← collectSubtreeInventory id
  .ofExcept (guardResolutions payload found)
  validateReassignments found.subtree payload.resolutions
  let counts ← applyResolutions key (ctx.draws.now 0) payload.resolutions ⟨0, 0⟩
  let removed ← sql (.deleteApiKeys (.idIn found.subtree))
  .require (removed ≠ 0) .notFound
  createAuditLog ctx key 1 "KEY_DELETE" (some target.name)
    (some (s!"Deleted key {formatReference target.name id} and {found.subtree.length - 1} " ++
      s!"descendant key(s); {counts.reassignedHooks} hook(s)              reassigned, " ++
      s!"{counts.deletedHooks} hook(s) moved to the trash"))

/-! ### Reissue -/

structure RotateKeyResponse where
  id : Uuid
  plaintextKey : String
  keyId : String
  signingSecret : String

structure RegenerateKeyResponse where
  id : Uuid
  plaintextKey : String

structure RegenerateSecretResponse where
  id : Uuid
  keyId : String
  signingSecret : String

/-- The key a reissue addresses: administrable, and not the master. -/
def loadReissuableKey (key : ApiKey) (id : Uuid) (action : String) : Handler ApiKey := do
  .ofExcept (guardKeyManager key)
  let target ← loadAdministrableKey key id
  .ofExcept (guardMasterToAdminister key target action)
  .ofExcept (refuseMasterLifecycleAction target action)
  return target

/-- The columns of a fresh bearer key. -/
def bearerColumns (ctx : Context) (now : DateTime) : ApiKeyUpdate :=
  let plaintextKey := generateRandomKey (ctx.draws.randomBytes 0)
  { keyHash := some (hashKey ctx.prim plaintextKey)
    prefixText := some (displayPrefix plaintextKey)
    updatedAt := now }

def rotateApiKey (ctx : Context) (key : ApiKey) (id : Uuid) : Handler RotateKeyResponse := do
  let target ← loadReissuableKey key id "rotate"
  let pair ← .ofExcept (mintSigningPair ctx 1)
  let _ ← sql (.updateApiKey id { bearerColumns ctx (ctx.draws.now 0) with
    keyId := some (some pair.keyId)
    signingSecret := some (some pair.sealedSecret) })
  createAuditLog ctx key 1 "KEY_ROTATE" (some target.name)
    (some s!"Rotated secret for key {formatReference target.name id}")
  return ⟨id, generateRandomKey (ctx.draws.randomBytes 0), pair.keyId, pair.signingSecret⟩

def regenerateKey (ctx : Context) (key : ApiKey) (id : Uuid) :
    Handler RegenerateKeyResponse := do
  let target ← loadReissuableKey key id "regenerate"
  let _ ← sql (.updateApiKey id (bearerColumns ctx (ctx.draws.now 0)))
  createAuditLog ctx key 1 "KEY_REGENERATE_KEY" (some target.name)
    (some (s!"Regenerated the bearer API key for {formatReference target.name id}; its signing " ++
      "secret is unchanged"))
  return ⟨id, generateRandomKey (ctx.draws.randomBytes 0)⟩

def regenerateSecret (ctx : Context) (key : ApiKey) (id : Uuid) :
    Handler RegenerateSecretResponse := do
  let target ← loadReissuableKey key id "regenerate"
  let pair ← .ofExcept (mintSigningPair ctx 1)
  let _ ← sql (.updateApiKey id
    { keyId := some (some pair.keyId)
      signingSecret := some (some pair.sealedSecret)
      updatedAt := ctx.draws.now 0 })
  createAuditLog ctx key 1 "KEY_REGENERATE_SECRET" (some target.name)
    (some (s!"Regenerated the signing secret for {formatReference target.name id}; its bearer " ++
      "API key is unchanged"))
  return ⟨id, pair.keyId, pair.signingSecret⟩

/-! ### Grants on one hook -/

/-- The hook a grant names: by id or by name, never both. -/
def grantIdentifier (payload : HookPermInput) : Except AppError String :=
  match payload.hookId, payload.hookName with
  | some _, some _ => .error (.invalidInput "Provide either hook_id or hook_name, not both")
  | none, none => .error (.invalidInput "Either hook_id or hook_name is required")
  | some v, none | none, some v => .ok v

/-- A write that only turns verbs off needs manage authority alone; any other
needs R1 and R2, and never addresses the caller itself. -/
def guardPermissionWrite (key : ApiKey) (id : Uuid) (hook : Hook) (existing : Option Permission)
    (payload : HookPermInput) : Handler Unit := do
  if key.isMaster then pure ()
  else if isPermissionReduction existing payload.canExecute payload.canManage
      payload.canViewExecution then
    let _ ← guardHookManageConjunction key hook.id
    pure ()
  else
    .require (id ≠ key.id)
      (.forbidden "Only master API keys can grant themselves hook permissions")
    guardDelegatedHookGrant key hook payload.canExecute payload.canManage
      payload.canViewExecution

def updateKeyHookPermissions (ctx : Context) (key : ApiKey) (id : Uuid)
    (payload : HookPermInput) : Handler Unit := do
  let standing ← hasPermissionAdminStanding key
  .require (standing = true) (.forbidden "Permission denied")
  let found ← findApiKeyById id
  let targetKey ← orElse found .notFound
  let visibility ← keyVisibility key targetKey
  .require (visibility.isSome = true) .notFound
  .require (targetKey.isMaster = false)
    (.invalidInput "Cannot configure M:N permissions on a master key")
  let identifier ← .ofExcept (grantIdentifier payload)
  let hook ← resolveHook identifier
  let existing ← hookPermission id hook.id
  guardPermissionWrite key id hook existing payload
  .ofExcept (guardMasterForPrivilegedHook key hook "grant permissions on")
  sql (.upsertPermission
    { id := ctx.draws.uuid 0
      apiKeyId := id
      hookId := hook.id
      canExecute := payload.canExecute
      canManage := payload.canManage
      canViewExecution := payload.canViewExecution
      createdAt := ctx.draws.now 0 }
    [.canExecute, .canManage, .canViewExecution])
  createAuditLog ctx key 1 "KEY_PERM_UPDATE" (some hook.name)
    (some s!"Updated permissions for key {formatReference targetKey.name id}")

/-- Revoking takes manage authority over the hook and nothing above it. -/
def guardRevocation (key : ApiKey) (hook : Hook) : Handler Unit := do
  if key.isMaster then pure ()
  else
    let _ ← guardHookManageConjunction key hook.id
    pure ()

def revokeKeyHookPermission (ctx : Context) (key : ApiKey) (id : Uuid) (identifier : String) :
    Handler Unit := do
  let standing ← hasPermissionAdminStanding key
  .require (standing = true) (.forbidden "Permission denied")
  let hook ← resolveHook identifier
  guardRevocation key hook
  let removed ← sql (.deletePermissions (.and (.apiKeyIdEq id) (.hookIdEq hook.id)))
  .require (removed ≠ 0) .notFound
  let found ← findApiKeyById id
  let target ← orElse found .notFound
  createAuditLog ctx key 0 "KEY_PERM_REVOKE" (some hook.name)
    (some s!"Revoked permissions for key {formatReference target.name id}")

end HookExecutor
