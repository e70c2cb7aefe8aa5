import HookExecutor.Api.Payload
import HookExecutor.Executor.Script

/-!
# Authorization decisions

Each guard answers whether a caller may do something. It reads the database at
most, writes nothing, and its refusal carries the text the client is shown.
-/

namespace HookExecutor

def guardMasterForDeletedView (key : ApiKey) (includeDeleted : Bool) : Except AppError Unit :=
  if includeDeleted && !key.isMaster then
    .error (.forbidden "Only master API keys can view deleted hooks")
  else .ok ()

/-- The row a key holds on a hook. -/
def hookPermission (keyId hookId : Uuid) : Handler (Option Permission) :=
  List.head? <$> sql (.selectPermissions (.and (.apiKeyIdEq keyId) (.hookIdEq hookId)))

/-- A caller with a row can see the hook and is told it is short a verb; a
caller with none is told nothing. -/
def verbDenied (held : Option Permission) (verb : String) : AppError :=
  match held with
  | some _ => .forbidden s!"Permission denied: You do not have {verb} access to this hook"
  | none => .notFound

def guardExecute (key : ApiKey) (hookId : Uuid) : Handler Unit := do
  if key.isMaster then pure ()
  else
    let held ← hookPermission key.id hookId
    .require (held.any (·.canExecute) = true) (verbDenied held "execute")

/-- R2: the global scope and a `can_manage` row together. -/
def guardHookManageConjunction (key : ApiKey) (hookId : Uuid) : Handler Permission := do
  let held ← hookPermission key.id hookId
  let row ← orElse held .notFound
  .require (key.canManageKeys = true ∧ row.canManage = true)
    (.forbidden "Permission denied: You do not have manage access to this hook")
  return row

def guardManage (key : ApiKey) (hook : Hook) : Handler Unit := do
  if key.isMaster || hook.ownerKeyId == some key.id then pure ()
  else
    let _ ← guardHookManageConjunction key hook.id
    pure ()

def guardDispatchConfiguration (key : ApiKey) (hook : Hook) : Handler Unit := do
  if key.isMaster then pure ()
  else
    let _ ← guardHookManageConjunction key hook.id
    pure ()

def guardVisibility (key : ApiKey) (hook : Hook) : Handler Unit := do
  if key.isMaster || hook.ownerKeyId == some key.id then pure ()
  else
    let held ← hookPermission key.id hook.id
    .require (held.any (fun p => p.canExecute || p.canManage || p.canViewExecution) = true)
      .notFound

def mayReadExecution (key : ApiKey) (execution : Execution) : Handler Bool := do
  if key.isMaster || execution.apiKeyId == some key.id then pure true
  else
    let hook ← findHookById execution.hookId
    if hook.any fun h => h.ownerKeyId == some key.id then pure true
    else
      let held ← hookPermission key.id execution.hookId
      pure (held.any fun p => p.canViewExecution || p.canManage)

def executionVisibleHookIds (key : ApiKey) : Handler (List Uuid) := do
  let owned ← sql (.selectHooks (.ownerKeyIdIn [key.id]) .unordered)
  let granted ← sql (.selectPermissions
    (.and (.apiKeyIdEq key.id) (.or .canViewExecution .canManage)))
  return ((owned.map (·.id)) ++ granted.map (·.hookId)).dedup

def visibleHookIds (key : ApiKey) : Handler (Option (List Uuid)) := do
  if key.isMaster then pure none
  else
    let granted ← sql (.selectPermissions
      (.and (.apiKeyIdEq key.id) (.or .canExecute (.or .canManage .canViewExecution))))
    let owned ← sql (.selectHooks (.ownerKeyIdIn [key.id]) .unordered)
    return some ((granted.map (·.hookId)) ++ owned.map (·.id)).dedup

/-- Only the master assigns an account; blank is stored as none. -/
def normalizeRunAsUser (key : ApiKey) (runAsUser : Option String) :
    Except AppError (Option String) :=
  match Executor.effectiveRunAsUser runAsUser with
  | none => .ok none
  | some user =>
    if !key.isMaster then
      .error (.forbidden "Only master API keys can assign run_as_user privileges")
    else ((Executor.validateRunAsUser user).mapError ScriptError.toAppError).map fun _ => some user

/-- Turning a global scope on is the master's alone; off is not granting. -/
def guardMasterToGrantScopes (key : ApiKey) (canManageKeys canManageHooks : Option Bool) :
    Except AppError Unit :=
  if key.isMaster then .ok ()
  else if canManageKeys.getD false then
    .error (.forbidden "Only master API keys can grant 'can_manage_keys'")
  else if canManageHooks.getD false then
    .error (.forbidden "Only master API keys can grant 'can_manage_hooks'")
  else .ok ()

def guardCanonicalV1ForKeyManagement (canManageKeys : Bool) (hmacMode : HmacMode)
    (canonicalTemplate : Option String) : Except AppError Unit :=
  if !canManageKeys then .ok ()
  else if hmacMode ≠ .canonicalV1 then
    .error (.invalidInput ("can_manage_keys requires hmac_mode = CANONICAL_V1: a key that can " ++
      "administer other credentials must not opt out of replay protection. Create or promote it " ++
      "as a CANONICAL_V1 key, or leave can_manage_keys unset."))
  else if canonicalTemplate.any fun t => t != "" then
    .error (.invalidInput ("can_manage_keys requires the standard canonical_template: a key " ++
      "that can administer other credentials must sign over the template this codebase's " ++
      "verification has been reviewed against, not one of its own choosing. Clear " ++
      "canonical_template, or leave can_manage_keys unset."))
  else .ok ()

def guardMasterToAdminister (key target : ApiKey) (action : String) : Except AppError Unit :=
  if !target.isMaster || key.isMaster then .ok ()
  else .error (.forbidden s!"Only master API keys can {action} a master key")

def refuseMasterLifecycleAction (target : ApiKey) (action : String) : Except AppError Unit :=
  if !target.isMaster then .ok ()
  else .error (.forbidden (s!"The master API key cannot be {action}d through the API; remove " ++
    "its row directly in the database and restart to re-mint it"))

/-- The first field of the payload other than `bound_ips`. -/
def masterImmutableField (payload : UpdateApiKeyPayload) : Option String :=
  ([("name", payload.name.isSome), ("max_concurrent_jobs", payload.maxConcurrentJobs.isSome),
    ("can_manage_keys", payload.canManageKeys.isSome),
    ("canonical_template", payload.canonicalTemplate.isSome),
    ("can_manage_hooks", payload.canManageHooks.isSome)].find? (·.2)).map (·.1)

def guardMasterSelfEditIsBoundIpsOnly (key target : ApiKey) (payload : UpdateApiKeyPayload) :
    Except AppError Unit :=
  if !target.isMaster then .ok ()
  else if key.id ≠ target.id then
    .error (.forbidden "Only the master API key itself may edit the master key's bound_ips")
  else match masterImmutableField payload with
    | none => .ok ()
    | some field => .error (.forbidden ("The master API key is immutable except for its own " ++
        s!"'bound_ips'; '{field}' cannot be changed through the API"))

/-- A hook that runs elevated is the master's to touch. -/
def guardMasterForPrivilegedHook (key : ApiKey) (hook : Hook) (action : String) :
    Except AppError Unit :=
  if key.isMaster then .ok ()
  else match Executor.effectiveRunAsUser hook.runAsUser with
    | none => .ok ()
    | some user =>
      .error (.forbidden s!"Only master API keys can {action} a hook that runs as '{user}'")

def managesAnyHook (keyId : Uuid) : Handler Bool :=
  (fun rows : List Permission => !rows.isEmpty) <$>
    sql (.selectPermissions (.and (.apiKeyIdEq keyId) .canManage))

def hasPermissionAdminStanding (key : ApiKey) : Handler Bool :=
  if key.isMaster then pure true
  else if !key.canManageKeys then pure false
  else managesAnyHook key.id

/-- Deleting and renaming need the owner or the master; managing is not
enough. -/
def guardLifecycleAuthority (key : ApiKey) (hook : Hook) (action : String) :
    Except AppError Unit :=
  if key.isMaster || hook.ownerKeyId == some key.id then .ok ()
  else .error (.forbidden (s!"Permission denied: only the master key or hook '{hook.name}''s " ++
    s!"owner may {action} it; managing a hook does not confer lifecycle authority over it"))

/-- Whether a write turns on no verb the target does not hold. -/
def isPermissionReduction (existing : Option Permission)
    (requestedExecute requestedManage requestedViewExecution : Bool) : Bool :=
  !(requestedExecute && !existing.any (·.canExecute)) &&
    !(requestedManage && !existing.any (·.canManage)) &&
    !(requestedViewExecution && !existing.any (·.canViewExecution))

/-- The first verb asked for that the held row lacks. -/
def grantOverreach (held : Permission)
    (requestedExecute requestedManage requestedViewExecution : Bool) : Option String :=
  ([("can_execute", requestedExecute && !held.canExecute),
    ("can_manage", requestedManage && !held.canManage),
    ("can_view_execution", requestedViewExecution && !held.canViewExecution)].find? (·.2)).map
      (·.1)

/-- R1 and R2 together: only a manager of the hook grants on it, and only the
verbs it holds. -/
def guardDelegatedHookGrant (key : ApiKey) (hook : Hook)
    (requestedExecute requestedManage requestedViewExecution : Bool) : Handler Unit := do
  if key.isMaster then pure ()
  else
    let held ← guardHookManageConjunction key hook.id
    match grantOverreach held requestedExecute requestedManage requestedViewExecution with
    | none => pure ()
    | some verb => .fail (.forbidden (s!"Permission denied: you cannot grant '{verb}' on hook " ++
        s!"'{hook.name}' because you do not hold it yourself"))

end HookExecutor
