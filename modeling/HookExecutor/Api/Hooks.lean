import HookExecutor.Api.Guards
import HookExecutor.Executor.Plan
import HookExecutor.Retention

/-!
# Hooks and their parameter contracts

What a hook is: its creation, the edits R2 governs, its parameters, and the
path through the trash. Running one lives in `Api.Executions`.
-/

namespace HookExecutor

open Text

structure HookDetail where
  hook : Hook
  isOwner : Bool
  parameters : List HookParameter
  canExecute : Bool
  canManage : Bool
  /-- The secret itself never leaves the server. -/
  hmacSecretConfigured : Bool

def buildHookDetail (key : ApiKey) (model : Hook) : Handler HookDetail := do
  let parameters ← loadParameters model.id
  let held ← (if key.isMaster then pure none else hookPermission key.id model.id)
  return { hook := { model with hmacSecret := none }
           isOwner := key.isMaster || model.ownerKeyId == some key.id
           parameters := parameters
           canExecute := key.isMaster || held.any (·.canExecute)
           canManage := key.isMaster || held.any (·.canManage)
           hmacSecretConfigured := model.hmacSecret.isSome }

/-! ### Field validation -/

/-- The secret to store: cleared, sealed, or the existing one. `HMAC_ONLY`
cannot be without one. -/
def validateAndSealHmacSecret (ctx : Context) (draw : Nat) (effectiveMode : AuthMode)
    (payloadSecret existingSealed : Option String) : Except AppError (Option String) :=
  match payloadSecret with
  | some "" =>
    if effectiveMode = .hmacOnly then
      .error (.invalidInput "hmac_secret cannot be cleared while auth_mode is HMAC_ONLY")
    else .ok none
  | some raw => (sealSecret ctx draw raw).map some
  | none =>
    if effectiveMode = .hmacOnly ∧ existingSealed.isNone then
      .error (.invalidInput "hmac_secret is required when auth_mode is HMAC_ONLY")
    else .ok existingSealed

def validateSamplePayloadMatchesParameters (platform : Platform)
    (samplePayloadJson : Option String) (paramKeys : List String) : Except AppError Unit :=
  match nonEmpty samplePayloadJson with
  | none => .ok ()
  | some raw =>
    match platform.parseJson (asBytes raw) with
    | .error e => .error (.invalidInput s!"sample_payload_json is not valid JSON: {e}")
    | .ok (.object members) =>
      let missing := paramKeys.filter fun key => (Json.member members key).isNone
      if missing.isEmpty then .ok ()
      else .error (.invalidInput ("sample_payload_json is missing the declared parameter(s): " ++
        ", ".intercalate missing))
    | .ok _ =>
      .error (.invalidInput "sample_payload_json must be a JSON object at the top level")

def validateArgsTemplateMatchesParameters (argsTemplate : Option String)
    (paramKeys : List String) : Except AppError Unit :=
  match nonEmpty argsTemplate with
  | none => .ok ()
  | some template =>
    let undeclared := (Executor.extractTemplateVariableNames template).filter
      fun name => !paramKeys.contains name
    if undeclared.isEmpty then .ok ()
    else .error (.invalidInput ("args_template references undeclared parameter(s): " ++
      ", ".intercalate (undeclared.dedup.insertionSort Executor.textLe)))

def invalidParamKey (paramKey : String) : AppError :=
  .invalidInput s!"Invalid param_key '{paramKey}': must match [A-Za-z_][A-Za-z0-9_]*"

/-- The first declared key that is not an identifier. -/
def validateParamKeys (declared : List ParameterInput) : Except AppError Unit :=
  match declared.find? fun param => !Executor.isValidParamKey param.paramKey with
  | some param => .error (invalidParamKey param.paramKey)
  | none => .ok ()

/-! ### Creation -/

def parameterRow (ctx : Context) (draw : Nat) (hookId : Uuid) (param : ParameterInput) :
    HookParameter :=
  { id := ctx.draws.uuid draw
    hookId := hookId
    paramKey := param.paramKey
    description := param.description
    defaultValue := param.defaultValue
    isRequired := param.isRequired.getD true
    createdAt := ctx.draws.now draw }

/-- The fields of a new hook that were checked and normalized. -/
structure CheckedHook where
  name : String
  runAsUser : Option String
  timeout : Int
  declared : List ParameterInput
  authMode : AuthMode
  hmacSecret : Option String

def guardHookCreator (key : ApiKey) : Except AppError Unit :=
  if !key.isMaster && !key.canManageHooks then .error (.forbidden "Permission denied") else .ok ()

/-- Authorization first, then every field, all before anything is written. -/
def validateCreateHook (ctx : Context) (key : ApiKey) (payload : CreateHookPayload) :
    Except AppError CheckedHook := do
  guardHookCreator key
  let runAsUser ← normalizeRunAsUser key payload.runAsUser
  let name := trim payload.name
  (if name = "" then .error (.invalidInput "name is required") else .ok ())
  (Executor.validateScriptPath payload.scriptPath ctx.state.config.allowedScriptRoots).mapError
    ScriptError.toAppError
  let timeout := payload.defaultTimeoutSeconds.getD 30
  validateTimeout timeout
  let declared := payload.parameters.getD []
  validateParamKeys declared
  let authMode := payload.authMode.getD .canonicalV1
  let hmacSecret ← validateAndSealHmacSecret ctx 0 authMode payload.hmacSecret none
  let declaredKeys := declared.map (·.paramKey)
  validateSamplePayloadMatchesParameters ctx.state.platform payload.samplePayloadJson declaredKeys
  validateArgsTemplateMatchesParameters payload.argsTemplate declaredKeys
  return ⟨name, runAsUser, timeout, declared, authMode, hmacSecret⟩

def newHook (ctx : Context) (key : ApiKey) (payload : CreateHookPayload) (checked : CheckedHook) :
    Hook :=
  { id := ctx.draws.uuid 0
    name := checked.name
    description := payload.description
    scriptPath := payload.scriptPath
    defaultTimeoutSeconds := checked.timeout
    runAsUser := checked.runAsUser
    ownerKeyId := some key.id
    isDeleted := false
    deletedAt := none
    deletedBy := none
    createdAt := ctx.draws.now 0
    updatedAt := ctx.draws.now 0
    authMode := checked.authMode
    hmacSecret := checked.hmacSecret
    signatureHeader := nonEmpty payload.signatureHeader
    signaturePrefix := nonEmpty payload.signaturePrefix
    canonicalTemplate := nonEmpty payload.canonicalTemplate
    samplePayloadJson := nonEmpty payload.samplePayloadJson
    argsTemplate := nonEmpty payload.argsTemplate }

/-- A name held by the trash is worth saying so. -/
def nameConflict (name : String) (trashed : Option Hook) : AppError :=
  .conflict (match trashed with
    | some _ => (s!"A deleted hook named '{name}' still holds that name. Restore it, or purge " ++
        s!"it with DELETE /api/hooks/{name}?hard=true, before reusing the name.")
    | none => s!"A hook named '{name}' already exists")

def insertNewHook (row : Hook) : Handler Unit := do
  let inserted ← trySql (.insertHook row)
  match inserted with
  | .ok () => pure ()
  | .error .uniqueConstraintViolation =>
    let trashed ← List.head? <$>
      sql (.selectHooks (.and (.nameEq row.name) (.isDeleted true)) .unordered)
    .fail (nameConflict row.name trashed)
  | .error err => .fail (.dbError err)

/-- Insert a parameter, naming it if the hook already declares it. -/
def insertParameter (row : HookParameter) (duplicate : AppError) : Handler Unit := do
  let inserted ← trySql (.insertHookParameter row)
  match inserted with
  | .ok () => pure ()
  | .error .uniqueConstraintViolation => .fail duplicate
  | .error err => .fail (.dbError err)

/-- One insert for each declared parameter, in order. -/
def insertDeclared (ctx : Context) (hookId : Uuid) : (draw : Nat) → List ParameterInput →
    Handler Unit
  | _, [] => pure ()
  | draw, param :: rest => do
    insertParameter (parameterRow ctx draw hookId param)
      (.conflict s!"Duplicate parameter '{param.paramKey}' for this hook")
    insertDeclared ctx hookId (draw + 1) rest

/-- The creator's own row on a new hook, every verb set. -/
def fullPermission (ctx : Context) (draw : Nat) (keyId hookId : Uuid) : Permission :=
  { id := ctx.draws.uuid draw
    apiKeyId := keyId
    hookId := hookId
    canExecute := true
    canManage := true
    canViewExecution := true
    createdAt := ctx.draws.now draw }

def grantFullHookPermission (ctx : Context) (draw : Nat) (keyId hookId : Uuid) : Handler Unit :=
  sql (.upsertPermission (fullPermission ctx draw keyId hookId) [.canExecute, .canManage])

def createHook (ctx : Context) (key : ApiKey) (payload : CreateHookPayload) :
    Handler HookDetail := do
  let checked ← .ofExcept (validateCreateHook ctx key payload)
  let row := newHook ctx key payload checked
  insertNewHook row
  insertDeclared ctx row.id 3 checked.declared
  grantFullHookPermission ctx 1 key.id row.id
  createAuditLog ctx key 2 "HOOK_CREATE" (some checked.name)
    (some (s!"Created hook {formatReference checked.name row.id} -> {payload.scriptPath} " ++
      s!"({describePrivilege checked.runAsUser})"))
  let found ← findHookById row.id
  let created ← orElse found .internal
  buildHookDetail key created

/-! ### Reading -/

/-- The details of hooks in turn. -/
def hookDetails (key : ApiKey) : List Hook → Handler (List HookDetail)
  | [] => pure []
  | hook :: rest => do
    let detail ← buildHookDetail key hook
    let details ← hookDetails key rest
    return detail :: details

def listHooks (key : ApiKey) (query : ListHooksQuery) : Handler (List HookDetail) := do
  let includeDeleted := query.includeDeleted.getD false
  .ofExcept (guardMasterForDeletedView key includeDeleted)
  let live := if includeDeleted then HookCondition.all else .isDeleted false
  let visible ← visibleHookIds key
  let hooks ← (match visible with
    | some [] => pure []
    | some ids => sql (.selectHooks (.and live (.idIn ids)) .byName)
    | none => sql (.selectHooks live .byName))
  hookDetails key hooks

def getHook (key : ApiKey) (identifier : String) (query : ListHooksQuery) :
    Handler HookDetail := do
  let includeDeleted := query.includeDeleted.getD false
  .ofExcept (guardMasterForDeletedView key includeDeleted)
  let model ← (if includeDeleted then resolveHookIncludingDeleted identifier
    else resolveHook identifier)
  guardVisibility key model
  buildHookDetail key model

/-! ### Editing -/

/-- Fields that decide what runs are governed by R2 in full. -/
def touchesDispatch (payload : UpdateHookPayload) : Bool :=
  payload.scriptPath.isSome || payload.runAsUser.isSome || payload.argsTemplate.isSome

def requestedOwner (key : ApiKey) (payload : UpdateHookPayload) : Handler Unit := do
  match payload.ownerKeyId with
  | none => pure ()
  | some owner =>
    .require (key.isMaster = true)
      (.forbidden "Only master API keys can reassign a hook's owner")
    let existing ← findApiKeyById owner
    .require (existing.isSome = true)
      (.invalidInput "owner_key_id does not name an existing API key")

/-- A field the payload names, the empty text clearing it. -/
def effectiveText (named existing : Option String) : Option String :=
  match named with
  | some raw => nonEmpty (some raw)
  | none => existing

/-- The checks on what the payload alone says, after authorization. -/
def validateHookFields (ctx : Context) (payload : UpdateHookPayload) : Except AppError Unit := do
  checkField payload.scriptPath fun path =>
    (Executor.validateScriptPath path ctx.state.config.allowedScriptRoots).mapError
      ScriptError.toAppError
  checkField payload.defaultTimeoutSeconds validateTimeout

/-- The checks of the stored contract against what the row will hold. -/
def validateHookContract (ctx : Context) (model : Hook) (payload : UpdateHookPayload)
    (declared : List HookParameter) : Except AppError Unit := do
  let declaredKeys := declared.map (·.paramKey)
  validateSamplePayloadMatchesParameters ctx.state.platform
    (effectiveText payload.samplePayloadJson model.samplePayloadJson) declaredKeys
  validateArgsTemplateMatchesParameters
    (effectiveText payload.argsTemplate model.argsTemplate) declaredKeys
  checkField payload.name fun name =>
    if trim name = "" then .error (.invalidInput "name must not be empty") else .ok ()

/-- The columns the update sets. `hmac_secret` is always among them. -/
def hookChanges (payload : UpdateHookPayload) (runAsUser : Option (Option String))
    (hmacSecret : Option String) (now : DateTime) : HookUpdate :=
  { name := payload.name.map trim
    description := payload.description.map some
    scriptPath := payload.scriptPath
    defaultTimeoutSeconds := payload.defaultTimeoutSeconds
    runAsUser := runAsUser
    ownerKeyId := payload.ownerKeyId.map some
    authMode := payload.authMode
    hmacSecret := some hmacSecret
    signatureHeader := payload.signatureHeader.map fun s => nonEmpty (some s)
    signaturePrefix := payload.signaturePrefix.map fun s => nonEmpty (some s)
    canonicalTemplate := payload.canonicalTemplate.map fun s => nonEmpty (some s)
    samplePayloadJson := payload.samplePayloadJson.map fun s => nonEmpty (some s)
    argsTemplate := payload.argsTemplate.map fun s => nonEmpty (some s)
    updatedAt := now }

def authModeText : AuthMode → String
  | .canonicalV1 => "CanonicalV1"
  | .apiKeyOnly => "ApiKeyOnly"
  | .hmacOnly => "HmacOnly"
  | .noAuth => "NoAuth"

/-- What the audit row says was edited, in the order the fields are applied. -/
def hookChangeTexts (payload : UpdateHookPayload) (runAsUser : Option (Option String)) :
    List String :=
  [payload.name.map fun name => s!"name={trim name}",
    payload.ownerKeyId.map fun owner => s!"owner_key_id={Uuid.toText owner}",
    payload.description.map fun _ => "description",
    payload.scriptPath.map fun path => s!"script_path={path}",
    payload.defaultTimeoutSeconds.map fun timeout => s!"default_timeout_seconds={timeout}",
    runAsUser.map describePrivilege,
    payload.authMode.map fun mode => s!"auth_mode={authModeText mode}",
    payload.hmacSecret.map fun _ => "hmac_secret",
    payload.signatureHeader.map fun header => s!"signature_header={header}",
    payload.signaturePrefix.map fun p => s!"signature_prefix={p}",
    payload.canonicalTemplate.map fun _ => "canonical_template",
    payload.samplePayloadJson.map fun _ => "sample_payload_json",
    payload.argsTemplate.map fun _ => "args_template"].filterMap id

def normalizeRequestedRunAsUser (key : ApiKey) (requested : Option String) :
    Except AppError (Option (Option String)) :=
  match requested with
  | some raw => (normalizeRunAsUser key (some raw)).map some
  | none => .ok none

/-- Who may make this edit. -/
def guardUpdateHook (key : ApiKey) (model : Hook) (payload : UpdateHookPayload) :
    Handler (Option (Option String)) := do
  guardManage key model
  (if touchesDispatch payload then guardDispatchConfiguration key model else pure ())
  .ofExcept (guardMasterForPrivilegedHook key model "modify")
  let runAsUser ← .ofExcept (normalizeRequestedRunAsUser key payload.runAsUser)
  (if payload.name.isSome then .ofExcept (guardLifecycleAuthority key model "rename") else pure ())
  requestedOwner key payload
  return runAsUser

def writeHookUpdate (id : Uuid) (u : HookUpdate) : Handler Hook := do
  let updated ← trySql (.updateHook id u)
  match updated with
  | .ok hook => pure hook
  | .error .uniqueConstraintViolation => .fail (.conflict "Another hook already uses that name")
  | .error err => .fail (.dbError err)

def updateHook (ctx : Context) (key : ApiKey) (identifier : String)
    (payload : UpdateHookPayload) : Handler HookDetail := do
  let model ← resolveHook identifier
  let runAsUser ← guardUpdateHook key model payload
  .ofExcept (validateHookFields ctx payload)
  let hmacSecret ← .ofExcept (validateAndSealHmacSecret ctx 0
    (payload.authMode.getD model.authMode) payload.hmacSecret model.hmacSecret)
  let declared ← loadParameters model.id
  .ofExcept (validateHookContract ctx model payload declared)
  let updated ← writeHookUpdate model.id
    (hookChanges payload runAsUser hmacSecret (ctx.draws.now 0))
  let changes := ", ".intercalate (hookChangeTexts payload runAsUser)
  createAuditLog ctx key 1 "HOOK_UPDATE" (some updated.name)
    (some s!"Updated hook {formatReference updated.name model.id} [{changes}]")
  buildHookDetail key updated

/-! ### The trash -/

def trashUpdate (key : ApiKey) (now : DateTime) : HookUpdate :=
  { isDeleted := some true
    deletedAt := some (some now)
    deletedBy := some (some (Uuid.toText key.id))
    updatedAt := now }

def deleteHook (ctx : Context) (key : ApiKey) (identifier : String) (query : DeleteHookQuery) :
    Handler Unit := do
  let hard := query.hard.getD false
  let model ← (if hard then resolveHookIncludingDeleted identifier else resolveHook identifier)
  guardManage key model
  .ofExcept (guardLifecycleAuthority key model "delete")
  .ofExcept (guardMasterForPrivilegedHook key model "delete")
  if hard then
    .require (key.isMaster = true) (.forbidden ("Only master API keys can permanently delete a " ++
      "hook; omit ?hard=true to move it to the trash instead"))
    let removed ← sql (.deleteHooks (.idEq model.id))
    .require (removed ≠ 0) .notFound
    createAuditLog ctx key 0 "HOOK_HARD_DELETE" (some model.name)
      (some (s!"Permanently deleted hook {formatReference model.name model.id}, discarding its " ++
        "parameters, permissions, and execution history"))
  else
    let trashed ← sql (.updateHooks (.and (.idEq model.id) (.isDeleted false))
      (trashUpdate key (ctx.draws.now 0)))
    .require (trashed ≠ 0) .notFound
    createAuditLog ctx key 1 "HOOK_DELETE" (some model.name)
      (some (s!"Moved hook {formatReference model.name model.id} to the trash; it is " ++
        s!"recoverable until purged after {ctx.state.config.deletedHookRetentionDays} days"))

def restoreHook (ctx : Context) (key : ApiKey) (identifier : String) : Handler HookDetail := do
  .require (key.isMaster = true) (.forbidden "Only master API keys can restore a deleted hook")
  let model ← resolveHookIncludingDeleted identifier
  .require (model.isDeleted = true) (.invalidInput s!"Hook '{model.name}' is not deleted")
  let _ ← sql (.updateHook model.id
    { isDeleted := some false
      deletedAt := some none
      deletedBy := some none
      updatedAt := ctx.draws.now 0 })
  createAuditLog ctx key 1 "HOOK_RESTORE" (some model.name)
    (some s!"Restored hook {formatReference model.name model.id} from the trash")
  let found ← findHookById model.id
  let restored ← orElse found .internal
  buildHookDetail key restored

structure PurgeResponse where
  purged : Nat
  olderThanDays : Int

def purgeDays (query : PurgeQuery) (default : Int) : Except AppError Int :=
  let days := query.olderThanDays.getD default
  if days < 0 then .error (.invalidInput "older_than_days must not be negative") else .ok days

def purgeDeletedHooks (ctx : Context) (key : ApiKey) (query : PurgeQuery) :
    Handler PurgeResponse := do
  .require (key.isMaster = true) (.forbidden "Only master keys can purge deleted hooks")
  let days ← .ofExcept (purgeDays query ctx.state.config.deletedHookRetentionDays)
  let purged ← purgeExpiredDeletedHooks (ctx.draws.now 0) days
  createAuditLog ctx key 1 "HOOK_PURGE" none
    (some s!"Purged {purged} deleted hook(s) trashed more than {days} day(s) ago")
  return ⟨purged, days⟩

/-! ### Parameters -/

def listHookParameters (key : ApiKey) (identifier : String) : Handler (List HookParameter) := do
  let model ← resolveHook identifier
  guardVisibility key model
  loadParameters model.id

def createHookParameter (ctx : Context) (key : ApiKey) (identifier : String)
    (payload : ParameterInput) : Handler HookParameter := do
  let model ← resolveHook identifier
  guardManage key model
  .ofExcept (guardMasterForPrivilegedHook key model "declare parameters on")
  .require (Executor.isValidParamKey payload.paramKey = true) (invalidParamKey payload.paramKey)
  insertParameter (parameterRow ctx 0 model.id payload)
    (.conflict s!"Parameter '{payload.paramKey}' is already declared on this hook")
  createAuditLog ctx key 1 "HOOK_PARAM_CREATE" (some model.name)
    (some (s!"Declared parameter '{payload.paramKey}' on hook " ++
      s!"{formatReference model.name model.id}"))
  let found ← sql (.findHookParameter (ctx.draws.uuid 0))
  orElse found .internal

/-- A parameter of this hook; one of another hook is answered as absent. -/
def findParameterOf (model : Hook) (paramId : Uuid) : Handler HookParameter := do
  let found ← sql (.findHookParameter paramId)
  orElse (found.filter fun p => p.hookId == model.id) .notFound

def updateHookParameter (ctx : Context) (key : ApiKey) (identifier : String) (paramId : Uuid)
    (payload : UpdateParameterPayload) : Handler HookParameter := do
  let model ← resolveHook identifier
  guardManage key model
  .ofExcept (guardMasterForPrivilegedHook key model "modify parameters on")
  let param ← findParameterOf model paramId
  let updated ← sql (.updateHookParameter paramId
    { description := payload.description.map some
      defaultValue := payload.defaultValue.map some
      isRequired := payload.isRequired })
  createAuditLog ctx key 0 "HOOK_PARAM_UPDATE" (some model.name)
    (some s!"Updated parameter '{param.paramKey}' on hook {formatReference model.name model.id}")
  return updated

def deleteHookParameter (ctx : Context) (key : ApiKey) (identifier : String) (paramId : Uuid) :
    Handler Unit := do
  let model ← resolveHook identifier
  guardManage key model
  .ofExcept (guardMasterForPrivilegedHook key model "remove parameters from")
  let param ← findParameterOf model paramId
  let _ ← sql (.deleteHookParameter paramId)
  createAuditLog ctx key 0 "HOOK_PARAM_DELETE" (some model.name)
    (some (s!"Removed parameter '{param.paramKey}' from hook " ++
      s!"{formatReference model.name model.id}"))

end HookExecutor
