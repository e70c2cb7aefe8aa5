import HookExecutor.Uuid

/-!
# The stored rows

One structure for each table, with the columns the service reads or writes, and
for the tables that are edited in place the set of columns one `UPDATE` writes.
A partial update names its columns, so a field left out of a request is not
written back from a stale read.
-/

namespace HookExecutor

/-- Nanoseconds since the epoch. -/
abbrev DateTime := Int

inductive HmacMode where
  | canonicalV1
  deriving DecidableEq

/-- How a caller presenting no key must authenticate to invoke a hook. -/
inductive AuthMode where
  | canonicalV1 | apiKeyOnly | hmacOnly | noAuth
  deriving DecidableEq

inductive ExecutionStatus where
  | success | failed | timeout
  deriving DecidableEq

structure ApiKey where
  id : Uuid
  name : String
  keyHash : String
  prefixText : String
  keyId : Option String
  signingSecret : Option String
  hmacMode : HmacMode
  boundIps : Option String
  maxConcurrentJobs : Int
  isMaster : Bool
  canManageKeys : Bool
  canManageHooks : Bool
  parentKeyId : Option Uuid
  createdAt : DateTime
  updatedAt : DateTime
  canonicalTemplate : Option String
  deriving DecidableEq

structure Hook where
  id : Uuid
  name : String
  description : Option String
  scriptPath : String
  defaultTimeoutSeconds : Int
  runAsUser : Option String
  ownerKeyId : Option Uuid
  isDeleted : Bool
  deletedAt : Option DateTime
  deletedBy : Option String
  createdAt : DateTime
  updatedAt : DateTime
  authMode : AuthMode
  hmacSecret : Option String
  signatureHeader : Option String
  signaturePrefix : Option String
  canonicalTemplate : Option String
  samplePayloadJson : Option String
  argsTemplate : Option String
  deriving DecidableEq

structure HookParameter where
  id : Uuid
  hookId : Uuid
  paramKey : String
  description : Option String
  defaultValue : Option String
  isRequired : Bool
  createdAt : DateTime
  deriving DecidableEq

/-- A row of `api_key_hook_permissions`. -/
structure Permission where
  id : Uuid
  apiKeyId : Uuid
  hookId : Uuid
  canExecute : Bool
  canManage : Bool
  canViewExecution : Bool
  createdAt : DateTime
  deriving DecidableEq

structure Execution where
  id : Uuid
  hookId : Uuid
  apiKeyId : Option Uuid
  status : ExecutionStatus
  exitCode : Option Int
  stdout : String
  stderr : String
  parametersJson : String
  durationMs : Int
  timestamp : DateTime
  deriving DecidableEq

structure AuditLog where
  id : Uuid
  apiKeyId : Option Uuid
  apiKeyName : String
  apiKeyPrefix : String
  clientIp : String
  action : String
  targetResource : Option String
  details : Option String
  timestamp : DateTime
  deriving DecidableEq

/-! ### Partial updates -/

/-- The columns of `api_keys` one `UPDATE` sets. Neither `is_master` nor
`parent_key_id` is ever among them. -/
structure ApiKeyUpdate where
  name : Option String := none
  keyHash : Option String := none
  prefixText : Option String := none
  keyId : Option (Option String) := none
  signingSecret : Option (Option String) := none
  boundIps : Option (Option String) := none
  maxConcurrentJobs : Option Int := none
  canManageKeys : Option Bool := none
  canManageHooks : Option Bool := none
  canonicalTemplate : Option (Option String) := none
  updatedAt : DateTime

def ApiKeyUpdate.apply (u : ApiKeyUpdate) (k : ApiKey) : ApiKey :=
  { k with
    name := u.name.getD k.name
    keyHash := u.keyHash.getD k.keyHash
    prefixText := u.prefixText.getD k.prefixText
    keyId := u.keyId.getD k.keyId
    signingSecret := u.signingSecret.getD k.signingSecret
    boundIps := u.boundIps.getD k.boundIps
    maxConcurrentJobs := u.maxConcurrentJobs.getD k.maxConcurrentJobs
    canManageKeys := u.canManageKeys.getD k.canManageKeys
    canManageHooks := u.canManageHooks.getD k.canManageHooks
    canonicalTemplate := u.canonicalTemplate.getD k.canonicalTemplate
    updatedAt := u.updatedAt }

@[simp] theorem ApiKeyUpdate.apply_id (u : ApiKeyUpdate) (k : ApiKey) :
    (u.apply k).id = k.id := rfl
@[simp] theorem ApiKeyUpdate.apply_isMaster (u : ApiKeyUpdate) (k : ApiKey) :
    (u.apply k).isMaster = k.isMaster := rfl
@[simp] theorem ApiKeyUpdate.apply_parentKeyId (u : ApiKeyUpdate) (k : ApiKey) :
    (u.apply k).parentKeyId = k.parentKeyId := rfl

/-- The columns of `hooks` one `UPDATE` sets. -/
structure HookUpdate where
  name : Option String := none
  description : Option (Option String) := none
  scriptPath : Option String := none
  defaultTimeoutSeconds : Option Int := none
  runAsUser : Option (Option String) := none
  ownerKeyId : Option (Option Uuid) := none
  isDeleted : Option Bool := none
  deletedAt : Option (Option DateTime) := none
  deletedBy : Option (Option String) := none
  authMode : Option AuthMode := none
  hmacSecret : Option (Option String) := none
  signatureHeader : Option (Option String) := none
  signaturePrefix : Option (Option String) := none
  canonicalTemplate : Option (Option String) := none
  samplePayloadJson : Option (Option String) := none
  argsTemplate : Option (Option String) := none
  updatedAt : DateTime

def HookUpdate.apply (u : HookUpdate) (h : Hook) : Hook :=
  { h with
    name := u.name.getD h.name
    description := u.description.getD h.description
    scriptPath := u.scriptPath.getD h.scriptPath
    defaultTimeoutSeconds := u.defaultTimeoutSeconds.getD h.defaultTimeoutSeconds
    runAsUser := u.runAsUser.getD h.runAsUser
    ownerKeyId := u.ownerKeyId.getD h.ownerKeyId
    isDeleted := u.isDeleted.getD h.isDeleted
    deletedAt := u.deletedAt.getD h.deletedAt
    deletedBy := u.deletedBy.getD h.deletedBy
    authMode := u.authMode.getD h.authMode
    hmacSecret := u.hmacSecret.getD h.hmacSecret
    signatureHeader := u.signatureHeader.getD h.signatureHeader
    signaturePrefix := u.signaturePrefix.getD h.signaturePrefix
    canonicalTemplate := u.canonicalTemplate.getD h.canonicalTemplate
    samplePayloadJson := u.samplePayloadJson.getD h.samplePayloadJson
    argsTemplate := u.argsTemplate.getD h.argsTemplate
    updatedAt := u.updatedAt }

@[simp] theorem HookUpdate.apply_id (u : HookUpdate) (h : Hook) : (u.apply h).id = h.id := rfl

structure HookParameterUpdate where
  description : Option (Option String) := none
  defaultValue : Option (Option String) := none
  isRequired : Option Bool := none

def HookParameterUpdate.apply (u : HookParameterUpdate) (p : HookParameter) : HookParameter :=
  { p with
    description := u.description.getD p.description
    defaultValue := u.defaultValue.getD p.defaultValue
    isRequired := u.isRequired.getD p.isRequired }

@[simp] theorem HookParameterUpdate.apply_id (u : HookParameterUpdate) (p : HookParameter) :
    (u.apply p).id = p.id := rfl

end HookExecutor
