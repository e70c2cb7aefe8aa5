import HookExecutor.Entities

/-!
# Request payloads

What the strict extractors hand to the handlers. Every payload denies unknown
fields, so a field that is not declared here cannot be sent: no payload carries
`is_master` or `parent_key_id`, and `hmac_mode` is fixed at creation.
-/

namespace HookExecutor

structure CreateApiKeyPayload where
  name : String
  boundIps : Option String := none
  maxConcurrentJobs : Option Int := none
  hmacMode : Option HmacMode := none
  canonicalTemplate : Option String := none
  canManageKeys : Option Bool := none
  canManageHooks : Option Bool := none
  generateSigningSecret : Option Bool := none

structure UpdateApiKeyPayload where
  name : Option String := none
  boundIps : Option String := none
  maxConcurrentJobs : Option Int := none
  canonicalTemplate : Option String := none
  canManageKeys : Option Bool := none
  canManageHooks : Option Bool := none

inductive EntityResolution where
  | delete
  | reassign (target : Uuid)
  deriving DecidableEq

/-- A map from entity to resolution: no entity is named twice. -/
structure DeleteApiKeyPayload where
  resolutions : List (Uuid × EntityResolution)
  nodup : (resolutions.map (·.1)).Nodup

structure HookPermInput where
  hookId : Option String := none
  hookName : Option String := none
  canExecute : Bool
  canManage : Bool
  canViewExecution : Bool := false

structure ParameterInput where
  paramKey : String
  description : Option String := none
  defaultValue : Option String := none
  isRequired : Option Bool := none

structure CreateHookPayload where
  name : String
  description : Option String := none
  scriptPath : String
  defaultTimeoutSeconds : Option Int := none
  runAsUser : Option String := none
  parameters : Option (List ParameterInput) := none
  authMode : Option AuthMode := none
  hmacSecret : Option String := none
  signatureHeader : Option String := none
  signaturePrefix : Option String := none
  canonicalTemplate : Option String := none
  samplePayloadJson : Option String := none
  argsTemplate : Option String := none

structure UpdateHookPayload where
  name : Option String := none
  description : Option String := none
  scriptPath : Option String := none
  defaultTimeoutSeconds : Option Int := none
  runAsUser : Option String := none
  ownerKeyId : Option Uuid := none
  authMode : Option AuthMode := none
  hmacSecret : Option String := none
  signatureHeader : Option String := none
  signaturePrefix : Option String := none
  canonicalTemplate : Option String := none
  samplePayloadJson : Option String := none
  argsTemplate : Option String := none

structure UpdateParameterPayload where
  description : Option String := none
  defaultValue : Option String := none
  isRequired : Option Bool := none

structure ListHooksQuery where
  includeDeleted : Option Bool := none

structure DeleteHookQuery where
  hard : Option Bool := none

structure PurgeQuery where
  olderThanDays : Option Int := none

structure ExecutionQuery where
  hook : Option String := none
  status : Option String := none
  apiKey : Option String := none
  since : Option String := none
  until_ : Option String := none
  limit : Option Nat := none
  offset : Option Nat := none

structure AuditLogQuery where
  action : Option String := none
  clientIp : Option String := none
  apiKey : Option String := none
  since : Option String := none
  until_ : Option String := none
  limit : Option Nat := none
  offset : Option Nat := none

end HookExecutor
