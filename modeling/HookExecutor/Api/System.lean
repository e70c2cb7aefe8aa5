import HookExecutor.Api.Executions

/-!
# The audit trail and the settings

The two master-only reads.
-/

namespace HookExecutor

def optionalAuditCondition (filter : Option String)
    (build : String → Handler AuditLogCondition) : Handler AuditLogCondition :=
  match nonEmpty filter with
  | some raw => build raw
  | none => pure .all

def listAuditLogs (ctx : Context) (key : ApiKey) (query : AuditLogQuery) :
    Handler (List AuditLog) := do
  .require (key.isMaster = true) (.forbidden "Only master keys can view audit logs")
  let byAction ← optionalAuditCondition query.action fun action => pure (.actionEq action)
  let byIp ← optionalAuditCondition query.clientIp fun ip =>
    pure (.clientIpLike (ctx.state.platform.like ip))
  let byKey ← optionalAuditCondition query.apiKey fun raw =>
    .apiKeyIdIn <$> resolveApiKeyFilter ctx.state.platform raw
  let bySince ← optionalAuditCondition query.since fun raw =>
    .since <$> Program.ofExcept (parseInstant ctx.state.platform "since" raw)
  let byUntil ← optionalAuditCondition query.until_ fun raw =>
    .before <$> Program.ofExcept (parseInstant ctx.state.platform "until" raw)
  sql (.selectAuditLogs (.and byAction (.and byIp (.and byKey (.and bySince byUntil))))
    ⟨query.limit.getD defaultPageLimit, query.offset.getD 0⟩)

structure SettingsResponse where
  config : RuntimeConfig
  keylessHooksAllowed : Bool
  signingSecretsEncrypted : Bool
  hookCount : Nat
  apiKeyCount : Nat
  executionCount : Nat

def getSettings (ctx : Context) (key : ApiKey) : Handler SettingsResponse := do
  .require (key.isMaster = true) (.forbidden "Only master keys can view system settings")
  let hooks ← sql (.selectHooks .all .unordered)
  let keys ← sql (.selectApiKeys .all .unordered)
  let executions ← sql (.selectExecutions .all)
  return { config := ctx.state.config
           keylessHooksAllowed := !ctx.state.config.requireSignedRequests
           signingSecretsEncrypted := ctx.state.cipher.isEncrypting
           hookCount := hooks.length
           apiKeyCount := keys.length
           executionCount := executions.length }

end HookExecutor
