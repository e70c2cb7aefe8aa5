import HookExecutor.Api.Hooks
import HookExecutor.Executor.Execute

/-!
# Running hooks, and reading what happened

A request that runs or previews a hook names it once more than the middleware
did: the handler resolves the identifier its path extractor decoded. An
execution record is creator-private, and the reads below it say who else may
see it.
-/

namespace HookExecutor

open Text

structure ExecutionView where
  id : Uuid
  hookId : Uuid
  hookName : String
  apiKeyId : Option Uuid
  apiKeyName : Option String
  status : ExecutionStatus
  exitCode : Option Int
  stdout : String
  stderr : String
  parameters : Json
  durationMs : Int
  timestamp : DateTime

/-- Stored text that is not JSON is shown as a JSON string. -/
def executionView (platform : Platform) (model : Execution) (hookName : String)
    (apiKeyName : Option String) : ExecutionView :=
  { id := model.id
    hookId := model.hookId
    hookName := hookName
    apiKeyId := model.apiKeyId
    apiKeyName := apiKeyName
    status := model.status
    exitCode := model.exitCode
    stdout := model.stdout
    stderr := model.stderr
    parameters := match platform.parseJson (asBytes model.parametersJson) with
      | .ok value => value
      | .error _ => .string model.parametersJson
    durationMs := model.durationMs
    timestamp := model.timestamp }

/-- The hook a request runs, once the caller's key is known to be allowed to.
A caller without a key was authorized by the hook's own mode. -/
def authorizeInvocation (key : Option ApiKey) (identifier : String) : Handler Hook := do
  let hook ← resolveHook identifier
  (match key with
    | some key => guardExecute key hook.id
    | none => pure ())
  return hook

def missingRequired (missing : List String) : String :=
  "Missing required parameter(s): " ++ ", ".intercalate missing

def resolveRequestParameters (ctx : Context) (hook : Hook) (body : Bytes) :
    Handler Executor.ResolvedParameters := do
  let supplied ← .ofExcept (extractParameterMap ctx.state.platform body)
  let declared ← loadParameters hook.id
  .ofExcept (Executor.resolveParameters declared supplied)

def runHookRequest (ctx : Context) (key : Option ApiKey) (identifier : String) (body : Bytes) :
    Handler ExecutionView := do
  let hook ← authorizeInvocation key identifier
  let resolved ← resolveRequestParameters ctx hook body
  .require (resolved.missingRequired = [])
    (.invalidInput (missingRequired resolved.missingRequired))
  let record ← Executor.executeHook ctx hook key resolved
  return executionView ctx.state.platform record hook.name (key.map (·.name))

structure TestHookResponse where
  hookId : Uuid
  hookName : String
  wouldExecute : Bool
  blockingReason : Option String
  resolvedParameters : Json
  missingRequired : List String
  command : Option Executor.CommandPlan
  timeoutSeconds : Nat

/-- Why a run would be refused: missing parameters first, then the template,
then the script. -/
def blockingReason (ctx : Context) (hook : Hook) (resolved : Executor.ResolvedParameters) :
    Option String :=
  if resolved.missingRequired ≠ [] then some (missingRequired resolved.missingRequired)
  else match Executor.buildCommandPlan ctx.os ctx.state.config hook resolved with
    | .error e => some e.detail
    | .ok _ =>
      match Executor.ensureRunnable ctx.os ctx.state.config hook with
      | .error e => some e.detail
      | .ok () => none

def testHook (ctx : Context) (key : Option ApiKey) (identifier : String) (body : Bytes) :
    Handler TestHookResponse := do
  let hook ← authorizeInvocation key identifier
  let resolved ← resolveRequestParameters ctx hook body
  let reason := blockingReason ctx hook resolved
  return { hookId := hook.id
           hookName := hook.name
           wouldExecute := reason.isNone
           blockingReason := reason
           resolvedParameters := resolved.toJson
           missingRequired := resolved.missingRequired
           command := (Executor.buildCommandPlan ctx.os ctx.state.config hook resolved).toOption
           timeoutSeconds := Executor.timeoutFor hook.defaultTimeoutSeconds }

/-! ### History -/

def parseStatus (platform : Platform) (raw : String) : Except AppError ExecutionStatus :=
  match platform.toUppercase raw with
  | "SUCCESS" => .ok .success
  | "FAILED" => .ok .failed
  | "TIMEOUT" => .ok .timeout
  | other => .error (.invalidInput
      s!"Invalid status filter '{other}': expected SUCCESS, FAILED, or TIMEOUT")

/-- An id stands for itself, any other text for every key whose name contains
it. -/
def resolveApiKeyFilter (platform : Platform) (raw : String) : Handler (List Uuid) :=
  match Uuid.parseStr raw with
  | some id => pure [id]
  | none => List.map (·.id) <$> sql (.selectApiKeys (.nameLike (platform.like raw)) .unordered)

/-- What the caller may read: its own runs, and the runs of the hooks whose
history it is entitled to. -/
def executionVisibility (key : ApiKey) : Handler ExecutionCondition := do
  if key.isMaster then return .all
  else
    let readable ← executionVisibleHookIds key
    if readable.isEmpty then return .apiKeyIdEq key.id
    else return .or (.apiKeyIdEq key.id) (.hookIdIn readable)

/-- A condition built from an optional filter; the empty text is no filter. -/
def optionalCondition (filter : Option String)
    (build : String → Handler ExecutionCondition) : Handler ExecutionCondition :=
  match nonEmpty filter with
  | some raw => build raw
  | none => pure .all

def executionFilters (ctx : Context) (key : ApiKey) (query : ExecutionQuery) :
    Handler ExecutionCondition := do
  let visible ← executionVisibility key
  let byHook ← optionalCondition query.hook fun identifier => do
    let hook ← resolveHook identifier
    guardVisibility key hook
    return .hookIdEq hook.id
  let byStatus ← optionalCondition query.status fun raw =>
    .statusEq <$> Program.ofExcept (parseStatus ctx.state.platform raw)
  let byKey ← optionalCondition query.apiKey fun raw =>
    .apiKeyIdIn <$> resolveApiKeyFilter ctx.state.platform raw
  let bySince ← optionalCondition query.since fun raw =>
    .since <$> Program.ofExcept (parseInstant ctx.state.platform "since" raw)
  let byUntil ← optionalCondition query.until_ fun raw =>
    .before <$> Program.ofExcept (parseInstant ctx.state.platform "until" raw)
  return .and visible (.and byHook (.and byStatus (.and byKey (.and bySince byUntil))))

def deletedHookName : String := "(deleted)"

def hookNameOf (hook : Option Hook) : String := (hook.map (·.name)).getD deletedHookName

def listExecutions (ctx : Context) (key : ApiKey) (query : ExecutionQuery) :
    Handler (List ExecutionView) := do
  let condition ← executionFilters ctx key query
  let rows ← sql (.selectExecutionsWithHook condition
    ⟨query.limit.getD defaultPageLimit, query.offset.getD 0⟩)
  let keyIds := rows.filterMap (·.1.apiKeyId)
  let keys ← (if keyIds.isEmpty then pure []
    else sql (.selectApiKeys (.idIn keyIds) .unordered))
  return rows.map fun row => executionView ctx.state.platform row.1 (hookNameOf row.2)
    (row.1.apiKeyId.bind fun id => (keys.find? fun k => k.id == id).map (·.name))

def findExecutionById (id : Uuid) : Handler (Option Execution) :=
  List.head? <$> sql (.selectExecutions (.idEq id))

def getExecution (ctx : Context) (key : ApiKey) (id : Uuid) : Handler ExecutionView := do
  let found ← findExecutionById id
  let model ← orElse found .notFound
  let readable ← mayReadExecution key model
  .require (readable = true) .notFound
  let hook ← findHookById model.hookId
  let author ← (match model.apiKeyId with
    | some keyId => findApiKeyById keyId
    | none => pure none)
  return executionView ctx.state.platform model (hookNameOf hook) (author.map (·.name))

def deleteExecution (ctx : Context) (key : ApiKey) (id : Uuid) : Handler Unit := do
  let found ← findExecutionById id
  let model ← orElse found .notFound
  let foundHook ← findHookById model.hookId
  let hook ← orElse foundHook .notFound
  guardManage key hook
  let _ ← sql (.deleteExecutions (.idEq id))
  createAuditLog ctx key 0 "EXECUTION_DELETE" (some hook.name)
    (some (s!"Deleted execution record {Uuid.toText id} of hook " ++
      s!"{formatReference hook.name hook.id}"))

def purgeExecutions (ctx : Context) (key : ApiKey) (query : PurgeQuery) :
    Handler PurgeResponse := do
  .require (key.isMaster = true) (.forbidden "Only master keys can purge execution history")
  let days ← .ofExcept (purgeDays query ctx.state.config.logRetentionDays)
  let purged ← purgeExpiredExecutions (ctx.draws.now 0) days
  createAuditLog ctx key 1 "EXECUTION_PURGE" none
    (some s!"Purged {purged} execution(s) older than {days} day(s)")
  return ⟨purged, days⟩

end HookExecutor
