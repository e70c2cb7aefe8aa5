import HookExecutor.Api.Keys
import HookExecutor.Api.System
import HookExecutor.Bootstrap
import HookExecutor.Middleware

/-!
# Requests

The routes as one type of requests, what serving each of them does, and the
worlds a process can be in when requests are served one at a time. An
administrative request goes to its handler with the key its middleware
established; an invocation goes through the middleware of its own routes and
only then decodes the identifier the handler resolves.
-/

namespace HookExecutor

open Text

/-! ### Invocations -/

inductive InvocationRoute where
  | execute | test | webhook
  deriving DecidableEq

/-- The path the middleware sees, around a raw segment of the request path. -/
def InvocationRoute.innerPath : InvocationRoute → (segment : String) → String
  | execute, segment => "/hooks/" ++ segment ++ "/execute"
  | test, segment => "/hooks/" ++ segment ++ "/test"
  | webhook, segment => "/" ++ segment

/-- A segment the router can capture: not empty, and one segment. -/
def IsSegment (segment : String) : Prop := segment ≠ "" ∧ '/' ∉ segment.toList

instance (segment : String) : Decidable (IsSegment segment) :=
  inferInstanceAs (Decidable (_ ∧ _))

structure Invocation where
  route : InvocationRoute
  /-- The identifier as it stands in the request line, percent-encoding and
  all. -/
  segment : String
  isSegment : IsSegment segment
  method : String
  target : String
  headers : HeaderMap
  body : Bytes

def Invocation.toHttp (inv : Invocation) : HttpRequest :=
  { method := inv.method
    target := inv.target
    path := inv.route.innerPath inv.segment
    headers := inv.headers
    body := inv.body }

/-- The identifier the path extractor hands to the handler. -/
def decodeIdentifier (segment : String) : Except AppError String :=
  match percentDecode segment with
  | some identifier => .ok identifier
  | none => .error (.bodyRejected 400 "Invalid URL: Invalid UTF-8 in `identifier`")

def extractBody (body : Bytes) : Except AppError Bytes :=
  if maxRequestBodyBytes < body.length then
    .error (.bodyRejected 413 "Failed to buffer the request body: length limit exceeded")
  else .ok body

inductive InvocationResponse where
  | executed (view : ExecutionView)
  | tested (response : TestHookResponse)

/-- From the authenticated request to the handler of its route. -/
def handleInvocation (ctx : Context) (inv : Invocation) (key : Option ApiKey) :
    Handler InvocationResponse := do
  let identifier ← .ofExcept (decodeIdentifier inv.segment)
  let body ← .ofExcept (extractBody inv.body)
  match inv.route with
  | .execute | .webhook => .executed <$> runHookRequest ctx key identifier body
  | .test => .tested <$> testHook ctx key identifier body

/-! ### Administrative requests -/

/-- One request to an administrative route, with what its extractors read. A
request whose extractors refuse it reaches no handler. -/
inductive AdminRequest where
  | getMe
  | createHook (payload : CreateHookPayload)
  | listHooks (query : ListHooksQuery)
  | getHook (identifier : String) (query : ListHooksQuery)
  | updateHook (identifier : String) (payload : UpdateHookPayload)
  | deleteHook (identifier : String) (query : DeleteHookQuery)
  | restoreHook (identifier : String)
  | listHookParameters (identifier : String)
  | createHookParameter (identifier : String) (payload : ParameterInput)
  | updateHookParameter (identifier : String) (paramId : Uuid) (payload : UpdateParameterPayload)
  | deleteHookParameter (identifier : String) (paramId : Uuid)
  | createApiKey (payload : CreateApiKeyPayload)
  | listApiKeys
  | updateApiKey (id : Uuid) (payload : UpdateApiKeyPayload)
  | deleteApiKey (id : Uuid) (payload : DeleteApiKeyPayload)
  | rotateApiKey (id : Uuid)
  | regenerateKey (id : Uuid)
  | regenerateSecret (id : Uuid)
  | updateKeyHookPermissions (id : Uuid) (payload : HookPermInput)
  | revokeKeyHookPermission (id : Uuid) (identifier : String)
  | listExecutions (query : ExecutionQuery)
  | purgeExecutions (query : PurgeQuery)
  | getExecution (id : Uuid)
  | deleteExecution (id : Uuid)
  | listAuditLogs (query : AuditLogQuery)
  | getSettings
  | purgeDeletedHooks (query : PurgeQuery)
  | refused (rejection : AppError)

inductive AdminResponse where
  | me (response : MeResponse)
  | hook (detail : HookDetail)
  | hooks (details : List HookDetail)
  | parameter (row : HookParameter)
  | parameters (rows : List HookParameter)
  | keyCreated (response : CreateApiKeyResponse)
  | keys (views : List ApiKeyView)
  | key (summary : ApiKeySummary)
  | rotated (response : RotateKeyResponse)
  | keyRegenerated (response : RegenerateKeyResponse)
  | secretRegenerated (response : RegenerateSecretResponse)
  | execution (view : ExecutionView)
  | executions (views : List ExecutionView)
  | auditLogs (rows : List AuditLog)
  | settings (response : SettingsResponse)
  | purged (response : PurgeResponse)
  | done

def handleAdmin (ctx : Context) (key : ApiKey) : AdminRequest → Handler AdminResponse
  | .getMe => .me <$> getMe ctx key
  | .createHook payload => .hook <$> createHook ctx key payload
  | .listHooks query => .hooks <$> listHooks key query
  | .getHook identifier query => .hook <$> getHook key identifier query
  | .updateHook identifier payload => .hook <$> updateHook ctx key identifier payload
  | .deleteHook identifier query => (fun _ => .done) <$> deleteHook ctx key identifier query
  | .restoreHook identifier => .hook <$> restoreHook ctx key identifier
  | .listHookParameters identifier => .parameters <$> listHookParameters key identifier
  | .createHookParameter identifier payload =>
    .parameter <$> createHookParameter ctx key identifier payload
  | .updateHookParameter identifier paramId payload =>
    .parameter <$> updateHookParameter ctx key identifier paramId payload
  | .deleteHookParameter identifier paramId =>
    (fun _ => .done) <$> deleteHookParameter ctx key identifier paramId
  | .createApiKey payload => .keyCreated <$> createApiKey ctx key payload
  | .listApiKeys => .keys <$> listApiKeys key
  | .updateApiKey id payload => .key <$> updateApiKey ctx key id payload
  | .deleteApiKey id payload => (fun _ => .done) <$> deleteApiKey ctx key id payload
  | .rotateApiKey id => .rotated <$> rotateApiKey ctx key id
  | .regenerateKey id => .keyRegenerated <$> regenerateKey ctx key id
  | .regenerateSecret id => .secretRegenerated <$> regenerateSecret ctx key id
  | .updateKeyHookPermissions id payload =>
    (fun _ => .done) <$> updateKeyHookPermissions ctx key id payload
  | .revokeKeyHookPermission id identifier =>
    (fun _ => .done) <$> revokeKeyHookPermission ctx key id identifier
  | .listExecutions query => .executions <$> listExecutions ctx key query
  | .purgeExecutions query => .purged <$> purgeExecutions ctx key query
  | .getExecution id => .execution <$> getExecution ctx key id
  | .deleteExecution id => (fun _ => .done) <$> deleteExecution ctx key id
  | .listAuditLogs query => .auditLogs <$> listAuditLogs ctx key query
  | .getSettings => .settings <$> getSettings ctx key
  | .purgeDeletedHooks query => .purged <$> purgeDeletedHooks ctx key query
  | .refused rejection => .fail rejection

/-! ### Serving -/

inductive Request where
  | admin (http : HttpRequest) (request : AdminRequest)
  | invoke (inv : Invocation)

/-- A request whose middleware let it through, with the caller it
established. -/
inductive Authenticated where
  | admin (key : ApiKey) (request : AdminRequest)
  | invoke (key : Option ApiKey) (inv : Invocation)

def Authenticated.caller : Authenticated → Option ApiKey
  | admin key _ => some key
  | invoke key _ => key

inductive Response where
  | admin (response : AdminResponse)
  | invocation (response : InvocationResponse)

def authenticate (ctx : Context) (clock : AuthClock) : Request → Handler Authenticated
  | .admin http request =>
    (.admin · request) <$> authMiddleware ctx.state clock ctx.clientIp http
  | .invoke inv =>
    (.invoke · inv) <$> invocationAuthMiddleware ctx.state clock ctx.clientIp inv.toHttp

def Authenticated.handle (ctx : Context) : Authenticated → Handler Response
  | admin key request => .admin <$> handleAdmin ctx key request
  | invoke key inv => .invocation <$> handleInvocation ctx inv key

def serve (ctx : Context) (clock : AuthClock) (req : Request) : Handler Response := do
  let authenticated ← authenticate ctx clock req
  authenticated.handle ctx

/-- The worlds a process can be in between requests, over every history of
starts, requests and retention sweeps that began with an empty database. -/
inductive Reachable : AppState → World → Prop
  | start {state : AppState} (start : Startup) {w : World}
      (started : (boot state start).run Op.exec (startProcess state start .empty) = (.ok (), w)) :
      Reachable state w
  | restart {state state' : AppState} {w w' : World} (before : Reachable state w)
      (start : Startup)
      (started : (boot state' start).run Op.exec (startProcess state' start w.db) = (.ok (), w')) :
      Reachable state' w'
  | serve {state : AppState} {w : World} (before : Reachable state w) (ctx : Context)
      (clock : AuthClock) (req : Request) (served : ctx.state = state) :
      Reachable state ((HookExecutor.serve ctx clock req).run Op.exec w).2
  | sweepExecutions {state : AppState} {w : World} (before : Reachable state w) (now : DateTime) :
      Reachable state
        ((purgeExpiredExecutions now state.config.logRetentionDays).run Op.exec w).2
  | sweepDeletedHooks {state : AppState} {w : World} (before : Reachable state w)
      (now : DateTime) :
      Reachable state
        ((purgeExpiredDeletedHooks now state.config.deletedHookRetentionDays).run Op.exec w).2

end HookExecutor
