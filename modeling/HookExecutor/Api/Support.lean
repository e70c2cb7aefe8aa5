import HookExecutor.State

/-!
# Shared plumbing of the handlers

Minting credentials, writing audit rows, resolving a hook by id or by name,
and the field validators. Nothing here decides who may do something.
-/

namespace HookExecutor

open Text Crypto

def maxTimeoutSeconds : Int := 86400
def maxConcurrentJobsLimit : Int := 1000
def defaultPageLimit : Nat := 50

/-! ### Credentials -/

/-- Thirty-two random bytes in hexadecimal. -/
def generateRandomKey (bytes : Bytes) : String := hexEncode bytes

def hashKey (prim : Primitives) (key : String) : String := hexEncode (prim.sha256 (asBytes key))

def generateKeyId (bytes : Bytes) : String := "shk_" ++ hexEncode bytes

def generateSigningSecret (bytes : Bytes) : String := hexEncode bytes

/-- The first eight characters, kept for display. -/
def displayPrefix (plaintextKey : String) : String := String.ofList (plaintextKey.toList.take 8)

def Context.prim (ctx : Context) : Primitives := ctx.state.platform.prim

structure SigningPair where
  keyId : String
  signingSecret : String
  sealedSecret : String

/-- Seal a secret for storage, drawing a nonce. -/
def sealSecret (ctx : Context) (draw : Nat) (text : String) : Except AppError String :=
  (ctx.state.cipher.sealText ctx.prim (ctx.draws.randomBytes draw) text).mapError
    fun _ => .internal

/-- A fresh key id and signing secret, from three draws. -/
def mintSigningPair (ctx : Context) (draw : Nat) : Except AppError SigningPair :=
  let keyId := generateKeyId (ctx.draws.randomBytes draw)
  let signingSecret := generateSigningSecret (ctx.draws.randomBytes (draw + 1))
  (sealSecret ctx (draw + 2) signingSecret).map fun sealedSecret =>
    ⟨keyId, signingSecret, sealedSecret⟩

/-! ### References and audit rows -/

def formatReference (name : String) (id : Uuid) : String :=
  s!"'{name}' ({String.ofList ((Uuid.toText id).toList.take 8)}...)"

/-- The row `createAuditLog` writes. -/
def auditRow (ctx : Context) (key : ApiKey) (draw : Nat) (action : String)
    (targetResource details : Option String) : AuditLog where
  id := ctx.draws.uuid draw
  apiKeyId := some key.id
  apiKeyName := key.name
  apiKeyPrefix := key.prefixText
  clientIp := ctx.clientIp.toText
  action := action
  targetResource := targetResource
  details := details
  timestamp := ctx.draws.now draw

def createAuditLog (ctx : Context) (key : ApiKey) (draw : Nat) (action : String)
    (targetResource details : Option String) : Handler Unit :=
  sql (.insertAuditLog (auditRow ctx key draw action targetResource details))

/-! ### Lookups -/

def findApiKeyById (id : Uuid) : Handler (Option ApiKey) :=
  List.head? <$> sql (.selectApiKeys (.idEq id) .unordered)

def findHookById (id : Uuid) : Handler (Option Hook) :=
  List.head? <$> sql (.selectHooks (.idEq id) .unordered)

def findHookByName (name : String) : Handler (Option Hook) :=
  List.head? <$> sql (.selectHooks (.nameEq name) .unordered)

/-- The value of an optional row, or the error its absence is answered with. -/
def orElse {α : Type} (found : Option α) (e : AppError) : Handler α :=
  match found with
  | some a => .pure a
  | none => .fail e

/-- By id if the identifier parses as one and a row has it, else by name. -/
def resolveHookIncludingDeleted (identifier : String) : Handler Hook := do
  let byId ← (match Uuid.parseStr identifier with
    | some id => findHookById id
    | none => pure none)
  match byId with
  | some found => pure found
  | none =>
    let byName ← findHookByName identifier
    orElse byName .notFound

/-- A trashed hook is answered like one that does not exist. -/
def resolveHook (identifier : String) : Handler Hook := do
  let found ← resolveHookIncludingDeleted identifier
  Program.require (found.isDeleted = false) .notFound
  return found

/-- Parameters in declaration order. -/
def loadParameters (hookId : Uuid) : Handler (List HookParameter) :=
  sql (.selectHookParameters hookId)

/-! ### Descriptions and validators -/

def describeHmacMode : HmacMode → String
  | .canonicalV1 => "signatures: CANONICAL_V1"

def describePrivilege : Option String → String
  | some user => s!"runs as '{user}' via sudo"
  | none => "runs as the daemon user"

def validateTimeout (seconds : Int) : Except AppError Unit :=
  if seconds ≤ 0 then .error (.invalidInput "default_timeout_seconds must be greater than 0")
  else if maxTimeoutSeconds < seconds then
    .error (.invalidInput s!"default_timeout_seconds must not exceed {maxTimeoutSeconds}")
  else .ok ()

def validateConcurrency (jobs : Int) : Except AppError Unit :=
  if jobs < 1 then .error (.invalidInput "max_concurrent_jobs must be at least 1")
  else if maxConcurrentJobsLimit < jobs then
    .error (.invalidInput s!"max_concurrent_jobs must not exceed {maxConcurrentJobsLimit}")
  else .ok ()

/-- The entries of a comma-separated list, trimmed, without the empty ones. -/
def listEntries (raw : String) : List String :=
  ((split ',' raw).map trim).filter fun entry => entry != ""

def validateBoundIps (platform : Platform) (boundIps : String) : Except AppError Unit :=
  match (listEntries boundIps).find? fun cidr => (platform.parseNetwork cidr).isNone with
  | some cidr => .error (.invalidInput s!"Invalid CIDR: {cidr}")
  | none => .ok ()

/-- A field the payload names passes its check. -/
def checkField {α : Type} (field : Option α) (check : α → Except AppError Unit) :
    Except AppError Unit :=
  match field with
  | some value => check value
  | none => .ok ()

def parseInstant (platform : Platform) (field raw : String) : Except AppError DateTime :=
  match platform.parseRfc3339 raw with
  | some t => .ok t
  | none => .error (.invalidInput
      s!"Invalid '{field}': expected an RFC 3339 timestamp, e.g. 2026-08-19T00:00:00Z")

/-- The value a JSON object gives a member. -/
def Json.member (members : List (String × Json)) (name : String) : Option Json :=
  (members.find? fun m => m.1 == name).map (·.2)

/-- The parameters of an execute body: a flat object, or one wrapped under
`parameters`. -/
def extractParameterMap (platform : Platform) (body : Bytes) :
    Except AppError (List (String × Json)) :=
  if body.isEmpty then .ok []
  else match platform.parseJson body with
    | .error e => .error (.invalidInput s!"Invalid JSON body: {e}")
    | .ok (.object members) =>
      match Json.member members "parameters" with
      | some (.object inner) => .ok inner
      | some .null | none => .ok members
      | some _ => .error (.invalidInput "'parameters' must be a JSON object")
    | .ok .null => .ok []
    | .ok _ => .error (.invalidInput "Request body must be a JSON object")

/-- An optional text with the empty one read as absent. -/
def nonEmpty (text : Option String) : Option String := text.filter fun s => s != ""

end HookExecutor
