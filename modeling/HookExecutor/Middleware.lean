import HookExecutor.Master

/-!
# Authentication

How a request becomes a principal. Administrative routes take a key and nothing
else. The three invocation routes also admit a caller without one, on the terms
of the hook its path names. A signature is checked over the bytes the client
sent, at most once, and the network binding comes last.
-/

namespace HookExecutor

open Text Crypto

def apiKeyHeader : String := "X-API-Key"
def signatureHeader : String := "X-Signature-256"
def timestampHeader : String := "X-Timestamp"
def hmacOnlyDefaultHeader : String := "X-Signature-256"

/-- A request as the middleware sees it: the target the client asked for, and
the path left of it once the router has stripped its nest. -/
structure HttpRequest where
  method : String
  target : String
  path : String
  headers : HeaderMap
  body : Bytes

/-- The three clock readings of one authentication, in order. -/
structure AuthClock where
  prevalidatedAt : DateTime
  validatedAt : DateTime
  recordedAt : Instant

/-! ### Timestamps -/

/-- Machine arithmetic on `i64`: an overflow wraps around. -/
def wrapI64 (n : Int) : Int := Int.bmod n (2 ^ 64)

/-- Whole Unix seconds of an instant. -/
def unixSeconds (now : DateTime) : Int := now / nanosPerSecond

/-- How far a timestamp is from the clock, as the machine computes it. -/
def skew (now : DateTime) (presented : Int) : Int :=
  wrapI64 (wrapI64 (unixSeconds now - presented)).natAbs

def validateTimestamp (raw : String) (maxAgeSeconds : Int) (now : DateTime) :
    Except AppError Unit :=
  match parseI64 (trim raw) with
  | none => .error (.unauthorized s!"{timestampHeader} must be a Unix timestamp in seconds")
  | some presented =>
    if maxAgeSeconds < skew now presented then
      .error (.unauthorized (s!"Request timestamp is outside the permitted {maxAgeSeconds}s " ++
        s!"window (off by {skew now presented}s); check the client's clock, or re-sign the request"))
    else .ok ()

/-- The header text exactly as received. A signed request with a stale one is
refused here, before anything is looked up. -/
def prevalidateTimestampHeader (headers : HeaderMap) (maxAgeSeconds : Int) (now : DateTime) :
    Except AppError (Option String) :=
  match headers.getStr timestampHeader with
  | none => .ok none
  | some raw =>
    if headers.containsKey signatureHeader then
      (validateTimestamp raw maxAgeSeconds now).map fun _ => some raw
    else .ok (some raw)

/-! ### Secrets and rejections -/

def rejectSignature : SignatureRejection → AppError
  | .missingPrefix => .unauthorized "Signature must be formatted as sha256=<hex>"
  | .malformedHex => .unauthorized "Signature is not valid hexadecimal"
  | .mismatch => .unauthorized "Invalid request signature"
  | .keyUnusable => .internal

def openSecret (state : AppState) (stored : String) : Except AppError String :=
  (state.cipher.openText state.platform.prim stored).mapError fun _ => .internal

def recoverSigningSecret (state : AppState) (key : ApiKey) : Except AppError String :=
  match key.signingSecret with
  | none => .error (.unauthorized "This API key has no signing secret; rotate it to obtain one")
  | some stored => openSecret state stored

def recoverHookSecret (state : AppState) (target : Hook) : Except AppError String :=
  match target.hmacSecret with
  | none => .error .internal
  | some stored => openSecret state stored

/-- The whole body, unless it is larger than the router would accept. -/
def bufferBody (body : Bytes) : Except AppError Bytes :=
  if maxRequestBodyBytes < body.length then
    .error (.invalidInput "Request body too large to verify")
  else .ok body

/-! ### Authenticating a key -/

/-- The template a keyed signature is verified against: the target hook's, if
its mode is `CANONICAL_V1`, then the key's own, then the default. -/
def templateInForce (hook : Option Hook) (key : ApiKey) : Option String :=
  ((hook.filter fun h => h.authMode == .canonicalV1).bind (·.canonicalTemplate)).or
    key.canonicalTemplate

/-- The bytes a signature of this request is a MAC of. -/
def signingBase (req : HttpRequest) (template : Option String) (timestamp : String) : Bytes :=
  match template with
  | some template => renderCanonicalTemplate template req.method req.target timestamp req.body
  | none => canonicalV1Payload req.method req.target timestamp req.body

/-- The digest of a presented signature, once everything about it holds except
that it is new. -/
def verifyKeySignature (state : AppState) (clock : AuthClock) (req : HttpRequest)
    (hook : Option Hook) (key : ApiKey) (presentedTimestamp : Option String)
    (signature : String) : Except AppError Bytes := do
  let timestamp ← (match presentedTimestamp with
    | some timestamp => .ok timestamp
    | none =>
      .error (.unauthorized s!"A signed request must include an {timestampHeader} header"))
  validateTimestamp timestamp state.config.signatureMaxAgeSeconds clock.validatedAt
  let secret ← recoverSigningSecret state key
  let _ ← bufferBody req.body
  (verifySignature state.platform.prim secret
    (signingBase req (templateInForce hook key) timestamp) signature).mapError rejectSignature

/-- Signing is mandatory for everyone or, short of that, for a key manager. -/
def signatureRequired (state : AppState) (key : ApiKey) : Bool :=
  state.config.requireSignedRequests || (key.canManageKeys && !key.isMaster)

/-- The networks a key is bound to; `none` if a stored entry does not parse. -/
def boundNetworks (platform : Platform) (key : ApiKey) : Option (List (IpAddr → Bool)) :=
  (listEntries (key.boundIps.getD "")).mapM platform.parseNetwork

def guardNetwork (platform : Platform) (key : ApiKey) (clientIp : IpAddr) :
    Except AppError Unit :=
  match boundNetworks platform key with
  | none => .error .internal
  | some networks =>
    if networks.isEmpty || networks.any fun net => net clientIp then .ok ()
    else .error (.forbidden "Client IP not allowed")

/-- A signature that is presented verifies and is new; one that is not was not
required. -/
def checkSignature (state : AppState) (clock : AuthClock) (req : HttpRequest)
    (hook : Option Hook) (key : ApiKey) (presentedTimestamp : Option String) : Handler Unit := do
  match req.headers.getStr signatureHeader with
  | some signature =>
    let digest ← .ofExcept
      (verifyKeySignature state clock req hook key presentedTimestamp signature)
    let first ← Program.ask (.checkAndRecord key.id digest clock.recordedAt)
    .require (first = true)
      (.unauthorized "This signature has already been used; sign a fresh request")
  | none =>
    .require (signatureRequired state key = false)
      (.unauthorized (s!"This request must be signed: send {signatureHeader} and " ++
        s!"{timestampHeader}"))

def authenticateBearerKey (state : AppState) (clock : AuthClock) (presentedKey : String)
    (clientIp : IpAddr) (hook : Option Hook) (req : HttpRequest) : Handler ApiKey := do
  let presentedTimestamp ← .ofExcept (prevalidateTimestampHeader req.headers
    state.config.signatureMaxAgeSeconds clock.prevalidatedAt)
  let found ← List.head? <$>
    sql (.selectApiKeys (.keyHashEq (hashKey state.platform.prim presentedKey)) .unordered)
  let record ← orElse found (.unauthorized "Invalid API Key")
  let key ← authenticatePin record
  checkSignature state clock req hook key presentedTimestamp
  .ofExcept (guardNetwork state.platform key clientIp)
  return key

/-- Administrative routes: a key is mandatory. -/
def authMiddleware (state : AppState) (clock : AuthClock) (clientIp : IpAddr)
    (req : HttpRequest) : Handler ApiKey := do
  let presentedKey ← orElse (req.headers.getStr apiKeyHeader)
    (.unauthorized s!"Missing credentials: provide an {apiKeyHeader} header")
  authenticateBearerKey state clock presentedKey clientIp none req

/-! ### The invocation routes -/

/-- The hook identifier in a path whose nest has been stripped. -/
def hookIdentifierFromPath (path : String) : Option String :=
  let trimmed := String.ofList (path.toList.dropWhile (· == '/'))
  match split '/' trimmed with
  | [identifier] => if identifier = "" then none else some identifier
  | ["hooks", identifier, "execute"] => some identifier
  | ["hooks", identifier, "test"] => some identifier
  | _ => none

def invocationUnauthorized : AppError := .unauthorized "Unauthorized"

/-- Every failure to authenticate looks the same; a failure to be authorized
does not. -/
def uniformizeKeyedAuthFailure : AppError → AppError
  | .unauthorized _ => invocationUnauthorized
  | other => other

/-- Anything that looks like a signature for this hook. -/
def signatureMaterialPresent (headers : HeaderMap) (target : Hook) : Bool :=
  headers.containsKey signatureHeader || target.signatureHeader.any headers.containsKey

/-- The signature over the raw body under the hook's own secret. -/
def verifyHookSignature (state : AppState) (target : Hook) (req : HttpRequest) :
    Except AppError Unit := do
  let header := target.signatureHeader.getD hmacOnlyDefaultHeader
  let prefix_ := target.signaturePrefix.getD Crypto.signaturePrefix
  let provided ← (match req.headers.getStr header with
    | some provided => .ok provided
    | none => .error invocationUnauthorized)
  let secret ← recoverHookSecret state target
  let body ← bufferBody req.body
  let _ ← (verifySignatureWithPrefix state.platform.prim secret body provided prefix_).mapError
    rejectSignature
  return ()

/-- Whether a hook takes this request from a caller without a key. -/
def guardKeyless (state : AppState) (target : Hook) (req : HttpRequest) : Except AppError Unit :=
  match target.authMode with
  | .canonicalV1 | .apiKeyOnly => .error invocationUnauthorized
  | .noAuth =>
    if signatureMaterialPresent req.headers target || state.config.requireSignedRequests then
      .error invocationUnauthorized
    else .ok ()
  | .hmacOnly => verifyHookSignature state target req

/-- Replace the error of a handler. -/
def mapFailure {α : Type} (p : Handler α) (f : AppError → AppError) : Handler α := do
  let r ← p.attempt
  .ofExcept (r.mapError f)

/-- The key of a caller that presents one, or `none` for a caller its target
hook admits without. -/
def invocationAuthMiddleware (state : AppState) (clock : AuthClock) (clientIp : IpAddr)
    (req : HttpRequest) : Handler (Option ApiKey) := do
  let identifier := hookIdentifierFromPath req.path
  match req.headers.getStr apiKeyHeader with
  | some presentedKey =>
    let hook ← (match identifier with
      | some identifier =>
        -- a hook that does not resolve is the handler's to report
        Except.toOption <$> (resolveHook identifier).attempt
      | none => pure none)
    let key ← mapFailure
      (authenticateBearerKey state clock presentedKey clientIp hook req)
      uniformizeKeyedAuthFailure
    return some key
  | none =>
    let identifier ← orElse identifier invocationUnauthorized
    let target ← mapFailure (resolveHook identifier) fun _ => invocationUnauthorized
    .ofExcept (guardKeyless state target req)
    return none

end HookExecutor
