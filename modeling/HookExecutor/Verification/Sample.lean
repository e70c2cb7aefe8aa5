import HookExecutor.Verification.Authentication

/-!
# A deployment to evaluate on

One small deployment and its first requests: the master mints a parent key that
manages keys, the parent mints a daughter, the master creates a hook. The hash
and the MAC are tables of what SHA-256 and HMAC-SHA-256 give on the texts that
occur, so every definition of the model computes on it.
-/

namespace HookExecutor.Sample

open Text Crypto

/-- The body the parent creates its daughter with. -/
def daughterBody : String := "\x7b\"name\":\"daughter\"\x7d"

/-- The body the parent hands a right on with. -/
def grantBody : String :=
  "\x7b\"hook_name\":\"deploy\",\"can_execute\":true,\"can_manage\":false\x7d"

/-- The body the parent takes over the hook of its daughter with. -/
def takeoverBody : String :=
  "\x7b\"resolutions\":\x7b\"00000000-0000-0000-0000-00000000012d\":\x7b\"action\":" ++
    "\"reassign\",\"to\":\"00000000-0000-0000-0000-000000000065\"\x7d\x7d\x7d"

def masterKey : String := "aaaaaaaaaaaaaaaaaaaaaaaaaaaaaaaaaaaaaaaaaaaaaaaaaaaaaaaaaaaaaaaa"
def parentKey : String := "1010101010101010101010101010101010101010101010101010101010101010"
def daughterKey : String := "2020202020202020202020202020202020202020202020202020202020202020"
def parentSecret : String := "1212121212121212121212121212121212121212121212121212121212121212"

/-- SHA-256 of the keys. -/
def digests : List (String × String) :=
  [(masterKey, "ffe054fe7ae0cb6dc65c3af9b61d5209f439851db43d0ba5997337df154668eb"),
   (parentKey, "e258aadafda9cb9f483e9b93bf4353cf93ce1f0c6fc8a53942d2c2359ec1a99a"),
   (daughterKey, "fba3e3858ce9c6bf50107c7d872e958d58c32f58e87d22cde1b100170f445bcf")]

/-- Where the daughter is administered. -/
def daughterPath : String := "/keys/00000000-0000-0000-0000-0000000000c9"

def daughterSignature : String := "5b6da51ed17c26f546dce5d317f04c96d68de4ca8b8660e3a5a5bbc07cdc04ab"
def grantSignature : String := "e4d32df910e61f75900e2efaee9fe95e908b05c2cbe6e7e83bf1fbc5498ed6db"
def rotateSignature : String := "b211015e5fc0fa4e1f6b280e1e489efd9a429f1621e10222dd3277c60583d353"
def pingSignature : String := "1216c313650b0f0cdf42db82f9ffac3a2b4847cd3f168b486076fbb18e209a1b"
def takeoverSignature : String := "cc619c033ba3dd6bd6c2b06b1849cb13022f5db15913340c0d5afe80aa8117b5"

/-- HMAC-SHA-256 of the payloads that are signed, under their secrets. -/
def macs : List (String × String × String) :=
  [(parentSecret, "POST\n/api/keys\n1700000000\n" ++ daughterBody,
      daughterSignature),
   (parentSecret, "POST\n/api" ++ daughterPath ++ "/rotate\n1700000000\n",
      rotateSignature),
   (parentSecret, "POST\n/api" ++ daughterPath ++ "/permissions\n1700000000\n" ++ grantBody,
      grantSignature),
   (parentSecret, "1700000000.ping", pingSignature),
   (parentSecret, "DELETE\n/api" ++ daughterPath ++ "\n1700000000\n" ++ takeoverBody,
      takeoverSignature)]

/-- The digest a table gives, as bytes. -/
def digestBytes (found : Option String) : Option Bytes := found.bind hexDecode

def prim : Primitives :=
  { sha256 := fun bytes =>
      (digestBytes ((digests.find? fun e => asBytes e.1 == bytes).map (·.2))).getD []
    hmacSha256 := fun key message =>
      digestBytes ((macs.find? fun e => asBytes e.1 == key && asBytes e.2.1 == message).map
        (·.2.2))
    encrypt := fun _ _ _ => none
    decrypt := fun _ _ _ => none }

def anyV4 : IpAddr → Bool
  | .v4 _ => true
  | .v6 _ => false

def platform : Platform :=
  { prim := prim
    parseJson := fun _ => .error "expected value"
    renderJson := fun _ => "\x7b\x7d"
    parseNetwork := fun text =>
      if text = "0.0.0.0/0" then some anyV4
      else if text = "::/0" then some fun ip => !anyV4 ip
      else none
    parseRfc3339 := fun _ => none
    like := fun _ _ => false
    toUppercase := asciiUpper }

/-- The defaults of the configuration. -/
def config : RuntimeConfig :=
  { allowedEnvVars := []
    logRetentionDays := 30
    deletedHookRetentionDays := 30
    retentionSweepSeconds := 3600
    maxOutputBytes := 1048576
    signatureMaxAgeSeconds := 300
    requireSignedRequests := false
    allowedScriptRoots := []
    trustedProxies := [] }

def state : AppState := ⟨config, .plaintext, platform⟩

/-- 14 November 2023, 22:13:20. -/
def epochSeconds : Int := 1700000000

/-- The draws of the `n`-th request. -/
def draws (n : Nat) : Draws :=
  { uuid := fun i => Fin.ofNat _ (100 * n + i + 1)
    now := fun _ => epochSeconds * nanosPerSecond
    randomBytes := fun i => List.replicate (if i = 1 then 16 else 32) (UInt8.ofNat (16 * n + i)) }

/-- Every script is an executable file and exits at once. -/
def os : Os :=
  { envVar := fun _ => none
    canonicalize := .ok
    metadata := fun _ => .ok ⟨true, 0o755⟩
    processIdentity := "uid=1000"
    runProcess := fun _ _ _ _ _ => ⟨.success, some 0, "", "", 1⟩ }

def ctx (n : Nat) : Context := ⟨state, .v4 0x7F000001, draws n, os⟩

/-- A request that is authenticated within one instant, so many seconds into
the process. -/
def clockAt (seconds : Int) : AuthClock :=
  ⟨(epochSeconds + seconds) * nanosPerSecond, (epochSeconds + seconds) * nanosPerSecond,
    seconds * nanosPerSecond⟩

def clock : AuthClock := clockAt 0

def keyHeader (key : String) : String × Bytes := ("x-api-key", asBytes key)

/-- An unsigned request under a key. -/
def bearer (target key : String) : HttpRequest :=
  { method := "POST"
    target := "/api" ++ target
    path := target
    headers := ⟨[keyHeader key]⟩
    body := [] }

/-- A request of the parent, signed now. -/
def signedAs (method target body signature : String) : HttpRequest :=
  { method := method
    target := "/api" ++ target
    path := target
    headers := ⟨[keyHeader parentKey, ("x-timestamp", asBytes "1700000000"),
      ("x-signature-256", asBytes ("sha256=" ++ signature))]⟩
    body := asBytes body }

def signed (target body signature : String) : HttpRequest :=
  signedAs "POST" target body signature

def start : Startup := ⟨draws 0, some masterKey, none, 0⟩

def serveAt (n : Nat) (req : Request) (w : World) : World :=
  ((serve (ctx n) clock req).run Op.exec w).2

theorem reachable_serveAt {w w' : World} (h : Reachable state w) (n : Nat) (req : Request)
    (hserved : serveAt n req w = w') : Reachable state w' :=
  hserved ▸ h.serve (ctx n) clock req rfl

/-! ### The rows -/

def masterRow : ApiKey :=
  { id := 1
    name := "System Master"
    keyHash := "ffe054fe7ae0cb6dc65c3af9b61d5209f439851db43d0ba5997337df154668eb"
    prefixText := "aaaaaaaa"
    keyId := some "shk_01010101010101010101010101010101"
    signingSecret := some "v1.plain.30323032303230323032303230323032303230323032303230323032303230323032303230323032303230323032303230323032303230323032303230323032"
    hmacMode := .canonicalV1
    boundIps := some "0.0.0.0/0,::/0"
    maxConcurrentJobs := 10
    isMaster := true
    canManageKeys := true
    canManageHooks := true
    parentKeyId := none
    createdAt := epochSeconds * nanosPerSecond
    updatedAt := epochSeconds * nanosPerSecond
    canonicalTemplate := none }

def parentRow : ApiKey :=
  { id := 101
    name := "parent"
    keyHash := "e258aadafda9cb9f483e9b93bf4353cf93ce1f0c6fc8a53942d2c2359ec1a99a"
    prefixText := "10101010"
    keyId := some "shk_11111111111111111111111111111111"
    signingSecret := some "v1.plain.31323132313231323132313231323132313231323132313231323132313231323132313231323132313231323132313231323132313231323132313231323132"
    hmacMode := .canonicalV1
    boundIps := none
    maxConcurrentJobs := 10
    isMaster := false
    canManageKeys := true
    canManageHooks := false
    parentKeyId := some 1
    createdAt := epochSeconds * nanosPerSecond
    updatedAt := epochSeconds * nanosPerSecond
    canonicalTemplate := none }

def daughterRow : ApiKey :=
  { id := 201
    name := "daughter"
    keyHash := "fba3e3858ce9c6bf50107c7d872e958d58c32f58e87d22cde1b100170f445bcf"
    prefixText := "20202020"
    keyId := some "shk_21212121212121212121212121212121"
    signingSecret := some "v1.plain.32323232323232323232323232323232323232323232323232323232323232323232323232323232323232323232323232323232323232323232323232323232"
    hmacMode := .canonicalV1
    boundIps := none
    maxConcurrentJobs := 10
    isMaster := false
    canManageKeys := false
    canManageHooks := false
    parentKeyId := some 101
    createdAt := epochSeconds * nanosPerSecond
    updatedAt := epochSeconds * nanosPerSecond
    canonicalTemplate := none }

def deployHook : Hook :=
  { id := 301
    name := "deploy"
    description := none
    scriptPath := "/opt/deploy.sh"
    defaultTimeoutSeconds := 30
    runAsUser := none
    ownerKeyId := some 1
    isDeleted := false
    deletedAt := none
    deletedBy := none
    createdAt := epochSeconds * nanosPerSecond
    updatedAt := epochSeconds * nanosPerSecond
    authMode := .canonicalV1
    hmacSecret := none
    signatureHeader := none
    signaturePrefix := none
    canonicalTemplate := none
    samplePayloadJson := none
    argsTemplate := none }

/-- Its name stands for itself in a path. -/
theorem deploy_isSegment : IsSegment "deploy" := by decide

/-- The audit row of a request, as a key signs it off. -/
def auditRowOf (id : Uuid) (key : ApiKey) (action resource details : String) : AuditLog :=
  { id := id
    apiKeyId := some key.id
    apiKeyName := key.name
    apiKeyPrefix := key.prefixText
    clientIp := "127.0.0.1"
    action := action
    targetResource := some resource
    details := some details
    timestamp := epochSeconds * nanosPerSecond }

def parentAudit : AuditLog :=
  auditRowOf 102 masterRow "KEY_CREATE" "parent"
    "Created key 'parent' (00000000...) (signatures: CANONICAL_V1)"

def daughterAudit : AuditLog :=
  auditRowOf 202 parentRow "KEY_CREATE" "daughter"
    "Created key 'daughter' (00000000...) (signatures: CANONICAL_V1)"

def hookAudit : AuditLog :=
  auditRowOf 303 masterRow "HOOK_CREATE" "deploy"
    "Created hook 'deploy' (00000000...) -> /opt/deploy.sh (runs as the daemon user)"

/-- The guard of the process after it accepted these signatures. -/
def guardAfter (seen : List (SignatureId × Instant)) : ReplayGuard :=
  { ReplayGuard.new 300 0 with seen := seen }

def worldOf (db : Database) (seen : List (SignatureId × Instant)) : World :=
  { db := db, replay := guardAfter seen, pinned := some 1, limiter := [] }

/-- A signature of the parent and when it is forgotten. -/
def seenOf (signature : String) : SignatureId × Instant :=
  (⟨101, (hexDecode signature).getD []⟩, 300 * nanosPerSecond)

def daughterSeen : SignatureId × Instant := seenOf daughterSignature
def grantSeen : SignatureId × Instant := seenOf grantSignature
def rotateSeen : SignatureId × Instant := seenOf rotateSignature
def takeoverSeen : SignatureId × Instant := seenOf takeoverSignature

def booted : World := worldOf { Database.empty with apiKeys := [masterRow] } []

def withParent : World :=
  worldOf { Database.empty with apiKeys := [masterRow, parentRow], auditLogs := [parentAudit] } []

def withDaughter : World :=
  worldOf { Database.empty with
    apiKeys := [masterRow, parentRow, daughterRow]
    auditLogs := [parentAudit, daughterAudit] } [daughterSeen]

/-- The master, its daughter that manages keys, that key's daughter, and a hook
of the master. -/
def deployment : World :=
  worldOf
    { apiKeys := [masterRow, parentRow, daughterRow]
      hooks := [deployHook]
      hookParameters := []
      permissions := [fullPermission (ctx 3) 1 1 301]
      executions := []
      auditLogs := [parentAudit, daughterAudit, hookAudit] } [daughterSeen]

def parentPermission : Permission :=
  { id := 401
    apiKeyId := 101
    hookId := 301
    canExecute := true
    canManage := true
    canViewExecution := false
    createdAt := epochSeconds * nanosPerSecond }

def grantAudit : AuditLog :=
  auditRowOf 402 masterRow "KEY_PERM_UPDATE" "deploy"
    "Updated permissions for key 'parent' (00000000...)"

/-- A key that creates hooks and manages no keys. -/
def maker : ApiKey :=
  { parentRow with name := "maker", canManageKeys := false, canManageHooks := true }

def makerHook : Hook := { deployHook with id := 201, ownerKeyId := some 101 }

def makerAudits : List AuditLog :=
  [auditRowOf 102 masterRow "KEY_CREATE" "maker"
      "Created key 'maker' (00000000...) (signatures: CANONICAL_V1)",
    auditRowOf 203 maker "HOOK_CREATE" "deploy"
      "Created hook 'deploy' (00000000...) -> /opt/deploy.sh (runs as the daemon user)",
    auditRowOf 302 maker "HOOK_UPDATE" "deploy"
      "Updated hook 'deploy' (00000000...) [auth_mode=NoAuth]"]

/-- The maker with the hook it created. -/
def withOwned : World :=
  worldOf { Database.empty with
    apiKeys := [masterRow, maker]
    hooks := [makerHook]
    permissions := [fullPermission (ctx 2) 1 101 201]
    auditLogs := makerAudits.take 2 } []

/-- The deployment once the master gave the hook to the daughter and let it run
as another user. -/
def elevated : World :=
  { deployment with db := { deployment.db with
      hooks := [{ deployHook with ownerKeyId := some 201, runAsUser := some "backup" }]
      auditLogs := [parentAudit, daughterAudit, hookAudit,
        auditRowOf 402 masterRow "HOOK_UPDATE" "deploy"
          ("Updated hook 'deploy' (00000000...) " ++
            "[owner_key_id=00000000-0000-0000-0000-0000000000c9, runs as 'backup' via sudo]")] } }

/-- The deployment once the master let the parent execute and manage the hook. -/
def entrusted : World :=
  { deployment with db := { deployment.db with
      permissions := [fullPermission (ctx 3) 1 1 301, parentPermission]
      auditLogs := [parentAudit, daughterAudit, hookAudit, grantAudit] } }

/-- The deployment once the master let the daughter execute the hook. -/
def raised : World :=
  { deployment with db := { deployment.db with
      permissions := [fullPermission (ctx 3) 1 1 301,
        { parentPermission with apiKeyId := 201, canManage := false }]
      auditLogs := [parentAudit, daughterAudit, hookAudit,
        { grantAudit with
          details := some "Updated permissions for key 'daughter' (00000000...)" }] } }

/-! ### Getting through the middleware -/

/-- A key is authenticated if its middleware says so. -/
theorem authenticate_admin (n : Nat) {key : ApiKey} {req : HttpRequest} (request : AdminRequest)
    {w w₁ : World}
    (h : (authMiddleware state clock (.v4 0x7F000001) req).run Op.exec w = (.ok key, w₁)) :
    (authenticate (ctx n) clock (.admin req request)).run Op.exec w =
      (.ok (.admin key request), w₁) := by
  simp only [authenticate, Program.map_eq]
  rw [Program.run_bind_ok (show (authMiddleware (ctx n).state clock (ctx n).clientIp req).run
    Op.exec w = _ from h)]
  rfl

/-- A run that answers something answers it. -/
theorem exists_ok {α : Type} {outcome : Except AppError α × World}
    (h : outcome.1.toOption.isSome = true) : ∃ a, outcome = (.ok a, outcome.2) := by
  obtain ⟨r, w⟩ := outcome
  cases r with
  | ok a => exact ⟨a, rfl⟩
  | error e => cases h

/-- An unsigned request under a key gets through if the key is the pinned master
or manages no keys. -/
theorem authenticate_bearer (n : Nat) (target : String) (request : AdminRequest)
    {presentedKey : String} {record : ApiKey} {w : World}
    (hpresented : HeaderMap.toStr (asBytes presentedKey) = some presentedKey)
    (hfound : w.db.apiKeys.find? (fun k => k.keyHash == hashKey prim presentedKey) = some record)
    (hpinned : w.pinned = some 1) (hmaster : record.isMaster = true → record.id = 1)
    (hunsigned : (record.canManageKeys && !record.isMaster) = false)
    (hnetwork : guardNetwork platform record (.v4 0x7F000001) = .ok ()) :
    (authenticate (ctx n) clock (.admin (bearer target presentedKey) request)).run Op.exec w =
      (.ok (.admin record request), w) := by
  have hnames : asciiLower apiKeyHeader = "x-api-key" ∧ asciiLower timestampHeader ≠ "x-api-key" ∧
      asciiLower signatureHeader ≠ "x-api-key" := by decide
  obtain ⟨hkeyName, htimestampName, hsignatureName⟩ := hnames
  have hheader : (bearer target presentedKey).headers.getStr apiKeyHeader = some presentedKey := by
    simpa [bearer, HeaderMap.getStr, HeaderMap.get, keyHeader, hkeyName] using hpresented
  have habsent : ∀ name, asciiLower name ≠ "x-api-key" →
      (bearer target presentedKey).headers.getStr name = none := by
    intro name hname
    simp [bearer, HeaderMap.getStr, HeaderMap.get, keyHeader, hname.symm]
  have hidentity : w.masterIdentity = some 1 := by simp [World.masterIdentity, hpinned]
  have hprincipal : w.principal record = record := by
    unfold World.principal
    refine if_neg ?_
    rintro ⟨hmasterRecord, hother⟩
    exact hother (by rw [hidentity, hmaster hmasterRecord])
  have hthrough : (authenticateBearerKey state clock presentedKey (.v4 0x7F000001) none
      (bearer target presentedKey)).run Op.exec w = (.ok record, w) := by
    refine authenticateBearerKey_accepts.mpr ⟨none, record, some 1, ?_, hfound, hprincipal.symm,
      by rw [hidentity, hpinned, ite_self], ?_, hnetwork⟩
    · simp [prevalidateTimestampHeader, habsent _ htimestampName]
    · refine (checkSignature_unsigned_ok (habsent _ hsignatureName)).mpr ⟨by rw [← hpinned], ?_⟩
      simpa [signatureRequired, state, config] using hunsigned
  refine authenticate_admin n request ?_
  rw [authMiddleware, hheader]
  exact hthrough

/-- So does the master, on any route. -/
theorem authenticate_master (n : Nat) (target : String) (request : AdminRequest) {w : World}
    {rest : List ApiKey} (hkeys : w.db.apiKeys = masterRow :: rest) (hpinned : w.pinned = some 1) :
    (authenticate (ctx n) clock (.admin (bearer target masterKey) request)).run Op.exec w =
      (.ok (.admin masterRow request), w) := by
  have hhash : hashKey prim masterKey = masterRow.keyHash := by decide +kernel
  refine authenticate_bearer n target request (by decide +kernel) ?_ hpinned (fun _ => rfl) rfl
    (by decide +kernel)
  rw [hkeys, hhash]
  exact List.find?_cons_of_pos (beq_self_eq_true _)

theorem serveAt_admin {n : Nat} {req : HttpRequest} {request : AdminRequest} {key : ApiKey}
    {w w₁ : World} (hauth : (authenticate (ctx n) clock (.admin req request)).run Op.exec w =
      (.ok (.admin key request), w₁)) :
    serveAt n (.admin req request) w = ((handleAdmin (ctx n) key request).run Op.exec w₁).2 := by
  rw [serveAt, serve, Program.bind_eq, Program.run_bind_ok hauth]
  exact congrArg Prod.snd (Program.run_map Response.admin _ w₁)

theorem serveAt_master (n : Nat) (target : String) (request : AdminRequest) {w : World}
    {rest : List ApiKey} (hkeys : w.db.apiKeys = masterRow :: rest) (hpinned : w.pinned = some 1) :
    serveAt n (.admin (bearer target masterKey) request) w =
      ((handleAdmin (ctx n) masterRow request).run Op.exec w).2 :=
  serveAt_admin (authenticate_master n target request hkeys hpinned)

theorem reachable_master {w w' : World} (h : Reachable state w) (n : Nat) (target : String)
    (request : AdminRequest) {rest : List ApiKey} (hkeys : w.db.apiKeys = masterRow :: rest)
    (hpinned : w.pinned = some 1)
    (hserved : ((handleAdmin (ctx n) masterRow request).run Op.exec w).2 = w') :
    Reachable state w' :=
  reachable_serveAt h n _ ((serveAt_master n target request hkeys hpinned).trans hserved)

/-- The signature the parent puts under a request sent at that second: it can be
read back, and is the MAC of the request under the parent's secret. -/
structure Signs (method target body signature : String) : Prop where
  readable : HeaderMap.toStr (asBytes ("sha256=" ++ signature)) = some ("sha256=" ++ signature)
  presented : presentedDigest ("sha256=" ++ signature) Crypto.signaturePrefix =
    some ((hexDecode signature).getD [])
  signed : prim.hmacSha256 (asBytes parentSecret) (canonicalV1Payload method ("/api" ++ target)
    "1700000000" (asBytes body)) = some ((hexDecode signature).getD [])
  short : (asBytes body).length ≤ maxRequestBodyBytes

/-- The parent's secret is stored in the clear. -/
theorem recoverSigningSecret_parent : recoverSigningSecret state parentRow = .ok parentSecret := by
  decide +kernel

/-- A request the parent signs gets through if its signature is new. -/
theorem authMiddleware_signedAs {method target body signature : String} {w : World}
    {replay : ReplayGuard} (hsigns : Signs method target body signature)
    (hfound : w.db.apiKeys.find? (fun k => k.keyHash == parentRow.keyHash) = some parentRow)
    (hrecorded : w.replay.checkAndRecord parentRow.id ((hexDecode signature).getD [])
      clock.recordedAt = (true, replay)) :
    (authMiddleware state clock (.v4 0x7F000001) (signedAs method target body signature)).run
      Op.exec w = (.ok parentRow, { w with replay := replay }) := by
  have hnames : asciiLower apiKeyHeader = "x-api-key" ∧
      asciiLower timestampHeader = "x-timestamp" ∧
      asciiLower signatureHeader = "x-signature-256" := ⟨rfl, rfl, rfl⟩
  obtain ⟨hkeyName, htimestampName, hsignatureName⟩ := hnames
  set req := signedAs method target body signature with hreq
  have hread : HeaderMap.toStr (asBytes parentKey) = some parentKey ∧
      HeaderMap.toStr (asBytes "1700000000") = some "1700000000" ∧
      hashKey prim parentKey = parentRow.keyHash ∧
      validateTimestamp "1700000000" 300 clock.validatedAt = .ok () := by decide +kernel
  obtain ⟨hkey, htime, hhash, hvalid⟩ := hread
  have hpresented : req.headers.getStr apiKeyHeader = some parentKey := by
    simpa [hreq, signedAs, HeaderMap.getStr, HeaderMap.get, keyHeader, hkeyName] using hkey
  have htimestamp : req.headers.getStr timestampHeader = some "1700000000" := by
    simpa [hreq, signedAs, HeaderMap.getStr, HeaderMap.get, keyHeader, htimestampName] using htime
  have hsignature : req.headers.getStr signatureHeader = some ("sha256=" ++ signature) := by
    simpa [hreq, signedAs, HeaderMap.getStr, HeaderMap.get, keyHeader, hsignatureName] using
      hsigns.readable
  have hprevalid : prevalidateTimestampHeader req.headers state.config.signatureMaxAgeSeconds
      clock.prevalidatedAt = .ok (some "1700000000") := by
    simp only [prevalidateTimestampHeader, htimestamp]
    split
    · exact congrArg (Except.map fun _ => some "1700000000") hvalid
    · rfl
  have hprincipal : w.principal parentRow = parentRow := if_neg fun h => Bool.false_ne_true h.1
  have hverified : verifyKeySignature state clock req none parentRow (some "1700000000")
      ("sha256=" ++ signature) = .ok ((hexDecode signature).getD []) := by
    refine verifyKeySignature_ok.mpr ⟨_, parentSecret, rfl, hvalid, recoverSigningSecret_parent,
      if_neg (not_lt.mpr hsigns.short), hsigns.presented, hsigns.signed⟩
  have hthrough : (authenticateBearerKey state clock parentKey (.v4 0x7F000001) none req).run
      Op.exec w = (.ok parentRow, { w with replay := replay }) := by
    refine authenticateBearerKey_accepts.mpr ⟨_, parentRow, w.pinned, hprevalid, ?_,
      hprincipal.symm, rfl, ?_, rfl⟩
    · rw [← hfound, ← hhash]
      rfl
    · exact (checkSignature_signed_ok hsignature).mpr ⟨_, hverified, hrecorded, rfl⟩
  rw [authMiddleware, hpresented]
  exact hthrough

/-! ### How the deployment came about -/

/-- The master mints the parent. -/
def mintParent : Request :=
  .admin (bearer "/keys" masterKey)
    (.createApiKey { name := "parent", canManageKeys := some true })

def withMaker : World :=
  worldOf { Database.empty with
    apiKeys := [masterRow, maker], auditLogs := makerAudits.take 1 } []

/-- The master mints the maker. -/
def mintMaker : Request :=
  .admin (bearer "/keys" masterKey) (.createApiKey { name := "maker", canManageHooks := some true })

/-- The maker creates its hook. -/
def makeHook : Request :=
  .admin (bearer "/hooks" parentKey)
    (.createHook { name := "deploy", scriptPath := "/opt/deploy.sh" })

/-- The right of a key on the hook, as one request asks for it. -/
def permissionsOf (id : Uuid) (execute manage : Bool) : AdminRequest :=
  .updateKeyHookPermissions id
    { hookName := some "deploy", canExecute := execute, canManage := manage }

/-- The parent deletes its daughter and takes the hook for itself. -/
def takeover : DeleteApiKeyPayload := ⟨[(301, .reassign 101)], by decide⟩

def takeoverHttp : HttpRequest := signedAs "DELETE" daughterPath takeoverBody takeoverSignature

/-- What happened, request by request: what the handlers of each left, and what
the parent signed. -/
class History : Prop where
  started : (boot state start).run Op.exec (startProcess state start .empty) = (.ok (), booted)
  parentMinted : ((handleAdmin (ctx 1) masterRow (.createApiKey
    { name := "parent", canManageKeys := some true })).run Op.exec booted).2 = withParent
  daughterSigned : Signs "POST" "/keys" daughterBody daughterSignature
  daughterMinted : ((handleAdmin (ctx 2) parentRow (.createApiKey { name := "daughter" })).run
    Op.exec { withParent with replay := guardAfter [daughterSeen] }).2 = withDaughter
  deployed : ((handleAdmin (ctx 3) masterRow (.createHook
    { name := "deploy", scriptPath := "/opt/deploy.sh" })).run Op.exec withDaughter).2 = deployment
  elevatedHook : ((handleAdmin (ctx 4) masterRow (.updateHook "deploy"
    { ownerKeyId := some 201, runAsUser := some "backup" })).run Op.exec deployment).2 = elevated
  entrustedParent : ((handleAdmin (ctx 4) masterRow (permissionsOf 101 true true)).run
    Op.exec deployment).2 = entrusted
  raisedDaughter : ((handleAdmin (ctx 4) masterRow (permissionsOf 201 true false)).run
    Op.exec deployment).2 = raised
  grantSigned : Signs "POST" (daughterPath ++ "/permissions") grantBody grantSignature
  rotateSigned : Signs "POST" (daughterPath ++ "/rotate") "" rotateSignature
  takeoverSigned : Signs "DELETE" daughterPath takeoverBody takeoverSignature
  makerMinted : ((handleAdmin (ctx 1) masterRow (.createApiKey
    { name := "maker", canManageHooks := some true })).run Op.exec booted).2 = withMaker
  hookMade : serveAt 2 makeHook withMaker = withOwned

instance : History where
  started := by decide +kernel
  parentMinted := by decide +kernel
  daughterSigned := ⟨by decide +kernel, by decide +kernel, by decide +kernel, by decide +kernel⟩
  daughterMinted := by decide +kernel
  deployed := by decide +kernel
  elevatedHook := by decide +kernel
  entrustedParent := by decide +kernel
  raisedDaughter := by decide +kernel
  grantSigned := ⟨by decide +kernel, by decide +kernel, by decide +kernel, by decide +kernel⟩
  rotateSigned := ⟨by decide +kernel, by decide +kernel, by decide +kernel, by decide +kernel⟩
  takeoverSigned := ⟨by decide +kernel, by decide +kernel, by decide +kernel, by decide +kernel⟩
  makerMinted := by decide +kernel
  hookMade := by decide +kernel

theorem boot_start :
    (boot state start).run Op.exec (startProcess state start .empty) = (.ok (), booted) :=
  History.started

theorem reachable_booted : Reachable state booted := .start start boot_start

theorem serveAt_mintParent : serveAt 1 mintParent booted = withParent :=
  (serveAt_master 1 "/keys" _ rfl rfl).trans History.parentMinted

theorem reachable_withParent : Reachable state withParent :=
  reachable_serveAt reachable_booted 1 mintParent serveAt_mintParent

theorem authMiddleware_daughter :
    (authMiddleware state clock (.v4 0x7F000001)
      (signed "/keys" daughterBody daughterSignature)).run Op.exec withParent =
        (.ok parentRow, { withParent with replay := guardAfter [daughterSeen] }) :=
  authMiddleware_signedAs History.daughterSigned rfl rfl

/-- The parent mints its daughter, and has to sign for it. -/
theorem reachable_withDaughter : Reachable state withDaughter :=
  reachable_serveAt reachable_withParent 2
    (.admin (signed "/keys" daughterBody daughterSignature) (.createApiKey { name := "daughter" }))
    ((serveAt_admin (authenticate_admin 2 _ authMiddleware_daughter)).trans History.daughterMinted)

theorem reachable_deployment : Reachable state deployment :=
  reachable_master reachable_withDaughter 3 "/hooks" _ rfl rfl History.deployed

theorem serveAt_mintMaker : serveAt 1 mintMaker booted = withMaker :=
  (serveAt_master 1 "/keys" _ rfl rfl).trans History.makerMinted

theorem serveAt_makeHook : serveAt 2 makeHook withMaker = withOwned := History.hookMade

theorem reachable_withOwned : Reachable state withOwned :=
  reachable_serveAt (reachable_serveAt reachable_booted 1 mintMaker serveAt_mintMaker) 2 makeHook
    serveAt_makeHook

theorem reachable_elevated : Reachable state elevated :=
  reachable_master reachable_deployment 4 "/hooks/deploy" _ rfl rfl History.elevatedHook

theorem reachable_entrusted : Reachable state entrusted :=
  reachable_master reachable_deployment 4
    "/keys/00000000-0000-0000-0000-000000000065/permissions" _ rfl rfl History.entrustedParent

theorem reachable_raised : Reachable state raised :=
  reachable_master reachable_deployment 4 (daughterPath ++ "/permissions") _ rfl rfl
    History.raisedDaughter

theorem authMiddleware_grant :
    (authMiddleware state clock (.v4 0x7F000001)
      (signed (daughterPath ++ "/permissions") grantBody grantSignature)).run Op.exec entrusted =
        (.ok parentRow, { entrusted with replay := guardAfter [grantSeen, daughterSeen] }) :=
  authMiddleware_signedAs History.grantSigned rfl rfl

theorem authMiddleware_rotate :
    (authMiddleware state clock (.v4 0x7F000001)
      (signed (daughterPath ++ "/rotate") "" rotateSignature)).run Op.exec raised =
        (.ok parentRow, { raised with replay := guardAfter [rotateSeen, daughterSeen] }) :=
  authMiddleware_signedAs History.rotateSigned rfl rfl

theorem authMiddleware_takeover :
    (authMiddleware state clock (.v4 0x7F000001) takeoverHttp).run Op.exec elevated =
      (.ok parentRow, { elevated with replay := guardAfter [takeoverSeen, daughterSeen] }) :=
  authMiddleware_signedAs History.takeoverSigned rfl rfl

end HookExecutor.Sample
