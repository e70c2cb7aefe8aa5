import HookExecutor.Verification.Keyless
import HookExecutor.Verification.SignedRequests
import HookExecutor.Verification.TwoWorlds

/-!
# How a caller that authenticates nobody is refused

On the invocation routes every failure to authenticate is one answer, whichever
key was presented. A body too large to be verified is answered otherwise, and
only once the key was found to have a secret to verify it by.
-/

namespace HookExecutor

open Text Crypto

/-- The answer to a signed body that is not read to its end. -/
def bodyTooLarge : AppError := .invalidInput "Request body too large to verify"

section Refusals

variable {state : AppState} {clock : AuthClock} {req : HttpRequest} {hook : Option Hook}
  {key : ApiKey} {timestamp : Option String} {w : World}

/-- The timestamp goes in time with the clock that has the last word on it. -/
def Timely (state : AppState) (clock : AuthClock) (timestamp : Option String) : Prop :=
  ∃ text, timestamp = some text ∧
    validateTimestamp text state.config.signatureMaxAgeSeconds clock.validatedAt = .ok ()

/-- A valid, new signature where one is presented, and none only where none is
required. -/
def SignsFor (state : AppState) (clock : AuthClock) (hook : Option Hook) (req : HttpRequest)
    (key : ApiKey) (timestamp : Option String) (guard : ReplayGuard) : Prop :=
  match req.headers.getStr signatureHeader with
  | none => signatureRequired state key = false
  | some signature => ∃ digest,
      verifyKeySignature state clock req hook key timestamp signature = .ok digest ∧
        (guard.checkAndRecord key.id digest clock.recordedAt).1 = true

/-- A secret that is stored can be read back. -/
def Decrypts (state : AppState) (key : ApiKey) : Prop :=
  ∀ stored, key.signingSecret = some stored → ∃ secret, openSecret state stored = .ok secret

/-- HMAC takes a key of any length. -/
def Primitives.TakesAnyKey (prim : Primitives) : Prop :=
  ∀ key message, prim.hmacSha256 key message ≠ none

theorem validateTimestamp_error {raw : String} {maxAge : Int} {now : DateTime} {e : AppError}
    (h : validateTimestamp raw maxAge now = .error e) :
    uniformizeKeyedAuthFailure e = invocationUnauthorized := by
  unfold validateTimestamp at h
  split at h
  · cases h
    rfl
  · split at h
    · cases h
      rfl
    · cases h

theorem prevalidateTimestampHeader_error {headers : HeaderMap} {maxAge : Int} {now : DateTime}
    {e : AppError} (h : prevalidateTimestampHeader headers maxAge now = .error e) :
    uniformizeKeyedAuthFailure e = invocationUnauthorized := by
  unfold prevalidateTimestampHeader at h
  split at h
  · cases h
  · split at h
    · rename_i raw _ _
      cases hv : validateTimestamp raw maxAge now with
      | error e' =>
        rw [hv] at h
        cases h
        exact validateTimestamp_error hv
      | ok _ =>
        rw [hv] at h
        cases h
    · cases h

theorem verifySignature_error {prim : Primitives} {secret provided : String} {payload : Bytes}
    {r : SignatureRejection} (hmac : prim.TakesAnyKey)
    (h : verifySignature prim secret payload provided = .error r) :
    uniformizeKeyedAuthFailure (rejectSignature r) = invocationUnauthorized := by
  unfold verifySignature verifySignatureWithPrefix at h
  split at h
  · cases h
    rfl
  · split at h
    · cases h
      rfl
    · split at h
      · rename_i hnone
        exact absurd hnone (hmac _ _)
      · split at h
        · cases h
        · cases h
          rfl

/-- What a signature that does not verify is told: that the body is too large,
if it came to reading it, and otherwise nothing. -/
theorem verifyKeySignature_error {signature : String} {e : AppError}
    (hdecrypts : Decrypts state key)
    (hmac : state.platform.prim.TakesAnyKey)
    (h : verifyKeySignature state clock req hook key timestamp signature = .error e) :
    ((Timely state clock timestamp ∧ key.signingSecret ≠ none ∧
        maxRequestBodyBytes < req.body.length) →
      uniformizeKeyedAuthFailure e = bodyTooLarge) ∧
    (¬(Timely state clock timestamp ∧ key.signingSecret ≠ none ∧
        maxRequestBodyBytes < req.body.length) →
      uniformizeKeyedAuthFailure e = invocationUnauthorized) := by
  cases timestamp with
  | none =>
    cases h
    refine ⟨fun hreads => ?_, fun _ => rfl⟩
    obtain ⟨⟨_, htext, _⟩, _⟩ := hreads
    cases htext
  | some text =>
    cases hvalid : validateTimestamp text state.config.signatureMaxAgeSeconds clock.validatedAt with
    | error e' =>
      simp only [verifyKeySignature, hvalid, Bind.bind, Except.bind, Except.error.injEq] at h
      subst h
      refine ⟨fun hreads => ?_, fun _ => validateTimestamp_error hvalid⟩
      obtain ⟨⟨_, htext, hok⟩, _⟩ := hreads
      cases htext
      simp [hvalid] at hok
    | ok _ =>
      cases hsecret : key.signingSecret with
      | none =>
        simp only [verifyKeySignature, hvalid, recoverSigningSecret, hsecret, Bind.bind,
          Except.bind, Except.error.injEq] at h
        subst h
        exact ⟨fun hreads => absurd rfl hreads.2.1, fun _ => rfl⟩
      | some stored =>
        obtain ⟨secret, hopen⟩ := hdecrypts stored hsecret
        have htimely : Timely state clock (some text) := ⟨text, rfl, hvalid⟩
        by_cases hlarge : maxRequestBodyBytes < req.body.length
        · simp only [verifyKeySignature, hvalid, recoverSigningSecret, hsecret, hopen, bufferBody,
            if_pos hlarge, Bind.bind, Except.bind, Except.error.injEq] at h
          subst h
          exact ⟨fun _ => rfl, fun hno => absurd ⟨htimely, Option.some_ne_none _, hlarge⟩ hno⟩
        · simp only [verifyKeySignature, hvalid, recoverSigningSecret, hsecret, hopen, bufferBody,
            if_neg hlarge, Bind.bind, Except.bind, Except.mapError] at h
          refine ⟨fun hreads => absurd hreads.2.2 hlarge, fun _ => ?_⟩
          split at h
          · rename_i hrejected
            cases h
            exact verifySignature_error hmac hrejected
          · cases h

/-- A request that comes to having its body read. -/
def ReadsBody (state : AppState) (clock : AuthClock) (req : HttpRequest) (key : ApiKey)
    (timestamp : Option String) : Prop :=
  req.headers.getStr signatureHeader ≠ none ∧ Timely state clock timestamp ∧
    key.signingSecret ≠ none

theorem checkSignature_refused (hdecrypts : Decrypts state key)
    (hmac : state.platform.prim.TakesAnyKey)
    (hunsigned : ¬SignsFor state clock hook req key timestamp w.replay) :
    ∃ e, ((checkSignature state clock req hook key timestamp).run Op.exec w).1 = .error e ∧
      ((ReadsBody state clock req key timestamp ∧ maxRequestBodyBytes < req.body.length) →
        uniformizeKeyedAuthFailure e = bodyTooLarge) ∧
      (¬(ReadsBody state clock req key timestamp ∧ maxRequestBodyBytes < req.body.length) →
        uniformizeKeyedAuthFailure e = invocationUnauthorized) := by
  unfold SignsFor at hunsigned
  unfold checkSignature ReadsBody
  cases hsig : req.headers.getStr signatureHeader with
  | none =>
    simp only [hsig] at hunsigned ⊢
    refine ⟨_, by rw [Program.run_require, if_neg hunsigned], fun h => absurd rfl h.1.1,
      fun _ => rfl⟩
  | some signature =>
    simp only [hsig] at hunsigned ⊢
    cases hverify : verifyKeySignature state clock req hook key timestamp signature with
    | error e =>
      obtain ⟨hlarge, hother⟩ := verifyKeySignature_error hdecrypts hmac hverify
      refine ⟨e, rfl, fun hreads => ?_, fun hno => hother fun hreads => hno ?_⟩
      · obtain ⟨⟨_, htimely, hsecret⟩, hsize⟩ := hreads
        exact hlarge ⟨htimely, hsecret, hsize⟩
      · obtain ⟨htimely, hsecret, hsize⟩ := hreads
        exact ⟨⟨Option.some_ne_none _, htimely, hsecret⟩, hsize⟩
    | ok digest =>
      have hused : (w.replay.checkAndRecord key.id digest clock.recordedAt).1 = false := by
        by_contra hnew
        exact hunsigned ⟨digest, hverify, by simpa using hnew⟩
      obtain ⟨_, _, _, _, _, hbody, _⟩ := verifyKeySignature_ok.mp hverify
      refine ⟨.unauthorized "This signature has already been used; sign a fresh request", ?_,
        fun hreads => ?_, fun _ => rfl⟩
      · simp [Program.run_bind, Op.exec, hused]
      · simp [bufferBody, hreads.2] at hbody

end Refusals

section Invocations

variable {ctx : Context} {clock : AuthClock} {inv : Invocation} {w : World}

/-- The caller proves to be a key: the one it presents exists, and the request is
signed for it where it is signed or has to be. -/
def Invocation.Authenticates (ctx : Context) (clock : AuthClock) (inv : Invocation) (w : World) :
    Prop :=
  ∃ presentedKey timestamp record, inv.headers.getStr apiKeyHeader = some presentedKey ∧
    prevalidateTimestampHeader inv.headers ctx.state.config.signatureMaxAgeSeconds
      clock.prevalidatedAt = .ok timestamp ∧
    w.db.apiKeys.find? (fun k => k.keyHash == hashKey ctx.state.platform.prim presentedKey) =
      some record ∧
    SignsFor ctx.state clock (w.db.resolveLive inv.segment) inv.toHttp (w.principal record)
      timestamp w.replay

/-- A signature is presented, with a timestamp that is in time. -/
def Invocation.PresentsTimely (ctx : Context) (clock : AuthClock) (inv : Invocation) : Prop :=
  inv.headers.getStr signatureHeader ≠ none ∧ ∃ timestamp,
    prevalidateTimestampHeader inv.headers ctx.state.config.signatureMaxAgeSeconds
      clock.prevalidatedAt = .ok timestamp ∧ Timely ctx.state clock timestamp

/-- The presented key exists and has a secret to verify signatures by. -/
def Invocation.NamesSigner (ctx : Context) (inv : Invocation) (w : World) : Prop :=
  ∃ presentedKey record, inv.headers.getStr apiKeyHeader = some presentedKey ∧
    w.db.apiKeys.find? (fun k => k.keyHash == hashKey ctx.state.platform.prim presentedKey) =
      some record ∧ record.signingSecret ≠ none

theorem World.principal_signingSecret (w : World) (record : ApiKey) :
    (w.principal record).signingSecret = record.signingSecret := by
  unfold World.principal
  split <;> rfl

/-- A keyed invocation that is not let through is answered uniformly. -/
theorem serve_keyed_refused {presentedKey : String} {e : AppError}
    (hkey : inv.headers.getStr apiKeyHeader = some presentedKey)
    (hrun : ((authenticateBearerKey ctx.state clock presentedKey ctx.clientIp
      (w.db.resolveLive inv.segment) inv.toHttp).run Op.exec w).1 = .error e) :
    ((serve ctx clock (.invoke inv)).run Op.exec w).1 = .error (uniformizeKeyedAuthFailure e) := by
  have hidentifier : hookIdentifierFromPath inv.toHttp.path = some inv.segment :=
    hookIdentifierFromPath_innerPath inv.route inv.isSegment
  have hheaders : inv.toHttp.headers.getStr apiKeyHeader = some presentedKey := hkey
  have hlive : ((w.db.resolveLive inv.segment).elim (Except.error AppError.notFound) .ok).toOption =
      w.db.resolveLive inv.segment := by
    cases w.db.resolveLive inv.segment <;> rfl
  simp only [serve, authenticate, invocationAuthMiddleware, hidentifier, hheaders, Program.bind_eq,
    Program.map_eq, Program.run_bind, mapFailure, Program.run_attempt, run_resolveHook,
    Program.run_pure, hlive, hrun, Program.run_ofExcept, Except.mapError]

theorem authenticateBearerKey_refused {presentedKey : String}
    (hkey : inv.headers.getStr apiKeyHeader = some presentedKey)
    (hdecrypts : ∀ record ∈ w.db.apiKeys, Decrypts ctx.state record)
    (hmac : ctx.state.platform.prim.TakesAnyKey) (hnobody : ¬inv.Authenticates ctx clock w) :
    ∃ e, ((authenticateBearerKey ctx.state clock presentedKey ctx.clientIp
        (w.db.resolveLive inv.segment) inv.toHttp).run Op.exec w).1 = .error e ∧
      ((inv.PresentsTimely ctx clock ∧ inv.NamesSigner ctx w ∧
          maxRequestBodyBytes < inv.body.length) → uniformizeKeyedAuthFailure e = bodyTooLarge) ∧
      (¬(inv.PresentsTimely ctx clock ∧ inv.NamesSigner ctx w ∧
          maxRequestBodyBytes < inv.body.length) →
        uniformizeKeyedAuthFailure e = invocationUnauthorized) := by
  have hfind : (List.head? <$> sql (.selectApiKeys
      (.keyHashEq (hashKey ctx.state.platform.prim presentedKey)) .unordered) :
      Handler (Option ApiKey)).run Op.exec w = (.ok (w.db.apiKeys.find? fun k =>
        k.keyHash == hashKey ctx.state.platform.prim presentedKey), w) := by
    simp [Program.run_bind, Stmt.exec, Except.mapError, Database.orderApiKeys, List.head?_filter]
    rfl
  unfold authenticateBearerKey
  cases htimestamp : prevalidateTimestampHeader inv.toHttp.headers
      ctx.state.config.signatureMaxAgeSeconds clock.prevalidatedAt with
  | error e =>
    refine ⟨e, rfl, fun htold => ?_, fun _ => prevalidateTimestampHeader_error htimestamp⟩
    obtain ⟨⟨_, timestamp, hok, _⟩, _⟩ := htold
    cases htimestamp.symm.trans hok
  | ok timestamp =>
    simp only [Program.bind_eq, Program.run_bind, Program.run_ofExcept, hfind]
    cases hfound : w.db.apiKeys.find? (fun k =>
        k.keyHash == hashKey ctx.state.platform.prim presentedKey) with
    | none =>
      refine ⟨.unauthorized "Invalid API Key", rfl, fun htold => ?_, fun _ => rfl⟩
      obtain ⟨_, ⟨key, record, hkey', hsome, _⟩, _⟩ := htold
      obtain rfl : presentedKey = key := Option.some.inj (hkey.symm.trans hkey')
      cases hfound.symm.trans hsome
    | some record =>
      have hunsigned : ¬SignsFor ctx.state clock (w.db.resolveLive inv.segment) inv.toHttp
          (w.principal record) timestamp w.replay := fun h =>
        hnobody ⟨presentedKey, timestamp, record, hkey, htimestamp, hfound, h⟩
      have hsecret := w.principal_signingSecret record
      obtain ⟨e, hrun, hlarge, hother⟩ := checkSignature_refused (w := { w with
          pinned := if record.isMaster then w.masterIdentity else w.pinned })
        (by
          unfold Decrypts
          rw [hsecret]
          exact hdecrypts record (List.mem_of_find?_eq_some hfound)) hmac hunsigned
      have hiff : ReadsBody ctx.state clock inv.toHttp (w.principal record) timestamp ↔
          inv.PresentsTimely ctx clock ∧ inv.NamesSigner ctx w := by
        unfold ReadsBody
        rw [hsecret]
        constructor
        · rintro ⟨hsigned, htimely, hsigner⟩
          exact ⟨⟨hsigned, timestamp, htimestamp, htimely⟩,
            presentedKey, record, hkey, hfound, hsigner⟩
        · rintro ⟨⟨hsigned, timestamp', htimestamp', htimely⟩, key, record', hkey', hfound',
            hsigner⟩
          obtain rfl : timestamp = timestamp' :=
            Except.ok.inj (htimestamp.symm.trans htimestamp')
          obtain rfl : presentedKey = key := Option.some.inj (hkey.symm.trans hkey')
          obtain rfl : record = record' := Option.some.inj (hfound.symm.trans hfound')
          exact ⟨hsigned, htimely, hsigner⟩
      refine ⟨e, ?_, ?_, ?_⟩
      · simp only [run_orElse, Option.elim_some, authenticatePin_run]
        generalize (checkSignature ctx.state clock inv.toHttp (w.db.resolveLive inv.segment)
          (w.principal record) timestamp).run Op.exec _ = checked at hrun ⊢
        obtain ⟨answer, left⟩ := checked
        cases hrun
        rfl
      · rw [← and_assoc, ← hiff]
        exact hlarge
      · rw [← and_assoc, ← hiff]
        exact hother

/-- The one answer to whoever presents a key and does not prove to be one, and
the one exception. -/
theorem invocation_refused {presentedKey : String}
    (hkey : inv.headers.getStr apiKeyHeader = some presentedKey)
    (hdecrypts : ∀ record ∈ w.db.apiKeys, Decrypts ctx.state record)
    (hmac : ctx.state.platform.prim.TakesAnyKey) (hnobody : ¬inv.Authenticates ctx clock w) :
    ((inv.PresentsTimely ctx clock ∧ inv.NamesSigner ctx w ∧
        maxRequestBodyBytes < inv.body.length) →
      ((serve ctx clock (.invoke inv)).run Op.exec w).1 = .error bodyTooLarge) ∧
    (¬(inv.PresentsTimely ctx clock ∧ inv.NamesSigner ctx w ∧
        maxRequestBodyBytes < inv.body.length) →
      ((serve ctx clock (.invoke inv)).run Op.exec w).1 = .error invocationUnauthorized) := by
  obtain ⟨e, hrun, hlarge, hother⟩ := authenticateBearerKey_refused hkey hdecrypts hmac hnobody
  rw [serve_keyed_refused hkey hrun]
  exact ⟨fun h => congrArg _ (hlarge h), fun h => congrArg _ (hother h)⟩

/-! ### Callers whose key header is not text -/

/-- The same process and database, with other keys. -/
def World.SameButKeys (w w' : World) : Prop :=
  ∃ keys, w' = w.withDb { w.db with apiKeys := keys }

/-- A query that neither reads nor writes keys. -/
def KeyBlind (β : Type) (q : Op β) : Prop :=
  ∀ w w' : World, w.SameButKeys w' →
    (Op.exec β q w).1 = (Op.exec β q w').1 ∧ (Op.exec β q w).2.SameButKeys (Op.exec β q w').2

theorem keyBlind_selectHooks (c : HookCondition) (o : HookOrder) :
    KeyBlind _ (.db (.selectHooks c o)) := by
  rintro w _ ⟨keys, rfl⟩
  exact ⟨rfl, keys, rfl⟩

theorem keyBlind_selectHookParameters (hookId : Uuid) :
    KeyBlind _ (.db (.selectHookParameters hookId)) := by
  rintro w _ ⟨keys, rfl⟩
  exact ⟨rfl, keys, rfl⟩

/-- An execution that no key is named for asks for no key. -/
theorem keyBlind_insertExecution {row : Execution} (hnobody : row.apiKeyId = none) :
    KeyBlind _ (.db (.insertExecution row)) := by
  rintro w _ ⟨keys, rfl⟩
  have hinsert : ∀ db : Database, db.insertExecution row =
      if db.executions.any (·.id == row.id) then (.error .uniqueConstraintViolation, db)
      else if db.hasHook row.hookId then
        (.ok (), { db with executions := db.executions ++ [row] })
      else (.error .foreignKeyConstraintViolation, db) := by
    intro db
    simp [Database.insertExecution, hnobody]
  simp only [Op.exec, Stmt.exec, hinsert, World.withDb]
  split
  · exact ⟨rfl, keys, rfl⟩
  · rw [show Database.hasHook { w.db with apiKeys := keys } row.hookId = w.db.hasHook row.hookId
      from rfl]
    split
    · exact ⟨rfl, keys, rfl⟩
    · exact ⟨rfl, keys, rfl⟩

theorem resolveHook_keyBlind (identifier : String) : (resolveHook identifier).Emits KeyBlind := by
  refine .bind (.bind ?_ fun byId => ?_) fun _ =>
    .bind (Program.emits_require _ _) fun _ => trivial
  · cases Uuid.parseStr identifier with
    | none => trivial
    | some id => exact .map _ ((emits_sql _).mpr (keyBlind_selectHooks _ _))
  · cases byId with
    | none =>
      exact .bind (.map _ ((emits_sql _).mpr (keyBlind_selectHooks _ _))) fun _ => emits_orElse _ _
    | some _ => trivial

theorem authorizeInvocation_keyBlind (identifier : String) :
    (authorizeInvocation none identifier).Emits KeyBlind :=
  (resolveHook_keyBlind identifier).bind fun _ => trivial

theorem resolveRequestParameters_keyBlind (ctx : Context) (hook : Hook) (body : Bytes) :
    (resolveRequestParameters ctx hook body).Emits KeyBlind :=
  .bind (Program.emits_ofExcept _) fun _ =>
    .bind ((emits_sql _).mpr (keyBlind_selectHookParameters _)) fun _ => Program.emits_ofExcept _

theorem handleInvocation_keyBlind (ctx : Context) (inv : Invocation) :
    (handleInvocation ctx inv none).Emits KeyBlind := by
  have hexecute : ∀ identifier body, (runHookRequest ctx none identifier body).Emits KeyBlind := by
    intro identifier body
    refine (authorizeInvocation_keyBlind identifier).bind fun hook =>
      (resolveRequestParameters_keyBlind ctx hook body).bind fun resolved =>
      .bind (Program.emits_require _ _) fun _ => .bind ?_ fun _ => trivial
    exact .bind (Program.emits_ofExcept _) fun _ => .bind (Program.emits_ofExcept _) fun _ =>
      .bind ((emits_sql _).mpr (keyBlind_insertExecution rfl)) fun _ => trivial
  refine .bind (Program.emits_ofExcept _) fun identifier =>
    .bind (Program.emits_ofExcept _) fun body => ?_
  cases inv.route with
  | execute => exact .map _ (hexecute identifier body)
  | webhook => exact .map _ (hexecute identifier body)
  | test =>
    exact .map _ ((authorizeInvocation_keyBlind identifier).bind fun hook =>
      (resolveRequestParameters_keyBlind ctx hook body).bind fun _ => trivial)

/-- A request whose key header is not text never comes to look at a key. -/
theorem serve_keyBlind (hkeyless : inv.headers.getStr apiKeyHeader = none) :
    (serve ctx clock (.invoke inv)).Emits KeyBlind := by
  have hidentifier : hookIdentifierFromPath inv.toHttp.path = some inv.segment :=
    hookIdentifierFromPath_innerPath inv.route inv.isSegment
  have hheaders : inv.toHttp.headers.getStr apiKeyHeader = none := hkeyless
  -- what follows the guard is the handler, without a key
  have hserve : serve ctx clock (.invoke inv) =
      (mapFailure (resolveHook inv.segment) fun _ => invocationUnauthorized).bind fun target =>
        (Program.ofExcept (guardKeyless ctx.state target inv.toHttp)).bind fun _ =>
          Response.invocation <$> handleInvocation ctx inv none := by
    simp only [serve, authenticate, invocationAuthMiddleware, hidentifier, hheaders,
      Program.bind_eq, Program.map_eq, Program.bind_assoc]
    rfl
  rw [hserve]
  exact ((resolveHook_keyBlind _).attempt.bind fun _ => Program.emits_ofExcept _).bind fun _ =>
    .bind (Program.emits_ofExcept _) fun _ => .map _ (handleInvocation_keyBlind ctx inv)

/-- Over any two tables of keys, a request under a key header by which it
authenticates nobody is answered the same if and only if it does not come to a
body too large under one of them alone. -/
theorem refusal_uniform_iff {keys : List ApiKey}
    (hmac : ctx.state.platform.prim.TakesAnyKey)
    (hdecrypts : ∀ record ∈ w.db.apiKeys ++ keys, Decrypts ctx.state record)
    (hnobody : ¬inv.Authenticates ctx clock w)
    (hnobody' : ¬inv.Authenticates ctx clock (w.withDb { w.db with apiKeys := keys })) :
    shown ((serve ctx clock (.invoke inv)).run Op.exec w).1 =
        shown ((serve ctx clock (.invoke inv)).run Op.exec
          (w.withDb { w.db with apiKeys := keys })).1 ↔
      (maxRequestBodyBytes < inv.body.length → inv.PresentsTimely ctx clock →
        (inv.NamesSigner ctx w ↔
          inv.NamesSigner ctx (w.withDb { w.db with apiKeys := keys }))) := by
  cases hkey : inv.headers.getStr apiKeyHeader with
  | none =>
    have hblind : (serve ctx clock (.invoke inv)).Emits KeyBlind := serve_keyBlind hkey
    have hsame := hblind.lockstep (s := w) (t := w.withDb { w.db with apiKeys := keys })
      ⟨keys, rfl⟩
    have hnone : ∀ w : World, ¬inv.NamesSigner ctx w := by
      rintro w ⟨presentedKey, _, hsome, _⟩
      exact absurd (hkey.symm.trans hsome) nofun
    exact iff_of_true (congrArg shown hsame.1) fun _ _ => iff_of_false (hnone _) (hnone _)
  | some presentedKey =>
    obtain ⟨hlarge, hother⟩ := invocation_refused hkey
      (fun record h => hdecrypts record (List.mem_append_left _ h)) hmac hnobody
    obtain ⟨hlarge', hother'⟩ := invocation_refused hkey
      (fun record h => hdecrypts record (List.mem_append_right _ h)) hmac hnobody'
    have hdiffer : shown (.error bodyTooLarge : Except AppError Response) ≠
        shown (.error invocationUnauthorized) := fun h => absurd (status_of_shown h) (by decide)
    by_cases hcomes : maxRequestBodyBytes < inv.body.length ∧ inv.PresentsTimely ctx clock
    · obtain ⟨hsize, htimely⟩ := hcomes
      simp only [hsize, htimely, forall_const]
      by_cases hsigner : inv.NamesSigner ctx w <;>
        by_cases hsigner' : inv.NamesSigner ctx (w.withDb { w.db with apiKeys := keys })
      · rw [hlarge ⟨htimely, hsigner, hsize⟩, hlarge' ⟨htimely, hsigner', hsize⟩]
        exact iff_of_true rfl (iff_of_true hsigner hsigner')
      · rw [hlarge ⟨htimely, hsigner, hsize⟩, hother' fun h => hsigner' h.2.1]
        exact iff_of_false hdiffer fun h => hsigner' (h.mp hsigner)
      · rw [hother fun h => hsigner h.2.1, hlarge' ⟨htimely, hsigner', hsize⟩]
        exact iff_of_false hdiffer.symm fun h => hsigner (h.mpr hsigner')
      · rw [hother fun h => hsigner h.2.1, hother' fun h => hsigner' h.2.1]
        exact iff_of_true rfl (iff_of_false hsigner hsigner')
    · rw [hother fun h => hcomes ⟨h.2.2, h.1⟩, hother' fun h => hcomes ⟨h.2.2, h.1⟩]
      exact iff_of_true rfl fun hsize htimely => absurd ⟨hsize, htimely⟩ hcomes

end Invocations

section Sample

open Sample

/-- A MAC under any key: the table where it has an entry, else nothing. -/
def anyMac (key message : Bytes) : Option Bytes :=
  some ((prim.hmacSha256 key message).getD [])

def anyKeyState : AppState :=
  { state with platform := { platform with prim := { prim with hmacSha256 := anyMac } } }

def anyKeyCtx : Context := { ctx 5 with state := anyKeyState }

theorem anyKeyState_takesAnyKey : anyKeyState.platform.prim.TakesAnyKey := fun _ _ => nofun

theorem decrypts_withParent : ∀ record ∈ withParent.db.apiKeys ++ [],
    Decrypts anyKeyState record := by
  intro record hrecord stored hstored
  have hrows : record = Sample.masterRow ∨ record = parentRow := by
    simpa [withParent, worldOf] using hrecord
  rcases hrows with rfl | rfl
  · cases hstored
    exact ⟨"0202020202020202020202020202020202020202020202020202020202020202",
      by decide +kernel⟩
  · cases hstored
    exact ⟨parentSecret, by decide +kernel⟩

/-- The parent's key, as whoever found it would try it. -/
def foundKey (headers : List (String × Bytes)) (body : Bytes) : Invocation :=
  { route := .execute
    segment := "deploy"
    isSegment := deploy_isSegment
    method := "POST"
    target := "/api/hooks/deploy/execute"
    headers := ⟨keyHeader parentKey :: headers⟩
    body := body }

/-- A made-up signature, in time. -/
def guess : List (String × Bytes) :=
  [("x-signature-256", asBytes "sha256=00"), ("x-timestamp", asBytes "1700000000")]

theorem foundKey_headers (headers : List (String × Bytes)) (body : Bytes) :
    (foundKey headers body).headers = ⟨keyHeader parentKey :: headers⟩ := rfl

theorem foundKey_getStr (headers : List (String × Bytes)) (body : Bytes) :
    (foundKey headers body).headers.getStr apiKeyHeader = some parentKey := by
  have hname : asciiLower apiKeyHeader = "x-api-key" := by decide
  have htext : HeaderMap.toStr (asBytes parentKey) = some parentKey := by decide
  simpa [foundKey, HeaderMap.getStr, HeaderMap.get, keyHeader, hname] using htext

theorem withParent_find : withParent.db.apiKeys.find? (fun k =>
    k.keyHash == hashKey anyKeyCtx.state.platform.prim parentKey) = some parentRow := by
  decide +kernel

/-- Where the parent has to sign, whoever does not sign is not the parent. -/
theorem foundKey_unsigned : ¬(foundKey [] []).Authenticates anyKeyCtx clock withParent := by
  rintro ⟨presentedKey, timestamp, record, hkey, -, hfound, hsigns⟩
  obtain rfl : parentKey = presentedKey :=
    Option.some.inj ((foundKey_getStr [] []).symm.trans hkey)
  obtain rfl : parentRow = record := Option.some.inj (withParent_find.symm.trans hfound)
  have hnone : (foundKey [] []).toHttp.headers.getStr signatureHeader = none := by decide
  have hrequired : signatureRequired anyKeyCtx.state (withParent.principal parentRow) = true := by
    decide
  simp only [SignsFor, hnone, hrequired] at hsigns
  exact absurd hsigns nofun

/-- Among no keys nobody authenticates. -/
theorem not_authenticates_of_no_keys {inv : Invocation} {w : World} (hnone : w.db.apiKeys = []) :
    ¬inv.Authenticates anyKeyCtx clock w := by
  rintro ⟨_, _, _, _, _, hfound, _⟩
  rw [hnone] at hfound
  exact absurd hfound nofun

/-- An unsigned request under a key that has to sign, and under a key that does
not exist. -/
theorem refusal_uniform_iff_unsigned :
    (anyKeyCtx.state.platform.prim.TakesAnyKey ∧
      ¬(foundKey [] []).Authenticates anyKeyCtx clock withParent) ∧
    (shown ((serve anyKeyCtx clock (.invoke (foundKey [] []))).run Op.exec withParent).1 =
        shown ((serve anyKeyCtx clock (.invoke (foundKey [] []))).run Op.exec
          (withParent.withDb { withParent.db with apiKeys := [] })).1 ↔
      (maxRequestBodyBytes < (foundKey [] []).body.length →
        (foundKey [] []).PresentsTimely anyKeyCtx clock →
        ((foundKey [] []).NamesSigner anyKeyCtx withParent ↔
          (foundKey [] []).NamesSigner anyKeyCtx
            (withParent.withDb { withParent.db with apiKeys := [] })))) :=
  ⟨⟨anyKeyState_takesAnyKey, foundKey_unsigned⟩,
    refusal_uniform_iff anyKeyState_takesAnyKey decrypts_withParent foundKey_unsigned
      (not_authenticates_of_no_keys rfl)⟩

/-- One byte more than is read. -/
def oversized : Bytes := List.replicate (maxRequestBodyBytes + 1) 0

theorem oversized_length : maxRequestBodyBytes < oversized.length := by
  simp [oversized]

theorem guess_getStr (body : Bytes) :
    (foundKey guess body).headers.getStr signatureHeader = some "sha256=00" := by
  rw [foundKey_headers]
  decide

/-- A signature over a body that is too large is not verified. -/
theorem foundKey_oversized :
    ¬(foundKey guess oversized).Authenticates anyKeyCtx clock withParent := by
  rintro ⟨presentedKey, timestamp, record, hkey, -, hfound, hsigns⟩
  have hsignature : (foundKey guess oversized).toHttp.headers.getStr signatureHeader =
    some "sha256=00" := guess_getStr oversized
  rw [SignsFor, hsignature] at hsigns
  obtain ⟨digest, hverify, -⟩ := hsigns
  obtain ⟨_, _, _, _, _, hbody, _⟩ := verifyKeySignature_ok.mp hverify
  simp [bufferBody, Invocation.toHttp, foundKey, oversized_length] at hbody

theorem guess_timely : (foundKey guess oversized).PresentsTimely anyKeyCtx clock := by
  have hearly : prevalidateTimestampHeader ⟨keyHeader parentKey :: guess⟩ 300
      clock.prevalidatedAt = .ok (some "1700000000") := by decide
  have hvalid : validateTimestamp "1700000000" 300 clock.validatedAt = .ok () := by decide
  unfold Invocation.PresentsTimely
  rw [guess_getStr, foundKey_headers]
  exact ⟨nofun, some "1700000000", hearly, "1700000000", rfl, hvalid⟩

/-- A body that is too large tells a key that exists from one that does not. -/
theorem found_key_is_told : ¬∀ {ctx : Context} {clock : AuthClock} {inv : Invocation} {w : World}
    {keys : List ApiKey}, ctx.state.platform.prim.TakesAnyKey →
    (∀ record ∈ w.db.apiKeys ++ keys, Decrypts ctx.state record) →
    inv.headers.getStr apiKeyHeader ≠ none →
    ¬inv.Authenticates ctx clock w →
    ¬inv.Authenticates ctx clock (w.withDb { w.db with apiKeys := keys }) →
    shown ((serve ctx clock (.invoke inv)).run Op.exec w).1 =
      shown ((serve ctx clock (.invoke inv)).run Op.exec
        (w.withDb { w.db with apiKeys := keys })).1 := by
  intro huniform
  have hsame := @huniform anyKeyCtx clock (foundKey guess oversized) withParent []
    anyKeyState_takesAnyKey decrypts_withParent (by rw [foundKey_getStr]; exact nofun)
    foundKey_oversized (not_authenticates_of_no_keys rfl)
  have hknown := (invocation_refused (foundKey_getStr guess oversized)
    (fun record h => decrypts_withParent record (List.mem_append_left _ h))
    anyKeyState_takesAnyKey foundKey_oversized).1
    ⟨guess_timely, ⟨parentKey, parentRow, foundKey_getStr _ _, withParent_find, nofun⟩,
      oversized_length⟩
  have hunknown := (invocation_refused (w := withParent.withDb { withParent.db with apiKeys := [] })
    (foundKey_getStr guess oversized) (fun _ h => absurd h List.not_mem_nil) anyKeyState_takesAnyKey
    (not_authenticates_of_no_keys rfl)).2 (fun h => by
      obtain ⟨_, ⟨_, _, _, hfound, _⟩, _⟩ := h
      exact absurd hfound nofun)
  rw [hknown, hunknown] at hsame
  exact absurd (status_of_shown hsame) (by decide)

end Sample

end HookExecutor
