import HookExecutor.Verification.Writes

/-!
# When a key is authenticated

Exactly when the middleware accepts a request as coming from a key, as a
conjunction of the checks it makes in the order it makes them. The record the
handlers are given is the stored row, except that a claim to mastery by any row
but the pinned one is taken out of it.
-/

namespace HookExecutor

open Text Crypto

variable {w w' : World} {key record : ApiKey}

/-- The row without its claim to mastery, or the row itself. -/
def EffectivePrincipal (record key : ApiKey) : Prop :=
  key = record ∨ key = { record with isMaster := false }

theorem EffectivePrincipal.id (h : EffectivePrincipal record key) : key.id = record.id := by
  rcases h with rfl | rfl <;> rfl

theorem EffectivePrincipal.keyHash (h : EffectivePrincipal record key) :
    key.keyHash = record.keyHash := by
  rcases h with rfl | rfl <;> rfl

/-- The one row that claims mastery, if one does and no more. -/
def Database.soleMaster (db : Database) : Option Uuid :=
  match db.apiKeys.filter (·.isMaster) with
  | [key] => some key.id
  | _ => none

/-- The identity a process goes by: the pinned one or, before that, the sole
master row. -/
def World.masterIdentity (w : World) : Option Uuid := w.pinned.or w.db.soleMaster

/-- The principal a stored row stands for. -/
def World.principal (w : World) (record : ApiKey) : ApiKey :=
  if record.isMaster = true ∧ w.masterIdentity ≠ some record.id then
    { record with isMaster := false }
  else record

theorem World.principal_effective (w : World) (record : ApiKey) :
    EffectivePrincipal record (w.principal record) := by
  unfold principal
  split
  · exact .inr rfl
  · exact .inl rfl

@[simp] theorem World.principal_id (w : World) (record : ApiKey) :
    (w.principal record).id = record.id :=
  (w.principal_effective record).id

theorem run_resolveInner (w : World) :
    ∃ r, resolveInner.run Op.exec w = (.ok r, w) ∧ r.toOption = w.db.soleMaster := by
  have hfilter : ApiKeyCondition.isMaster.holds = fun k : ApiKey => k.isMaster := rfl
  simp only [resolveInner, Program.bind_eq, Program.pure_eq, Program.run_bind,
    Handler.exec_trySql, Stmt.exec, Program.run_pure, Database.orderApiKeys, hfilter,
    Database.soleMaster]
  refine ⟨_, rfl, ?_⟩
  generalize w.db.apiKeys.filter (fun k => k.isMaster) = masters
  obtain _ | ⟨_, _ | ⟨_, _⟩⟩ := masters
  · rfl
  · rfl
  · rfl

theorem run_resolveMaster (w : World) :
    resolveMaster.run Op.exec w =
      (.ok w.masterIdentity, { w with pinned := w.masterIdentity }) := by
  obtain ⟨db, replay, pinned, limiter⟩ := w
  cases pinned with
  | some id => simp [resolveMaster, Op.exec, World.masterIdentity, Program.run_bind]
  | none =>
    obtain ⟨r, hr, hsole⟩ := run_resolveInner ⟨db, replay, none, limiter⟩
    simp only [resolveMaster, Program.bind_eq, Program.run_bind, Program.run_ask, Op.exec, hr,
      World.masterIdentity, Option.none_or, ← hsole]
    cases r with
    | error e => rfl
    | ok id => rfl

/-- Pinning reads the database and touches nothing but the pin. -/
theorem authenticatePin_run (record : ApiKey) (w : World) :
    (authenticatePin record).run Op.exec w = (.ok (w.principal record),
      { w with pinned := if record.isMaster then w.masterIdentity else w.pinned }) := by
  cases hmaster : record.isMaster with
  | false => simp [authenticatePin, World.principal, hmaster]
  | true =>
    simp only [authenticatePin, hmaster, Bool.not_true, Bool.false_eq_true, ↓reduceIte,
      Program.bind_eq, Program.run_bind, run_resolveMaster, Program.pure_eq, Program.run_pure,
      World.principal]
    by_cases hself : w.masterIdentity = some record.id
    · simp [hself]
    · simp [hself]

theorem authenticatePin_ok (h : (authenticatePin record).run Op.exec w = (.ok key, w')) :
    EffectivePrincipal record key ∧ w'.db = w.db ∧ w'.replay = w.replay := by
  rw [authenticatePin_run] at h
  cases h
  exact ⟨w.principal_effective record, rfl, rfl⟩

/-- When a presented signature passes all but the replay guard. -/
theorem verifyKeySignature_ok {state : AppState} {clock : AuthClock} {req : HttpRequest}
    {hook : Option Hook} {timestamp : Option String} {signature : String} {digest : Bytes} :
    verifyKeySignature state clock req hook key timestamp signature = .ok digest ↔
      ∃ text secret, timestamp = some text ∧
        validateTimestamp text state.config.signatureMaxAgeSeconds clock.validatedAt = .ok () ∧
        recoverSigningSecret state key = .ok secret ∧ bufferBody req.body = .ok req.body ∧
        presentedDigest signature signaturePrefix = some digest ∧
        state.platform.prim.hmacSha256 (asBytes secret)
          (signingBase req (templateInForce hook key) text) = some digest := by
  cases timestamp with
  | none => simp [verifyKeySignature, Bind.bind, Except.bind]
  | some text =>
    have hbody : ∀ b, bufferBody req.body = .ok b ↔ b = req.body ∧
        bufferBody req.body = .ok req.body := by
      intro b
      unfold bufferBody
      split <;> simp [eq_comm]
    simp only [verifyKeySignature, Except.bind_eq_ok_iff, Except.mapError_eq_ok_iff,
      verifySignature, verifySignatureWithPrefix_eq_ok_iff, Except.ok.injEq, exists_eq_left',
      Option.some.injEq]
    constructor
    · rintro ⟨⟨⟩, hvalid, secret, hsecret, body, hbuffer, hdigest, hmac⟩
      exact ⟨text, secret, rfl, hvalid, hsecret, ((hbody body).mp hbuffer).2, hdigest, hmac⟩
    · rintro ⟨_, secret, rfl, hvalid, hsecret, hbuffer, hdigest, hmac⟩
      exact ⟨(), hvalid, secret, hsecret, req.body, hbuffer, hdigest, hmac⟩

theorem checkSignature_signed_ok {state : AppState} {clock : AuthClock} {req : HttpRequest}
    {hook : Option Hook} {presentedTimestamp : Option String} {signature : String}
    (hsig : req.headers.getStr signatureHeader = some signature) :
    (checkSignature state clock req hook key presentedTimestamp).run Op.exec w = (.ok (), w') ↔
      ∃ digest, verifyKeySignature state clock req hook key presentedTimestamp signature =
          .ok digest ∧
        w.replay.checkAndRecord key.id digest clock.recordedAt = (true, w'.replay) ∧
        w' = { w with replay := w'.replay } := by
  simp only [checkSignature, hsig, Program.bind_eq, Program.run_bind_eq_ok_iff,
    Program.run_ofExcept, Program.run_ask, Program.run_require, Op.exec]
  constructor
  · rintro ⟨digest, _, hverify, first, _, hcheck, hfirst⟩
    cases hcheck
    simp only [Prod.mk.injEq] at hverify hfirst
    obtain ⟨hdigest, rfl⟩ := hverify
    obtain ⟨hok, rfl⟩ := hfirst
    refine ⟨digest, hdigest, ?_, rfl⟩
    cases hc : w.replay.checkAndRecord key.id digest clock.recordedAt with
    | mk first guard =>
      rw [hc] at hok
      cases first with
      | true => rfl
      | false => simp at hok
  · rintro ⟨digest, hdigest, hcheck, hw⟩
    refine ⟨digest, w, by rw [hdigest], true, w', ?_, by simp⟩
    rw [hcheck]
    exact congrArg _ hw.symm

theorem checkSignature_signed {state : AppState} {clock : AuthClock} {req : HttpRequest}
    {hook : Option Hook} {presentedTimestamp : Option String} {signature : String} {digest : Bytes}
    (hsig : req.headers.getStr signatureHeader = some signature)
    (hverify : verifyKeySignature state clock req hook key presentedTimestamp signature =
      .ok digest)
    (hfirst : (w.replay.checkAndRecord key.id digest clock.recordedAt).1 = true) :
    (checkSignature state clock req hook key presentedTimestamp).run Op.exec w = (.ok (), { w with
      replay := (w.replay.checkAndRecord key.id digest clock.recordedAt).2 }) :=
  (checkSignature_signed_ok hsig).mpr ⟨digest, hverify, Prod.ext hfirst rfl, rfl⟩

theorem checkSignature_unsigned_ok {state : AppState} {clock : AuthClock} {req : HttpRequest}
    {hook : Option Hook} {presentedTimestamp : Option String}
    (hsig : req.headers.getStr signatureHeader = none) :
    (checkSignature state clock req hook key presentedTimestamp).run Op.exec w = (.ok (), w') ↔
      w' = w ∧ signatureRequired state key = false := by
  simp only [checkSignature, hsig, Program.run_require]
  cases signatureRequired state key <;> simp [eq_comm]

theorem run_selectByHash (hash : String) (w : World) :
    (List.head? <$> sql (.selectApiKeys (.keyHashEq hash) .unordered) :
        Handler (Option ApiKey)).run Op.exec w =
      (.ok (w.db.apiKeys.find? fun k => k.keyHash == hash), w) := by
  simp [Program.run_bind, Stmt.exec, Except.mapError, Database.orderApiKeys, List.head?_filter]
  rfl

/-- Every check of an accepted request, in order. -/
theorem authenticateBearerKey_ok {state : AppState} {clock : AuthClock} {presentedKey : String}
    {clientIp : IpAddr} {hook : Option Hook} {req : HttpRequest} :
    (authenticateBearerKey state clock presentedKey clientIp hook req).run Op.exec w =
        (.ok key, w') ↔
      ∃ presentedTimestamp record w₁,
        prevalidateTimestampHeader req.headers state.config.signatureMaxAgeSeconds
            clock.prevalidatedAt = .ok presentedTimestamp ∧
        w.db.apiKeys.find? (fun k => k.keyHash == hashKey state.platform.prim presentedKey) =
            some record ∧
        (authenticatePin record).run Op.exec w = (.ok key, w₁) ∧
        (checkSignature state clock req hook key presentedTimestamp).run Op.exec w₁ =
            (.ok (), w') ∧
        guardNetwork state.platform key clientIp = .ok () := by
  simp only [authenticateBearerKey, Program.bind_eq, Program.run_bind_eq_ok_iff,
    Program.run_ofExcept, run_selectByHash]
  constructor
  · rintro ⟨ts, _, hts, found, _, hfound, record, _, hrecord, key', w₁, hpin, _, w₂, hcheck, _, _,
      hnet, hret⟩
    cases hfound
    simp only [Prod.mk.injEq] at hts hnet
    obtain ⟨hts, rfl⟩ := hts
    obtain ⟨hnet, rfl⟩ := hnet
    cases hret
    cases hrow : w.db.apiKeys.find?
        (fun k => k.keyHash == hashKey state.platform.prim presentedKey) with
    | none => simp [hrow, orElse] at hrecord
    | some row =>
      simp only [hrow, orElse, Program.run_pure, Prod.mk.injEq, Except.ok.injEq] at hrecord
      obtain ⟨rfl, rfl⟩ := hrecord
      exact ⟨ts, row, w₁, hts, rfl, hpin, hcheck, hnet⟩
  · rintro ⟨ts, record, w₁, hts, hrow, hpin, hcheck, hnet⟩
    exact ⟨ts, w, by rw [hts], some record, w, by rw [hrow], record, w, rfl, key, w₁, hpin, (), w',
      hcheck, (), w', by rw [hnet], rfl⟩

/-- What remains of an acceptance once the key is looked up and pinned. -/
theorem authenticateBearerKey_accepts {state : AppState} {clock : AuthClock}
    {presentedKey : String} {clientIp : IpAddr} {hook : Option Hook} {req : HttpRequest} :
    (authenticateBearerKey state clock presentedKey clientIp hook req).run Op.exec w =
        (.ok key, w') ↔
      ∃ timestamp record pinned,
        prevalidateTimestampHeader req.headers state.config.signatureMaxAgeSeconds
            clock.prevalidatedAt = .ok timestamp ∧
        w.db.apiKeys.find? (fun k => k.keyHash == hashKey state.platform.prim presentedKey) =
            some record ∧
        key = w.principal record ∧
        pinned = (if record.isMaster then w.masterIdentity else w.pinned) ∧
        (checkSignature state clock req hook key timestamp).run Op.exec
            { w with pinned := pinned } = (.ok (), w') ∧
        guardNetwork state.platform key clientIp = .ok () := by
  rw [authenticateBearerKey_ok]
  constructor
  · rintro ⟨timestamp, record, w₁, htimestamp, hrecord, hpin, hcheck, hnetwork⟩
    rw [authenticatePin_run] at hpin
    cases hpin
    exact ⟨timestamp, record, _, htimestamp, hrecord, rfl, rfl, hcheck, hnetwork⟩
  · rintro ⟨timestamp, record, _, htimestamp, hrecord, rfl, rfl, hcheck, hnetwork⟩
    exact ⟨timestamp, record, _, htimestamp, hrecord, authenticatePin_run record w, hcheck,
      hnetwork⟩

/-! ### What authentication does to the guard -/

/-- The guard is asked at one instant, and no budget is drawn on. -/
def Op.ChecksAt (now : Instant) : (β : Type) → Op β → Prop
  | _, .checkAndRecord _ _ at_ => at_ = now
  | _, .tryAcquire _ _ => False
  | _, .release _ => False
  | _, _ => True

theorem authenticateBearerKey_checksAt {state : AppState} {clock : AuthClock}
    {presentedKey : String}
    {clientIp : IpAddr} {hook : Option Hook} {req : HttpRequest} :
    (authenticateBearerKey state clock presentedKey clientIp hook req).Emits
      (Op.ChecksAt clock.recordedAt) := by
  have hpin : ∀ key, (authenticatePin key).Emits (Op.ChecksAt clock.recordedAt) := by
    intro key
    have hresolve : resolveMaster.Emits (Op.ChecksAt clock.recordedAt) := by
      refine .bind ((Program.emits_ask _).mpr trivial) fun pinned => ?_
      cases pinned with
      | some id => trivial
      | none =>
        refine .bind (.bind ((Program.emits_ask _).mpr trivial) fun _ => trivial) fun found => ?_
        cases found with
        | error e => trivial
        | ok id =>
          exact .bind ((Program.emits_ask _).mpr trivial) fun _ =>
            (Program.emits_ask _).mpr trivial
    unfold authenticatePin
    exact Program.emits_unless (.bind hresolve fun _ => trivial)
  have hcheck : ∀ key found, (checkSignature state clock req hook key found).Emits
      (Op.ChecksAt clock.recordedAt) := by
    intro key found
    unfold checkSignature
    cases req.headers.getStr signatureHeader with
    | none => exact Program.emits_require _ _
    | some signature =>
      exact .bind (Program.emits_ofExcept _) fun _ =>
        .bind ((Program.emits_ask _).mpr rfl) fun _ => Program.emits_require _ _
  refine .bind (Program.emits_ofExcept _) fun _ => .bind (.map _ ⟨trivial, fun _ =>
    Program.emits_ofExcept _⟩) fun found => .bind ?_ fun record => .bind (hpin _) fun key =>
      .bind (hcheck _ _) fun _ => .bind (Program.emits_ofExcept _) fun _ => trivial
  cases found <;> trivial

/-- What any check of the guard at its instant keeps, an authentication keeps. -/
theorem authenticateBearerKey_replay {state : AppState} {clock : AuthClock}
    {presentedKey : String} {clientIp : IpAddr} {hook : Option Hook} {req : HttpRequest}
    {J : ReplayGuard → Prop}
    (hcheck : ∀ g (id : SignatureId), J g →
      J (g.checkAndRecord id.keyId id.digest clock.recordedAt).2)
    (h : J w.replay) :
    J ((authenticateBearerKey state clock presentedKey clientIp hook req).run
      Op.exec w).2.replay := by
  refine (authenticateBearerKey_checksAt.mono ?_).run_inv (J := fun w : World => J w.replay) h
  intro β q hq w hw
  cases q with
  | checkAndRecord keyId digest at_ =>
    obtain rfl := hq
    exact hcheck w.replay ⟨keyId, digest⟩ hw
  | tryAcquire keyId permits => exact hq.elim
  | release permit => exact hq.elim
  | _ => exact hw

end HookExecutor
