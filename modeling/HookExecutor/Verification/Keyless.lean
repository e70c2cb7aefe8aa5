import HookExecutor.Verification.Reachability
import HookExecutor.Verification.Sample

/-!
# Callers without a key

A caller without a key is let through on the terms of the hook that the raw
segment of its path names; the handler runs the hook that the decoded segment
names. The two are the same hook unless the segment, as it stands, is itself the
name of a hook.
-/

namespace HookExecutor

open Text Crypto

/-- A hook takes a request from a caller without a key: it is open, and nothing
about the request is signed or has to be; or the request carries its signature
of the body under its own secret. -/
def AdmitsKeyless (state : AppState) (hook : Hook) (req : HttpRequest) : Prop :=
  hook.authMode = .noAuth ∧ state.config.requireSignedRequests = false ∧
      signatureMaterialPresent req.headers hook = false ∨
    hook.authMode = .hmacOnly ∧ ∃ provided secret digest,
      req.headers.getStr (hook.signatureHeader.getD hmacOnlyDefaultHeader) = some provided ∧
      recoverHookSecret state hook = .ok secret ∧
      presentedDigest provided (hook.signaturePrefix.getD signaturePrefix) = some digest ∧
      state.platform.prim.hmacSha256 (asBytes secret) req.body = some digest

/-- The handler of an invocation goes on with this hook. -/
def Invocation.Reaches (inv : Invocation) (key : Option ApiKey) (w : World) (hook : Hook) : Prop :=
  ∃ identifier w', decodeIdentifier inv.segment = .ok identifier ∧
    (authorizeInvocation key identifier).run Op.exec w = (.ok hook, w')

section Keyless

variable {state : AppState} {clock : AuthClock} {clientIp : IpAddr} {hook : Hook}
  {req : HttpRequest} {inv : Invocation} {w w' : World}

theorem verifyHookSignature_ok :
    verifyHookSignature state hook req = .ok () ↔
      bufferBody req.body = .ok req.body ∧ ∃ provided secret digest,
        req.headers.getStr (hook.signatureHeader.getD hmacOnlyDefaultHeader) = some provided ∧
        recoverHookSecret state hook = .ok secret ∧
        presentedDigest provided (hook.signaturePrefix.getD signaturePrefix) = some digest ∧
        state.platform.prim.hmacSha256 (asBytes secret) req.body = some digest := by
  have hbody : ∀ b, bufferBody req.body = .ok b → b = req.body := by
    intro b hb
    unfold bufferBody at hb
    split at hb
    · cases hb
    · exact (Except.ok.inj hb).symm
  cases hprovided : req.headers.getStr (hook.signatureHeader.getD hmacOnlyDefaultHeader) with
  | none => simp [verifyHookSignature, hprovided, Bind.bind, Except.bind]
  | some provided =>
    simp only [verifyHookSignature, hprovided, Except.bind_eq_ok_iff,
      Except.mapError_eq_ok_iff,
      verifySignatureWithPrefix_eq_ok_iff, Except.ok.injEq, Option.some.injEq]
    constructor
    · rintro ⟨_, ⟨⟩, secret, hsecret, body, hbuffer, digest, ⟨hdigest, hmac⟩, -⟩
      obtain rfl := hbody body hbuffer
      exact ⟨hbuffer, provided, secret, digest, rfl, hsecret, hdigest, hmac⟩
    · rintro ⟨hbuffer, _, secret, digest, rfl, hsecret, hdigest, hmac⟩
      exact ⟨provided, rfl, secret, hsecret, req.body, hbuffer, digest, ⟨hdigest, hmac⟩, rfl⟩

theorem admitsKeyless_of_guardKeyless (h : guardKeyless state hook req = .ok ()) :
    AdmitsKeyless state hook req := by
  unfold guardKeyless at h
  cases hmode : hook.authMode with
  | canonicalV1 => simp [hmode] at h
  | apiKeyOnly => simp [hmode] at h
  | noAuth =>
    simp only [hmode] at h
    split at h
    · cases h
    · next hopen =>
      simp only [Bool.or_eq_true, not_or, Bool.not_eq_true] at hopen
      exact .inl ⟨hmode, hopen.2, hopen.1⟩
  | hmacOnly =>
    simp only [hmode] at h
    exact .inr ⟨hmode, (verifyHookSignature_ok.mp h).2⟩

/-- The middleware reads back the segment the router matched. -/
theorem hookIdentifierFromPath_innerPath (route : InvocationRoute) {segment : String}
    (h : IsSegment segment) : hookIdentifierFromPath (route.innerPath segment) = some segment := by
  obtain ⟨hne, hslash⟩ := h
  have hcompound : ∀ tail action : String, tail.toList = '/' :: action.toList →
      '/' ∉ action.toList →
        split '/' (String.ofList (("/hooks/" ++ segment ++ tail).toList.dropWhile (· == '/'))) =
          ["hooks", segment, action] := by
    intro tail action htail haction
    have hhooks : '/' ∉ "hooks".toList := by decide
    have hlist : ("/hooks/" ++ segment ++ tail).toList.dropWhile (· == '/') =
        "hooks".toList ++ '/' :: (segment.toList ++ '/' :: action.toList) := by
      simp [htail]
    unfold split
    rw [String.toList_ofList, hlist, splitChars_append hhooks, splitChars_append hslash,
      splitChars_of_notMem haction]
    simp only [List.map_cons, String.ofList_toList, List.map_nil]
  unfold hookIdentifierFromPath
  cases route with
  | execute =>
    simp only [InvocationRoute.innerPath, hcompound "/execute" "execute" (by decide) (by decide)]
  | test => simp only [InvocationRoute.innerPath, hcompound "/test" "test" (by decide) (by decide)]
  | webhook =>
    have hlist : ("/" ++ segment).toList.dropWhile (· == '/') = segment.toList := by
      cases hchars : segment.toList with
      | nil => simp [hchars]
      | cons c cs =>
        have hc : c ≠ '/' := fun hc => hslash (by simp [hchars, hc])
        simp [hchars, hc]
    simp only [InvocationRoute.innerPath, hlist, split, splitChars_of_notMem hslash,
      List.map_cons, List.map_nil, String.ofList_toList, if_neg hne]

/-- Exactly whom the invocation routes let through without a key. -/
theorem invocationAuthMiddleware_keyless :
    (invocationAuthMiddleware state clock clientIp inv.toHttp).run Op.exec w = (.ok none, w') ↔
      w' = w ∧ inv.headers.getStr apiKeyHeader = none ∧ ∃ target,
        w.db.resolveLive inv.segment = some target ∧
        guardKeyless state target inv.toHttp = .ok () := by
  have hidentifier : hookIdentifierFromPath inv.toHttp.path = some inv.segment :=
    hookIdentifierFromPath_innerPath inv.route inv.isSegment
  have hheaders : inv.toHttp.headers = inv.headers := rfl
  simp only [invocationAuthMiddleware, hidentifier, hheaders]
  cases inv.headers.getStr apiKeyHeader with
  | some presentedKey =>
    simp only [Program.bind_eq, Program.pure_eq, Program.run_bind_eq_ok_iff, Program.run_pure,
      reduceCtorEq, false_and, and_false, iff_false]
    rintro ⟨_, _, _, _, _, _, hret⟩
    simp at hret
  | none =>
    simp only [Program.bind_eq, Program.pure_eq, Program.run_bind_eq_ok_iff, run_orElse,
      mapFailure_ok, run_resolveHook_ok, Program.run_ofExcept, Program.run_pure, true_and]
    constructor
    · rintro ⟨identifier, _, hsegment, target, _, ⟨rfl, htarget⟩, _, _, hguard, hret⟩
      obtain ⟨hsegment, rfl⟩ := Prod.mk.inj hsegment
      obtain ⟨hadmits, rfl⟩ := Prod.mk.inj hguard
      cases hsegment
      exact ⟨(Prod.mk.inj hret).2.symm, target, htarget, hadmits⟩
    · rintro ⟨rfl, target, htarget, hguard⟩
      exact ⟨inv.segment, w', rfl, target, w', ⟨rfl, htarget⟩, (), w', by rw [hguard], rfl⟩

/-- A key may run a hook: it is the master, or its row says so. -/
def Database.MayExecute (db : Database) (key : ApiKey) (hookId : Uuid) : Prop :=
  key.isMaster = true ∨ ∃ row, db.permissionOf key.id hookId = some row ∧ row.canExecute = true

/-- The handler goes on with the live hook the decoded segment names, if the
caller's key, where there is one, may run it. -/
theorem reaches_iff {caller : Option ApiKey} :
    inv.Reaches caller w hook ↔
      ∃ identifier, percentDecode inv.segment = some identifier ∧
        w.db.resolveLive identifier = some hook ∧
        ∀ key, caller = some key → w.db.MayExecute key hook.id := by
  unfold Invocation.Reaches decodeIdentifier
  cases percentDecode inv.segment with
  | none => simp
  | some identifier =>
    simp only [authorizeInvocation, Program.bind_eq, Program.pure_eq, Program.run_bind_eq_ok_iff,
      run_resolveHook_ok, Program.run_pure]
    cases caller with
    | none =>
      constructor
      · rintro ⟨_, w', hidentifier, _, _, ⟨rfl, hhook⟩, _, _, _, hret⟩
        cases hidentifier
        cases hret
        exact ⟨identifier, rfl, hhook, by simp⟩
      · rintro ⟨_, hidentifier, hhook, -⟩
        cases hidentifier
        exact ⟨identifier, w, rfl, hook, w, ⟨rfl, hhook⟩, (), w, rfl, rfl⟩
    | some key =>
      constructor
      · rintro ⟨_, w', hidentifier, _, _, ⟨rfl, hhook⟩, _, _, hmay, hret⟩
        cases hidentifier
        cases hret
        refine ⟨identifier, rfl, hhook, ?_⟩
        rintro _ ⟨⟩
        exact (guardExecute_ok.mp hmay).2
      · rintro ⟨_, hidentifier, hhook, hmay⟩
        cases hidentifier
        exact ⟨identifier, w, rfl, hook, w, ⟨rfl, hhook⟩, (), w,
          guardExecute_ok.mpr ⟨rfl, hmay key rfl⟩, rfl⟩

theorem reaches_keyless :
    inv.Reaches none w hook ↔
      ∃ identifier, percentDecode inv.segment = some identifier ∧
        w.db.resolveLive identifier = some hook := by
  simp [reaches_iff]

/-- A request without a key whose segment, as it stands, names a live hook that
takes it and, decoded, names another live hook that does not. -/
def Invocation.Misdirected (state : AppState) (w : World) (inv : Invocation) : Prop :=
  inv.headers.getStr apiKeyHeader = none ∧ ∃ named identifier reached,
    w.db.resolveLive inv.segment = some named ∧
    guardKeyless state named inv.toHttp = .ok () ∧
    percentDecode inv.segment = some identifier ∧
    w.db.resolveLive identifier = some reached ∧
    reached ≠ named ∧ ¬AdmitsKeyless state reached inv.toHttp

/-- A segment without an escape misdirects nobody. -/
theorem not_misdirected_of_notMem (h : '%' ∉ inv.segment.toList) :
    ¬inv.Misdirected state w := by
  rintro ⟨-, named, identifier, reached, hnamed, -, hdecoded, hreached, hne, -⟩
  obtain rfl : inv.segment = identifier := by
    simpa [percentDecode_of_notMem h] using hdecoded
  exact hne (Option.some.inj (hreached.symm.trans hnamed))

/-- Whoever is let through without a key reaches a hook that takes the request
without one if and only if the request is not misdirected. -/
theorem keyless_iff :
    (∀ w' hook, (invocationAuthMiddleware state clock clientIp inv.toHttp).run Op.exec w =
        (.ok none, w') → inv.Reaches none w' hook → AdmitsKeyless state hook inv.toHttp) ↔
      ¬inv.Misdirected state w := by
  constructor
  · rintro hsafe ⟨hheader, named, identifier, reached, hnamed, hguard, hdecoded, hreached, -,
      hrefuses⟩
    exact hrefuses (hsafe w reached
      (invocationAuthMiddleware_keyless.mpr ⟨rfl, hheader, named, hnamed, hguard⟩)
      (reaches_keyless.mpr ⟨identifier, hdecoded, hreached⟩))
  · intro hdirect w' hook hrun hreach
    obtain ⟨rfl, hheader, named, hnamed, hguard⟩ := invocationAuthMiddleware_keyless.mp hrun
    obtain ⟨identifier, hdecoded, hreached⟩ := reaches_keyless.mp hreach
    by_contra hrefuses
    refine hdirect ⟨hheader, named, identifier, hook, hnamed, hguard, hdecoded, hreached, ?_,
      hrefuses⟩
    rintro rfl
    exact hrefuses (admitsKeyless_of_guardKeyless hguard)

end Keyless

section Decoy

open Sample

/-- An open hook under a name that decodes to the name of the next one. -/
def decoyHook : Hook := { deployHook with id := 101, name := "a%62", authMode := .noAuth }

/-- A hook nobody runs without a key. -/
def guardedHook : Hook := { deployHook with id := 201, name := "ab", authMode := .apiKeyOnly }

def createdAudit (id : Uuid) (hook : Hook) : AuditLog :=
  auditRowOf id Sample.masterRow "HOOK_CREATE" hook.name
    s!"Created hook '{hook.name}' (00000000...) -> /opt/deploy.sh (runs as the daemon user)"

def withDecoy : World :=
  worldOf { Database.empty with
    apiKeys := [Sample.masterRow]
    hooks := [decoyHook]
    permissions := [fullPermission (ctx 1) 1 1 101]
    auditLogs := [createdAudit 103 decoyHook] } []

def withBoth : World :=
  worldOf { Database.empty with
    apiKeys := [Sample.masterRow]
    hooks := [decoyHook, guardedHook]
    permissions := [fullPermission (ctx 1) 1 1 101, fullPermission (ctx 2) 1 1 201]
    auditLogs := [createdAudit 103 decoyHook, createdAudit 203 guardedHook] } []

private theorem reachable_withBoth : Reachable state withBoth := by
  have hdecoy : Reachable state withDecoy := by
    refine reachable_serveAt reachable_booted 1 (.admin (bearer "/hooks" masterKey)
      (.createHook { name := "a%62", scriptPath := "/opt/deploy.sh", authMode := some .noAuth })) ?_
    decide +kernel
  refine reachable_serveAt hdecoy 2 (.admin (bearer "/hooks" masterKey)
    (.createHook { name := "ab", scriptPath := "/opt/deploy.sh", authMode := some .apiKeyOnly })) ?_
  decide +kernel

/-- The open hook is named, and the other one runs. -/
def decoyInvocation : Invocation :=
  { route := .execute
    segment := "a%62"
    isSegment := by decide
    method := "POST"
    target := "/api/hooks/a%62/execute"
    headers := ⟨[]⟩
    body := [] }

/-- A caller without a key can reach a hook that takes no such caller. -/
theorem keyless_misdirected :
    ¬∀ {state : AppState} {clock : AuthClock} {clientIp : IpAddr} {inv : Invocation}
        {w w' : World} {hook : Hook}, Reachable state w →
      (invocationAuthMiddleware state clock clientIp inv.toHttp).run Op.exec w = (.ok none, w') →
      inv.Reaches none w' hook → AdmitsKeyless state hook inv.toHttp := by
  intro hclaim
  have hthrough : (invocationAuthMiddleware state clock (.v4 0x7F000001)
      decoyInvocation.toHttp).run Op.exec withBoth = (.ok none, withBoth) :=
    invocationAuthMiddleware_keyless.mpr
      ⟨rfl, by decide, decoyHook, by decide, by decide⟩
  have hreached : decoyInvocation.Reaches none withBoth guardedHook :=
    reaches_keyless.mpr ⟨"ab", by decide, by decide⟩
  rcases hclaim reachable_withBoth hthrough hreached with ⟨hmode, -⟩ | ⟨hmode, -⟩
  · cases hmode
  · cases hmode

end Decoy

end HookExecutor
