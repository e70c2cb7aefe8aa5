import HookExecutor.Verification.HeaderText
import HookExecutor.Verification.Keyless
import HookExecutor.Verification.StoredSecrets

/-!
# Hooks that sign for themselves

A hook in `HMAC_ONLY` mode takes a request without a key on the strength of one
header: a prefix and the MAC of the body in hexadecimal. What verifies is that
text up to case and whitespace. That very text verifies if the prefix survives
being read from a header and trimmed, which the checks on it do not ask for.
-/

namespace HookExecutor

open Text Crypto

/-! ### Accepted configurations -/

/-- A hook as its creation and later edits left it, with the secret the last of
them to name one was given. A nonce is drawn at its fixed length. -/
inductive Configured (state : AppState) : Hook → Option String → Prop
  | created {ctx : Context} {key : ApiKey} {payload : CreateHookPayload} {checked : CheckedHook}
      (served : ctx.state = state) (nonce : (ctx.draws.randomBytes 0).length = nonceLen)
      (accepted : validateCreateHook ctx key payload = .ok checked) :
      Configured state (newHook ctx key payload checked) (nonEmpty payload.hmacSecret)
  | edited {ctx : Context} {payload : UpdateHookPayload} {model : Hook}
      {secret stored : Option String}
      (before : Configured state model secret) (served : ctx.state = state)
      (nonce : (ctx.draws.randomBytes 0).length = nonceLen)
      (accepted : validateAndSealHmacSecret ctx 0 (payload.authMode.getD model.authMode)
        payload.hmacSecret model.hmacSecret = .ok stored)
      (runAsUser : Option (Option String)) (now : DateTime) :
      Configured state ((hookChanges payload runAsUser stored now).apply model)
        (effectiveText payload.hmacSecret secret)
  | untouched {model : Hook} {secret : Option String} (before : Configured state model secret)
      (u : HookUpdate) (leaves : u.hmacSecret = none) : Configured state (u.apply model) secret

/-- A stored text the daemon sealed. -/
def AppState.Sealed (state : AppState) (stored secret : String) : Prop :=
  ∃ nonce : Bytes, nonce.length = nonceLen ∧
    state.cipher.sealText state.platform.prim nonce secret = .ok stored

section Sealing

variable {state : AppState} {stored secret : String}

/-- What was sealed is recovered. -/
theorem AppState.Sealed.recovered (hlossless : state.platform.prim.Lossless)
    (h : state.Sealed stored secret) :
    state.cipher.openText state.platform.prim stored = .ok secret := by
  obtain ⟨nonce, hnonce, hseal⟩ := h
  exact openText_sealText hlossless hnonce hseal (.inr rfl)

/-- A secret that is named is sealed, and one that is not is left as it is. -/
theorem validateAndSealHmacSecret_stored {ctx : Context} {mode : AuthMode}
    {named existing result : Option String} (nonce : (ctx.draws.randomBytes 0).length = nonceLen)
    (h : validateAndSealHmacSecret ctx 0 mode named existing = .ok result) :
    (∀ text, nonEmpty named = some text → ∃ s, result = some s ∧ ctx.state.Sealed s text) ∧
      (named = none → result = existing) := by
  cases named with
  | none =>
    refine ⟨fun text htext => (by cases htext), fun _ => ?_⟩
    simp only [validateAndSealHmacSecret] at h
    split at h
    · cases h
    · exact (Except.ok.inj h).symm
  | some raw =>
    refine ⟨fun text htext => ?_, fun hnone => (by cases hnone)⟩
    obtain ⟨hraw, hne⟩ := Option.filter_eq_some_iff.mp htext
    obtain rfl := Option.some.inj hraw
    have hnonempty : raw ≠ "" := by simpa using hne
    simp only [validateAndSealHmacSecret] at h
    cases hseal : ctx.state.cipher.sealText ctx.prim (ctx.draws.randomBytes 0) raw with
    | error e =>
      simp only [sealSecret, hseal, Except.mapError, Except.map] at h
      cases h
    | ok s =>
      simp only [sealSecret, hseal, Except.mapError, Except.map] at h
      exact ⟨s, (Except.ok.inj h).symm, _, nonce, hseal⟩

/-- A hook that was given a secret stores it sealed. -/
theorem Configured.sealed {hook : Hook} {given : Option String} (h : Configured state hook given) :
    ∀ text, given = some text → ∃ s, hook.hmacSecret = some s ∧ state.Sealed s text := by
  induction h with
  | created served nonce accepted =>
    subst served
    simp only [validateCreateHook, Except.bind_eq_ok_iff] at accepted
    obtain ⟨_, -, _, -, _, -, _, -, _, -, _, -, stored, hstored, _, -, _, -, hchecked⟩ := accepted
    cases hchecked
    exact (validateAndSealHmacSecret_stored nonce hstored).1
  | @edited ctx payload model given stored _ served nonce accepted runAsUser now ih =>
    subst served
    intro text htext
    obtain ⟨hnamed, hunnamed⟩ := validateAndSealHmacSecret_stored nonce accepted
    change ∃ s, stored = some s ∧ _
    cases hpayload : payload.hmacSecret with
    | none =>
      rw [hpayload] at htext
      rw [hunnamed hpayload]
      exact ih text htext
    | some raw =>
      rw [hpayload] at htext
      exact hnamed text (by rw [hpayload]; exact htext)
  | @untouched model given _ u leaves ih =>
    intro text htext
    have hkept : (u.apply model).hmacSecret = model.hmacSecret := by
      simp only [HookUpdate.apply, leaves, Option.getD_none]
    rw [hkept]
    exact ih text htext

theorem Configured.recovers {hook : Hook} {text : String} (h : Configured state hook (some text))
    (hlossless : state.platform.prim.Lossless) : recoverHookSecret state hook = .ok text := by
  obtain ⟨stored, hstored, hsealed⟩ := h.sealed text rfl
  simp only [recoverHookSecret, hstored, openSecret, hsealed.recovered hlossless, Except.mapError]

end Sealing

/-! ### What a header value spells -/

/-- A prefix and a MAC in hexadecimal, up to case, with whitespace around the
value or around the digits. -/
def Spells (prefix_ : String) (mac : Bytes) (value : String) : Prop :=
  ∃ before between digits after,
    value.toList = before ++ prefix_.toList ++ between ++ digits ++ after ∧
    digits.map Char.toLower = hexEncodeChars mac ∧
    ∀ c ∈ before ++ between ++ after, isWhitespace c = true

/-- A prefix that a header can be read with and that trimming does not reach. -/
def PlainPrefix (prefix_ : String) : Prop :=
  (∀ c ∈ prefix_.toList, isVisible c = true) ∧
    ∀ c, prefix_.toList.head? = some c → isWhitespace c = false

section Spelling

variable {prefix_ value : String} {mac digest : Bytes}

/-- What presents a digest spells it. -/
theorem spells_of_presentedDigest (h : presentedDigest value prefix_ = some digest) :
    Spells prefix_ digest value := by
  simp only [presentedDigest, Option.bind_eq_some_iff] at h
  obtain ⟨rest, hrest, hdigits⟩ := h
  have htrimmed := congrArg String.toList (stripPrefix_eq_some_iff.mp hrest)
  rw [trim, String.toList_ofList, String.toList_append] at htrimmed
  obtain ⟨before, after, hvalue, hbefore, hafter⟩ := exists_trimChars value.toList
  obtain ⟨between, trailing, hrestChars, hbetween, htrailing⟩ := exists_trimChars rest.toList
  rw [hexDecode, trim, String.toList_ofList] at hdigits
  refine ⟨before, between, trimChars rest.toList, trailing ++ after, ?_,
    map_toLower_of_hexDecodeChars hdigits, ?_⟩
  · generalize trimChars rest.toList = digits at hrestChars
    rw [hvalue, htrimmed, hrestChars]
    simp only [List.append_assoc]
  · intro c hc
    simp only [List.mem_append] at hc
    obtain (hc | hc) | hc | hc := hc
    · exact hbefore c hc
    · exact hbetween c hc
    · exact htrailing c hc
    · exact hafter c hc

theorem hexEncode_visible {c : Char} (h : c ∈ hexEncodeChars mac) :
    isVisible c = true ∧ isWhitespace c = false := by
  obtain ⟨n, hn, rfl⟩ := of_mem_hexEncodeChars h
  have hall : ∀ n : Fin 16, isVisible (hexDigit n) = true ∧ isWhitespace (hexDigit n) = false := by
    decide
  exact hall ⟨n, hn⟩

/-- A prefix that does not start with whitespace is found again. -/
theorem presentedDigest_of_plain (hmac : mac ≠ [])
    (h : ∀ c, prefix_.toList.head? = some c → isWhitespace c = false) :
    presentedDigest (prefix_ ++ hexEncode mac) prefix_ = some mac := by
  have hhex : (hexEncode mac).toList = hexEncodeChars mac := String.toList_ofList
  have hne := hexEncodeChars_ne_nil hmac
  have hlast : ∀ c, (hexEncodeChars mac).getLast? = some c → isWhitespace c = false :=
    fun c hc => (hexEncode_visible (List.mem_of_getLast? hc)).2
  have hfirst : ∀ c, (hexEncodeChars mac).head? = some c → isWhitespace c = false :=
    fun c hc => (hexEncode_visible (List.mem_of_head? hc)).2
  have hwhole : trim (prefix_ ++ hexEncode mac) = prefix_ ++ hexEncode mac := by
    apply String.toList_inj.mp
    rw [trim, String.toList_ofList, String.toList_append, hhex]
    refine trimChars_of_ends ?_ ?_
    · intro c hc
      cases hp : prefix_.toList with
      | nil =>
        rw [hp] at hc
        exact hfirst c hc
      | cons p rest =>
        rw [hp] at hc
        exact h c (by rw [hp]; exact hc)
    · intro c hc
      rw [List.getLast?_append_of_ne_nil _ hne] at hc
      exact hlast c hc
  have hdigits : trim (hexEncode mac) = hexEncode mac := by
    apply String.toList_inj.mp
    rw [trim, String.toList_ofList, hhex]
    exact trimChars_of_ends hfirst hlast
  simp only [presentedDigest, hwhole, stripPrefix_eq_some_iff.mpr rfl, Option.bind_some, hdigits,
    hexDecode_hexEncode]

/-- A prefix that starts with whitespace is never found, whatever the value. -/
theorem presentedDigest_of_whitespace {c : Char} (hhead : prefix_.toList.head? = some c)
    (hc : isWhitespace c = true) (value : String) : presentedDigest value prefix_ = none := by
  have hstrip : stripPrefix prefix_ (trim value) = none := by
    rw [Option.eq_none_iff_forall_ne_some]
    intro rest hrest
    have htrimmed := congrArg String.toList (stripPrefix_eq_some_iff.mp hrest)
    rw [trim, String.toList_ofList, String.toList_append] at htrimmed
    have hfirst : (trimChars value.toList).head? = some c := by
      rw [htrimmed, List.head?_append, hhead]
      rfl
    rw [trimChars_head hfirst] at hc
    cases hc
  rw [presentedDigest, hstrip]
  rfl

end Spelling

/-! ### Admission -/

section Admission

variable {state : AppState} {clock : AuthClock} {clientIp : IpAddr} {hook : Hook} {inv : Invocation}
  {w : World} {secret : String} {mac : Bytes}

/-- The header a hook reads its signature from. -/
def Hook.headerInForce (hook : Hook) : String := hook.signatureHeader.getD hmacOnlyDefaultHeader

/-- The prefix its signatures carry. -/
def Hook.prefixInForce (hook : Hook) : String := hook.signaturePrefix.getD Crypto.signaturePrefix

/-- The configured header holds the configured prefix and then the MAC. -/
def Invocation.Carries (inv : Invocation) (hook : Hook) (mac : Bytes) : Prop :=
  inv.headers.get hook.headerInForce = some (asBytes (hook.prefixInForce ++ hexEncode mac))

/-- The middleware lets the request through without a key. -/
def Invocation.Admitted (inv : Invocation) (state : AppState) (clock : AuthClock)
    (clientIp : IpAddr) (w : World) : Prop :=
  ∃ w', (invocationAuthMiddleware state clock clientIp inv.toHttp).run Op.exec w = (.ok none, w')

/-- What is asked of a request without a key to a live hook in this mode. -/
structure Invocation.Keyless (inv : Invocation) (w : World) (hook : Hook) : Prop where
  resolves : w.db.resolveLive inv.segment = some hook
  mode : hook.authMode = .hmacOnly
  keyless : inv.headers.getStr apiKeyHeader = none
  short : inv.body.length ≤ maxRequestBodyBytes

/-- A request is let through on what its header presents. -/
theorem admitted_iff (hrequest : inv.Keyless w hook)
    (hsecret : recoverHookSecret state hook = .ok secret)
    (hmac : state.platform.prim.hmacSha256 (asBytes secret) inv.body = some mac) :
    inv.Admitted state clock clientIp w ↔ ∃ value,
      inv.headers.getStr hook.headerInForce = some value ∧
        presentedDigest value hook.prefixInForce = some mac := by
  have hbuffer : bufferBody inv.toHttp.body = .ok inv.toHttp.body := by
    unfold bufferBody
    exact if_neg (Nat.not_lt.mpr hrequest.short)
  have hguard : guardKeyless state hook inv.toHttp = verifyHookSignature state hook inv.toHttp := by
    simp only [guardKeyless, hrequest.mode]
  constructor
  · rintro ⟨w', hrun⟩
    obtain ⟨-, -, target, htarget, hok⟩ := invocationAuthMiddleware_keyless.mp hrun
    obtain rfl := Option.some.inj (hrequest.resolves.symm.trans htarget)
    rw [hguard] at hok
    obtain ⟨-, value, secret', digest, hvalue, hsecret', hdigest, hmac'⟩ :=
      verifyHookSignature_ok.mp hok
    obtain rfl := Except.ok.inj (hsecret.symm.trans hsecret')
    obtain rfl := Option.some.inj (hmac.symm.trans hmac')
    exact ⟨value, hvalue, hdigest⟩
  · rintro ⟨value, hvalue, hdigest⟩
    refine ⟨w, invocationAuthMiddleware_keyless.mpr ⟨rfl, hrequest.keyless, hook,
      hrequest.resolves, ?_⟩⟩
    rw [hguard]
    exact verifyHookSignature_ok.mpr ⟨hbuffer, value, secret, mac, hvalue, hsecret, hdigest, hmac⟩

/-- A request that carries the text is let through if and only if the prefix is
plain. -/
theorem admitted_iff_of_carries (hrequest : inv.Keyless w hook)
    (hsecret : recoverHookSecret state hook = .ok secret)
    (hmac : state.platform.prim.hmacSha256 (asBytes secret) inv.body = some mac) (hne : mac ≠ [])
    (hcarries : inv.Carries hook mac) :
    inv.Admitted state clock clientIp w ↔ PlainPrefix hook.prefixInForce := by
  have hread : inv.headers.getStr hook.headerInForce =
      HeaderMap.toStr (asBytes (hook.prefixInForce ++ hexEncode mac)) := by
    rw [HeaderMap.getStr, hcarries]
    rfl
  have hhex : (hexEncode mac).toList = hexEncodeChars mac := String.toList_ofList
  rw [admitted_iff hrequest hsecret hmac, hread]
  constructor
  · rintro ⟨value, hvalue, hdigest⟩
    have hvisible := isVisible_of_toStr hvalue
    refine ⟨fun c hc => hvisible c ?_, fun c hc => ?_⟩
    · rw [String.toList_append]
      exact List.mem_append_left _ hc
    · by_contra hspace
      rw [presentedDigest_of_whitespace hc (by simpa using hspace) value] at hdigest
      cases hdigest
  · rintro ⟨hvisible, hfirst⟩
    refine ⟨_, toStr_asBytes ?_, presentedDigest_of_plain hne hfirst⟩
    intro c hc
    rw [String.toList_append, hhex] at hc
    obtain hc | hc := List.mem_append.mp hc
    · exact hvisible c hc
    · exact (hexEncode_visible hc).1

end Admission

section Sample

open Sample

/-- A creation that draws a nonce of the length the cipher takes. -/
def sealingCtx : Context := ⟨state, .v4 0x7F000001,
  { draws 4 with randomBytes := fun _ => List.replicate nonceLen 7 }, os⟩

/-- A hook that signs for itself, under a prefix of its own if it has one. -/
def senderPayload (ownPrefix : Option String) : CreateHookPayload :=
  { name := "sender"
    scriptPath := "/opt/deploy.sh"
    authMode := some .hmacOnly
    hmacSecret := some parentSecret
    signaturePrefix := ownPrefix }

def senderHook (ownPrefix : Option String) : Hook :=
  { deployHook with
    id := 401
    name := "sender"
    authMode := .hmacOnly
    hmacSecret := some (plaintextPrefix ++ hexEncode (asBytes parentSecret))
    signaturePrefix := ownPrefix }

/-- The creation accepts the hook as it is. -/
def SenderAccepted (ownPrefix : Option String) : Prop :=
  (validateCreateHook sealingCtx Sample.masterRow (senderPayload ownPrefix)).toOption.map
    (newHook sealingCtx Sample.masterRow (senderPayload ownPrefix)) = some (senderHook ownPrefix)

theorem SenderAccepted.configured {ownPrefix : Option String} (h : SenderAccepted ownPrefix) :
    Configured state (senderHook ownPrefix) (some parentSecret) := by
  obtain ⟨checked, hchecked, hrow⟩ := Option.map_eq_some_iff.mp h
  have haccepted : validateCreateHook sealingCtx Sample.masterRow (senderPayload ownPrefix) =
      .ok checked := by
    cases hresult : validateCreateHook sealingCtx Sample.masterRow (senderPayload ownPrefix) with
    | error e =>
      rw [hresult] at hchecked
      cases hchecked
    | ok c =>
      rw [hresult] at hchecked
      rw [Option.some.inj hchecked]
  have hcreated := Configured.created (show sealingCtx.state = state from rfl)
    (List.length_replicate ..) haccepted
  rw [hrow] at hcreated
  exact hcreated

/-- The MAC of the body under the secret of the hook. -/
def senderMac : Bytes := (hexDecode pingSignature).getD []

/-- A request to the hook, signed in one header. -/
def sent (value : String) : Invocation :=
  { route := .execute
    segment := "sender"
    isSegment := by decide
    method := "POST"
    target := "/api/hooks/sender/execute"
    headers := ⟨[("x-signature-256", asBytes value)]⟩
    body := asBytes "1700000000.ping" }

def senderWorld (ownPrefix : Option String) : World :=
  worldOf { Database.empty with hooks := [senderHook ownPrefix] } []

end Sample

end HookExecutor
