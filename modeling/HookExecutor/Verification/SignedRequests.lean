import HookExecutor.Verification.Authentication
import HookExecutor.Verification.ReplayMemory
import HookExecutor.Verification.Sample
import Mathlib.Algebra.Order.Group.Unbundled.Int
import Mathlib.Tactic.Linarith

/-!
# What an accepted request has proven

A request accepted under a key presented that key from where the key may be
used, and whatever signature it presented, or had to, verified over the request
itself, was in time and was new. Two kinds of requests are accepted without:
those whose signature header is not text, which pass for unsigned, and those
whose timestamp is so far back that its distance to the clock wraps around.
-/

namespace HookExecutor

open Text Crypto

/-! ### The window -/

/-- A timestamp no further from the clock than the window allows. -/
def WithinWindow (now : DateTime) (maxAge : Int) (timestamp : String) : Prop :=
  ∃ presented, parseI64 (trim timestamp) = some presented ∧
    |unixSeconds now - presented| ≤ maxAge

/-- A timestamp outside the window whose distance, as the machine computes it,
is inside. -/
def WrapsIntoWindow (now : DateTime) (maxAge : Int) (timestamp : String) : Prop :=
  ∃ presented, parseI64 (trim timestamp) = some presented ∧
    maxAge < |unixSeconds now - presented| ∧ skew now presented ≤ maxAge

theorem wrapI64_of_inI64 {n : Int} (h : InI64 n) : wrapI64 n = n := by
  unfold InI64 at h
  unfold wrapI64
  rw [Int.bmod_eq_of_le] <;> omega

theorem wrapI64_inI64 (n : Int) : InI64 (wrapI64 n) := by
  have hlow := Int.le_bmod (x := n) (m := 2 ^ 64) (by decide)
  have hhigh := Int.bmod_lt (x := n) (m := 2 ^ 64) (by decide)
  unfold InI64 wrapI64
  omega

/-- Wrapping around never moves a number away from zero. -/
theorem natAbs_wrapI64_le (n : Int) : (wrapI64 n).natAbs ≤ n.natAbs := by
  by_cases h : InI64 n
  · rw [wrapI64_of_inI64 h]
  · have hwrap := wrapI64_inI64 n
    unfold InI64 at h hwrap
    omega

theorem skew_le (now : DateTime) (presented : Int) :
    skew now presented ≤ |unixSeconds now - presented| := by
  unfold skew
  have hinner := natAbs_wrapI64_le (unixSeconds now - presented)
  have houter := natAbs_wrapI64_le (wrapI64 (unixSeconds now - presented)).natAbs
  rw [Int.abs_eq_natAbs]
  omega

theorem skew_eq {now : DateTime} {presented : Int}
    (h : |unixSeconds now - presented| < 2 ^ 63) :
    skew now presented = |unixSeconds now - presented| := by
  unfold skew
  rw [Int.abs_eq_natAbs] at h ⊢
  rw [wrapI64_of_inI64 (n := unixSeconds now - presented) (by unfold InI64; omega),
    wrapI64_of_inI64 (by unfold InI64; omega)]

/-- A distance that wraps into the window does not fit the machine's width. -/
theorem WrapsIntoWindow.overflows {now : DateTime} {maxAge : Int} {timestamp : String}
    (h : WrapsIntoWindow now maxAge timestamp) :
    ∃ presented, parseI64 (trim timestamp) = some presented ∧
      2 ^ 63 ≤ |unixSeconds now - presented| := by
  obtain ⟨presented, hparse, hout, hin⟩ := h
  refine ⟨presented, hparse, ?_⟩
  by_contra hsmall
  rw [skew_eq (by omega)] at hin
  omega

/-- The least number that wraps in: the clock itself, less half the range. -/
example : WrapsIntoWindow (1700000000 * nanosPerSecond) 300 "-9223372035154775808" :=
  ⟨-9223372035154775808, by decide, by decide, by decide⟩

theorem validateTimestamp_ok {raw : String} {maxAge : Int} {now : DateTime} :
    validateTimestamp raw maxAge now = .ok () ↔
      WithinWindow now maxAge raw ∨ WrapsIntoWindow now maxAge raw := by
  unfold validateTimestamp WithinWindow WrapsIntoWindow
  cases hparse : parseI64 (trim raw) with
  | none => simp
  | some presented =>
    have hle := skew_le now presented
    by_cases hskew : maxAge < skew now presented
    · simp only [hskew, ↓reduceIte, reduceCtorEq, Option.some.injEq, exists_eq_left', false_iff]
      omega
    · simp only [hskew, ↓reduceIte, Option.some.injEq, exists_eq_left', true_iff]
      omega

/-! ### What an accepted request should have proven -/

section Acceptance

variable {state : AppState} {clock : AuthClock} {presentedKey : String} {clientIp : IpAddr}
  {hook : Option Hook} {req : HttpRequest} {w w' : World} {key : ApiKey}

/-- The signature of a request verified under the key's secret over the
request, in time, and for the first time. -/
def SignatureProven (state : AppState) (clock : AuthClock) (hook : Option Hook)
    (req : HttpRequest) (key : ApiKey) (before after : ReplayGuard) : Prop :=
  ∃ provided timestamp secret digest,
    req.headers.getStr signatureHeader = some provided ∧
    req.headers.getStr timestampHeader = some timestamp ∧
    recoverSigningSecret state key = .ok secret ∧
    presentedDigest provided signaturePrefix = some digest ∧
    state.platform.prim.hmacSha256 (asBytes secret)
      (signingBase req (templateInForce hook key) timestamp) = some digest ∧
    WithinWindow clock.validatedAt state.config.signatureMaxAgeSeconds timestamp ∧
    ¬before.Remembers ⟨key.id, digest⟩ clock.recordedAt ∧
    after.lookup ⟨key.id, digest⟩ = some (clock.recordedAt + before.window)

structure Honoured (state : AppState) (clock : AuthClock) (presentedKey : String)
    (clientIp : IpAddr) (hook : Option Hook) (req : HttpRequest) (w : World) (key : ApiKey)
    (w' : World) : Prop where
  /-- The key is the row the presented key hashes to. -/
  credential : ∃ record ∈ w.db.apiKeys, key = w.principal record ∧
    key.keyHash = hashKey state.platform.prim presentedKey
  network : ∃ networks, boundNetworks state.platform key = some networks ∧
    (networks = [] ∨ ∃ net ∈ networks, net clientIp = true)
  signature : req.headers.containsKey signatureHeader = true ∨
      signatureRequired state key = true →
    SignatureProven state clock hook req key w.replay w'.replay

/-- A request of a key that does not have to sign, under a signature header that
is not text. -/
def IgnoresSignature (state : AppState) (clock : AuthClock) (presentedKey : String)
    (clientIp : IpAddr) (req : HttpRequest) (w : World) : Prop :=
  req.headers.containsKey signatureHeader = true ∧
  req.headers.getStr signatureHeader = none ∧
  (∃ timestamp, prevalidateTimestampHeader req.headers state.config.signatureMaxAgeSeconds
    clock.prevalidatedAt = .ok timestamp) ∧
  ∃ record, w.db.apiKeys.find? (fun k => k.keyHash == hashKey state.platform.prim presentedKey) =
      some record ∧
    signatureRequired state (w.principal record) = false ∧
    guardNetwork state.platform (w.principal record) clientIp = .ok ()

/-- A request under a new signature that verifies, over a timestamp that wraps
into the window. -/
def WrapsTimestamp (state : AppState) (clock : AuthClock) (presentedKey : String)
    (clientIp : IpAddr) (hook : Option Hook) (req : HttpRequest) (w : World) : Prop :=
  ∃ provided timestamp record digest,
    req.headers.getStr signatureHeader = some provided ∧
    prevalidateTimestampHeader req.headers state.config.signatureMaxAgeSeconds
      clock.prevalidatedAt = .ok (some timestamp) ∧
    WrapsIntoWindow clock.validatedAt state.config.signatureMaxAgeSeconds timestamp ∧
    w.db.apiKeys.find? (fun k => k.keyHash == hashKey state.platform.prim presentedKey) =
      some record ∧
    verifyKeySignature state clock req hook (w.principal record) (some timestamp) provided =
      .ok digest ∧
    (w.replay.checkAndRecord record.id digest clock.recordedAt).1 = true ∧
    guardNetwork state.platform (w.principal record) clientIp = .ok ()

theorem guardNetwork_ok {platform : Platform} :
    guardNetwork platform key clientIp = .ok () ↔
      ∃ networks, boundNetworks platform key = some networks ∧
        (networks = [] ∨ ∃ net ∈ networks, net clientIp = true) := by
  unfold guardNetwork
  cases boundNetworks platform key with
  | none => simp
  | some networks => simp [or_iff_not_imp_left]

/-- The timestamp text an authentication goes on with is the header's. -/
theorem prevalidateTimestampHeader_ok {headers : HeaderMap} {maxAge : Int} {now : DateTime}
    {found : Option String}
    (h : prevalidateTimestampHeader headers maxAge now = .ok found) :
    headers.getStr timestampHeader = found := by
  unfold prevalidateTimestampHeader at h
  cases hraw : headers.getStr timestampHeader with
  | none =>
    rw [hraw] at h
    exact Except.ok.inj h
  | some raw =>
    simp only [hraw] at h
    split at h
    · cases hv : validateTimestamp raw maxAge now with
      | error e => simp [hv, Except.map] at h
      | ok _ =>
        rw [hv] at h
        exact Except.ok.inj h
    · exact Except.ok.inj h

theorem containsKey_of_getStr {headers : HeaderMap} {name value : String}
    (h : headers.getStr name = some value) : headers.containsKey name = true := by
  unfold HeaderMap.getStr at h
  unfold HeaderMap.containsKey
  cases hget : headers.get name with
  | none => simp [hget] at h
  | some bytes => rfl

theorem not_withinWindow_of_wraps {now : DateTime} {maxAge : Int} {timestamp : String}
    (hwraps : WrapsIntoWindow now maxAge timestamp) : ¬WithinWindow now maxAge timestamp := by
  rintro ⟨presented, hparse, hin⟩
  obtain ⟨presented', hparse', hout, -⟩ := hwraps
  obtain rfl : presented' = presented := by simpa [hparse] using hparse'.symm
  omega

/-- A signature that was checked has proven what it should, unless its timestamp
wraps around. -/
theorem signatureProven_of_verified {provided timestamp : String} {digest : Bytes}
    {guard : ReplayGuard}
    (hprovided : req.headers.getStr signatureHeader = some provided)
    (htimestamp : req.headers.getStr timestampHeader = some timestamp)
    (hverify : verifyKeySignature state clock req hook key (some timestamp) provided = .ok digest)
    (hwraps : ¬WrapsIntoWindow clock.validatedAt state.config.signatureMaxAgeSeconds timestamp)
    (hcheck : w.replay.checkAndRecord key.id digest clock.recordedAt = (true, guard)) :
    SignatureProven state clock hook req key w.replay guard := by
  obtain ⟨text, secret, htext, hvalid, hsecret, -, hdigest, hmac⟩ :=
    verifyKeySignature_ok.mp hverify
  cases htext
  obtain ⟨hfresh, hguard⟩ := ReplayGuard.checkAndRecord_accepted ⟨key.id, digest⟩ hcheck
  refine ⟨provided, timestamp, secret, digest, hprovided, htimestamp, hsecret, hdigest, hmac,
    (validateTimestamp_ok.mp hvalid).resolve_right hwraps, hfresh, ?_⟩
  rw [hguard, ReplayGuard.lookup_record_self, ReplayGuard.pruneIfDue_window]

/-- Every request accepted under a key has proven what it should have if and
only if its signature header does not pass for absent and its timestamp does not
wrap into the window. -/
theorem honoured_iff :
    (∀ key w', (authenticateBearerKey state clock presentedKey clientIp hook req).run Op.exec w =
        (.ok key, w') → Honoured state clock presentedKey clientIp hook req w key w') ↔
      ¬IgnoresSignature state clock presentedKey clientIp req w ∧
        ¬WrapsTimestamp state clock presentedKey clientIp hook req w := by
  constructor
  · intro hhonoured
    constructor
    · rintro ⟨hpresent, hundecodable, ⟨timestamp, htimestamp⟩, record, hrecord, hoptional, hnetwork⟩
      -- the header is there, and the request passes for unsigned
      have hrun : (authenticateBearerKey state clock presentedKey clientIp hook req).run Op.exec w =
          (.ok (w.principal record), _) :=
        authenticateBearerKey_accepts.mpr ⟨timestamp, record, _, htimestamp, hrecord, rfl, rfl,
          (checkSignature_unsigned_ok hundecodable).mpr ⟨rfl, hoptional⟩, hnetwork⟩
      obtain ⟨provided, _, _, _, hprovided, -⟩ := (hhonoured _ _ hrun).signature (.inl hpresent)
      simp [hundecodable] at hprovided
    · rintro ⟨provided, timestamp, record, digest, hprovided, htimestamp, hwraps, hrecord, hverify,
        hfirst, hnetwork⟩
      rw [← World.principal_id w record] at hfirst
      have hrun := authenticateBearerKey_accepts.mpr ⟨some timestamp, record, _, htimestamp,
        hrecord,
        rfl, rfl, checkSignature_signed hprovided hverify hfirst, hnetwork⟩
      obtain ⟨_, text, _, _, -, htext, -, -, -, hwithin, -⟩ :=
        (hhonoured _ _ hrun).signature (.inl (containsKey_of_getStr hprovided))
      obtain rfl : timestamp = text := by
        simpa [prevalidateTimestampHeader_ok htimestamp] using htext
      exact not_withinWindow_of_wraps hwraps hwithin
  · rintro ⟨hdecodable, hinRange⟩ key w' hrun
    obtain ⟨timestamp, record, pinned, htimestamp, hrecord, rfl, -, hcheck, hnetwork⟩ :=
      authenticateBearerKey_accepts.mp hrun
    refine ⟨⟨record, List.mem_of_find?_eq_some hrecord, rfl, ?_⟩, guardNetwork_ok.mp hnetwork, ?_⟩
    · rw [(w.principal_effective record).keyHash]
      simpa using List.find?_some hrecord
    · intro hproof
      cases hprovided : req.headers.getStr signatureHeader with
      | none =>
        obtain ⟨-, hoptional⟩ := (checkSignature_unsigned_ok hprovided).mp hcheck
        rcases hproof with hpresent | hrequired
        · exact absurd ⟨hpresent, hprovided, ⟨timestamp, htimestamp⟩, record, hrecord, hoptional,
            hnetwork⟩ hdecodable
        · simp [hoptional] at hrequired
      | some provided =>
        obtain ⟨digest, hverify, hfirst, -⟩ := (checkSignature_signed_ok hprovided).mp hcheck
        obtain ⟨text, _, rfl, -⟩ := verifyKeySignature_ok.mp hverify
        refine signatureProven_of_verified (w := w) hprovided
          (prevalidateTimestampHeader_ok htimestamp) hverify (fun hwraps => ?_) hfirst
        refine hinRange ⟨provided, text, record, digest, hprovided, htimestamp, hwraps, hrecord,
          hverify, ?_, hnetwork⟩
        rw [World.principal_id] at hfirst
        exact congrArg Prod.fst hfirst

end Acceptance

section Sample

open Sample

/-- A signature header that is not text is accepted as none. -/
theorem undecodable_signature_accepted :
    ¬∀ {state : AppState} {clock : AuthClock} {presentedKey : String} {clientIp : IpAddr}
        {hook : Option Hook} {req : HttpRequest} {w w' : World} {key : ApiKey},
      (authenticateBearerKey state clock presentedKey clientIp hook req).run Op.exec w =
        (.ok key, w') → Honoured state clock presentedKey clientIp hook req w key w' := by
  intro hclaim
  have hrun : (authenticateBearerKey state clock daughterKey (.v4 0x7F000001) none
      { bearer "/hooks" daughterKey with
        headers := ⟨[keyHeader daughterKey, ("x-signature-256", [0xFF])]⟩ }).run Op.exec
          deployment = (.ok daughterRow, deployment) := by
    decide +kernel
  obtain ⟨provided, _, _, _, hprovided, -⟩ := (hclaim hrun).signature (.inl (by decide))
  have hundecodable : HeaderMap.getStr ⟨[keyHeader daughterKey, ("x-signature-256", [0xFF])]⟩
      signatureHeader = none := by
    decide
  exact absurd (hundecodable.symm.trans hprovided) (by simp)

end Sample

end HookExecutor
