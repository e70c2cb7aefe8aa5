import HookExecutor.Verification.Reachability
import HookExecutor.Verification.SignedRequests

/-!
# What key managers sign

A key that manages keys has no template of its own in any reachable world, so
its requests are verified over the standard canonical string, whatever the
templates of other keys. One thing overrides that: an invocation of a hook that
takes canonical signatures and declares a template is verified over the
rendering of that template, for every caller.
-/

namespace HookExecutor

open Text Crypto

/-- The template the hook a request invokes puts in front of the caller's own. -/
def Request.overridingTemplate (db : Database) (req : Request) : Option String :=
  ((req.targetHook db).filter fun h => h.authMode == .canonicalV1).bind (·.canonicalTemplate)

/-- The signature a request presented verified under the key's secret, and the
bytes it was verified over are these, at the timestamp it presented. -/
def VerifiedOver (state : AppState) (clock : AuthClock) (hook : Option Hook) (http : HttpRequest)
    (key : ApiKey) (payload : String → Bytes) : Prop :=
  ∃ provided timestamp digest,
    http.headers.getStr signatureHeader = some provided ∧
    http.headers.getStr timestampHeader = some timestamp ∧
    verifyKeySignature state clock http hook key (some timestamp) provided = .ok digest ∧
    signingBase http (templateInForce hook key) timestamp = payload timestamp

section Manager

variable {state : AppState} {w w₁ : World} {ctx : Context} {clock : AuthClock} {req : Request}
  {a : Authenticated} {key : ApiKey}

/-- Whoever has to sign was accepted on a signature that verified. -/
theorem verifiedOver_of_required {clientIp : IpAddr} {presentedKey : String} {hook : Option Hook}
    {http : HttpRequest} (hrequired : signatureRequired state key = true)
    (hrun : (authenticateBearerKey state clock presentedKey clientIp hook http).run Op.exec w =
      (.ok key, w₁)) :
    VerifiedOver state clock hook http key (signingBase http (templateInForce hook key)) := by
  obtain ⟨timestamp, record, _, htimestamp, -, -, -, hcheck, -⟩ :=
    authenticateBearerKey_accepts.mp hrun
  cases hprovided : http.headers.getStr signatureHeader with
  | none =>
    obtain ⟨-, hoptional⟩ := (checkSignature_unsigned_ok hprovided).mp hcheck
    simp [hrequired] at hoptional
  | some provided =>
    obtain ⟨digest, hverify, -⟩ := (checkSignature_signed_ok hprovided).mp hcheck
    obtain ⟨text, _, rfl, -⟩ := verifyKeySignature_ok.mp hverify
    exact ⟨provided, text, digest, hprovided, prevalidateTimestampHeader_ok htimestamp, hverify,
      rfl⟩

/-- In any reachable world, a request accepted under a key that manages keys,
other than the master, was verified over the standard canonical string or, if it
invokes a hook with a template of its own, over the rendering of that. -/
theorem manager_signs_canonical (hw : Reachable state w)
    (hauth : (authenticate ctx clock req).run Op.exec w = (.ok a, w₁))
    (hcaller : a.caller = some key) (hkey : key.isMaster = false)
    (hmanages : key.canManageKeys = true) :
    VerifiedOver ctx.state clock (req.targetHook w.db) req.http key fun timestamp =>
      match req.overridingTemplate w.db with
      | some template => renderCanonicalTemplate template req.http.method req.http.target timestamp
          req.http.body
      | none => canonicalV1Payload req.http.method req.http.target timestamp req.http.body := by
  have hsound := hw.sound
  have hown : key.canonicalTemplate = none :=
    (hsound.signing key (hsound.caller_mem hauth hcaller)).2 hmanages
  have htemplate : templateInForce (req.targetHook w.db) key = req.overridingTemplate w.db := by
    unfold templateInForce
    rw [hown, Option.or_none]
    rfl
  obtain ⟨presentedKey, -, hbearer⟩ := authenticate_keyed hauth hcaller
  have hverified := verifiedOver_of_required (by simp [signatureRequired, hkey, hmanages]) hbearer
  rw [htemplate] at hverified
  exact hverified

end Manager

section Ping

open Sample

/-- The parent's request to hand a right on was verified over its own method,
target, time and body. -/
theorem manager_signs_canonical_grant :
    VerifiedOver state clock none (signed (daughterPath ++ "/permissions") grantBody grantSignature)
      parentRow fun timestamp =>
        canonicalV1Payload "POST" ("/api" ++ daughterPath ++ "/permissions") timestamp
          (asBytes grantBody) :=
  manager_signs_canonical reachable_entrusted
    (authenticate_admin 5 (permissionsOf 201 true false) authMiddleware_grant) rfl rfl rfl

/-- A hook that wants the time and the body signed, and nothing else. -/
def pingHook : Hook :=
  { deployHook with canonicalTemplate := some "\x7btimestamp\x7d.\x7bbody\x7d" }

def templated : World := { deployment with db := { deployment.db with hooks := [pingHook] } }

private theorem reachable_templated : Reachable state templated := by
  refine reachable_serveAt reachable_withDaughter 3 (.admin (bearer "/hooks" masterKey)
    (.createHook { name := "deploy", scriptPath := "/opt/deploy.sh"
                   canonicalTemplate := pingHook.canonicalTemplate })) ?_
  decide +kernel

/-- The parent invokes it. -/
def ping : Invocation :=
  { route := .execute
    segment := "deploy"
    isSegment := deploy_isSegment
    method := "POST"
    target := "/api/hooks/deploy/execute"
    headers := (signed "" "" pingSignature).headers
    body := asBytes "ping" }

/-- Not everything a key manager signs is the standard canonical string. -/
theorem manager_signs_template :
    ¬∀ {state : AppState} {w w₁ : World} {ctx : Context} {clock : AuthClock} {req : Request}
        {a : Authenticated} {key : ApiKey}, Reachable state w →
      (authenticate ctx clock req).run Op.exec w = (.ok a, w₁) → a.caller = some key →
      key.isMaster = false → key.canManageKeys = true →
      VerifiedOver ctx.state clock (req.targetHook w.db) req.http key fun timestamp =>
        canonicalV1Payload req.http.method req.http.target timestamp req.http.body := by
  intro hclaim
  have hrun : (invocationAuthMiddleware state clock (.v4 0x7F000001) ping.toHttp).run Op.exec
      templated = (.ok (some parentRow), { templated with
        replay := guardAfter [seenOf pingSignature, daughterSeen] }) := by
    decide +kernel
  have hauth : (authenticate (ctx 5) clock (.invoke ping)).run Op.exec templated =
      (.ok (.invoke (some parentRow) ping), { templated with
        replay := guardAfter [seenOf pingSignature, daughterSeen] }) := by
    simp only [authenticate, Program.map_eq]
    rw [Program.run_bind_ok (show (invocationAuthMiddleware (ctx 5).state clock (ctx 5).clientIp
      ping.toHttp).run Op.exec templated = _ from hrun)]
    rfl
  obtain ⟨_, timestamp, _, -, htimestamp, -, hbase⟩ := hclaim reachable_templated hauth rfl rfl rfl
  have hnow : ping.headers.getStr timestampHeader = some "1700000000" := by decide
  obtain rfl : "1700000000" = timestamp := Option.some.inj (hnow.symm.trans htimestamp)
  revert hbase
  decide

end Ping

end HookExecutor
