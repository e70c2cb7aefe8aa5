import HookExecutor.Verification.SignedRequests
import Mathlib.Tactic.FinCases

/-!
# Signatures are used once

A run of authentications against one replay guard, each with whatever tables,
pin and hook it finds. The guard is sure to refuse a signature again only where
its memory of it, which starts when the signature is accepted, reaches to the
end of the window the timestamp is fresh in, and where the question is put to
the guard within that window. In a run where both hold of every signature that
passes the timestamp check, no signature is accepted twice; without them some
are.
-/

namespace HookExecutor

open Text Crypto

/-! ### Runs -/

/-- One request presented to the authentication of keys, and what it meets
there. -/
structure Attempt where
  db : Database
  pinned : Option Uuid
  clock : AuthClock
  presentedKey : String
  clientIp : IpAddr
  hook : Option Hook
  req : HttpRequest

/-- A signature that was accepted, with the timestamp it covers. -/
structure Acceptance where
  id : SignatureId
  timestamp : String
  deriving DecidableEq

namespace Attempt

def run (state : AppState) (guard : ReplayGuard) (a : Attempt) : Except AppError ApiKey × World :=
  (authenticateBearerKey state a.clock a.presentedKey a.clientIp a.hook a.req).run Op.exec
    ⟨a.db, guard, a.pinned, []⟩

/-- The digest a request presents, if it presents one. -/
def digest (a : Attempt) : Option Bytes :=
  (a.req.headers.getStr signatureHeader).bind (presentedDigest · signaturePrefix)

/-- What a request is accepted under, when it is signed over the default
canonical string. -/
def acceptance (state : AppState) (guard : ReplayGuard) (a : Attempt) : Option Acceptance :=
  match (a.run state guard).1, a.digest, a.req.headers.getStr timestampHeader with
  | .ok key, some digest, some timestamp =>
    if templateInForce a.hook key = none then some ⟨⟨key.id, digest⟩, timestamp⟩ else none
  | _, _, _ => none

/-- The default canonical string of a request. -/
def payload (a : Attempt) : Bytes :=
  canonicalV1Payload a.req.method a.req.target ((a.req.headers.getStr timestampHeader).getD "")
    a.req.body

/-- The request line a server parses: neither part of it holds a line break. -/
def SingleLine (a : Attempt) : Prop := 0x0A ∉ asBytes a.req.method ∧ 0x0A ∉ asBytes a.req.target

end Attempt

/-- The signatures accepted over a run, in order. -/
def accepted (state : AppState) : ReplayGuard → List Attempt → List Acceptance
  | _, [] => []
  | guard, a :: rest =>
    (a.acceptance state guard).toList ++ accepted state (a.run state guard).2.replay rest

def guardAfterRun (state : AppState) : ReplayGuard → List Attempt → ReplayGuard
  | guard, [] => guard
  | guard, a :: rest => guardAfterRun state (a.run state guard).2.replay rest

/-- The first instant, of the wall clock, a timestamp is too old at. -/
def staleFrom (presented maxAge : Int) : DateTime := (presented + maxAge + 1) * nanosPerSecond

/-- A signature that passes the timestamp check is put to the guard while its
timestamp is fresh, and remembered from then on until it no longer is. The wall
clock is `offset` ahead of the monotonic one. -/
def Attempt.Covered (state : AppState) (offset : Int) (a : Attempt) : Prop :=
  ∀ timestamp presented, a.req.headers.getStr timestampHeader = some timestamp →
    parseI64 (trim timestamp) = some presented →
    validateTimestamp timestamp state.config.signatureMaxAgeSeconds a.clock.validatedAt = .ok () →
    a.clock.recordedAt + offset < staleFrom presented state.config.signatureMaxAgeSeconds ∧
      staleFrom presented state.config.signatureMaxAgeSeconds ≤
        a.clock.recordedAt + offset +
          ReplayGuard.clampedWindow state.config.signatureMaxAgeSeconds * nanosPerSecond

/-- Under one key, requests of the run with different canonical strings have
different digests. -/
def NoCollision (state : AppState) (attempts : List Attempt) : Prop :=
  ∀ a ∈ attempts, ∀ b ∈ attempts, ∀ k ∈ a.db.apiKeys, ∀ l ∈ b.db.apiKeys, k.id = l.id →
    ∀ secret secret', recoverSigningSecret state k = .ok secret →
      recoverSigningSecret state l = .ok secret' →
    ∀ digest, state.platform.prim.hmacSha256 (asBytes secret) a.payload = some digest →
      state.platform.prim.hmacSha256 (asBytes secret') b.payload = some digest →
    a.payload = b.payload

/-! ### One attempt -/

section Step

variable {state : AppState} {guard : ReplayGuard} {a b : Attempt} {s : Acceptance}
  {id : SignatureId} {now : Instant}

/-- A live entry outlives any attempt before it expires. -/
theorem Attempt.remembers_run (h : guard.Remembers id now) (hnow : a.clock.recordedAt ≤ now) :
    (a.run state guard).2.replay.Remembers id now :=
  authenticateBearerKey_replay (J := fun g => g.Remembers id now)
    (fun _ _ hlive => hlive.checkAndRecord _ hnow) (w := ⟨a.db, guard, a.pinned, []⟩) h

theorem Attempt.run_window : (a.run state guard).2.replay.window = guard.window :=
  authenticateBearerKey_replay (J := fun g => g.window = guard.window)
    (fun g id hwindow => (g.checkAndRecord_window id a.clock.recordedAt).trans hwindow)
    (w := ⟨a.db, guard, a.pinned, []⟩) rfl

/-- What there is to an acceptance: a row, its secret, a digest that verifies, a
timestamp that passes, and a guard that did not know it. -/
theorem Attempt.acceptance_eq_some (h : a.acceptance state guard = some s) :
    ∃ k ∈ a.db.apiKeys, ∃ secret, k.id = s.id.keyId ∧ recoverSigningSecret state k = .ok secret ∧
      state.platform.prim.hmacSha256 (asBytes secret) a.payload = some s.id.digest ∧
      a.req.headers.getStr timestampHeader = some s.timestamp ∧
      validateTimestamp s.timestamp state.config.signatureMaxAgeSeconds a.clock.validatedAt =
        .ok () ∧
      guard.checkAndRecord s.id.keyId s.id.digest a.clock.recordedAt =
        (true, (a.run state guard).2.replay) := by
  unfold acceptance at h
  split at h
  · next key digest timestamp hrun hdigest htimestamp =>
    obtain ⟨htemplate, hs⟩ := Option.ite_none_right_eq_some.mp h
    cases hs
    obtain ⟨provided, hprovided, hpresented⟩ := Option.bind_eq_some_iff.mp hdigest
    obtain ⟨found, record, _, hfound, hrecord, rfl, -, hcheck, -⟩ :=
      authenticateBearerKey_accepts.mp (Prod.ext hrun rfl)
    obtain ⟨digest', hverify, hfirst, -⟩ := (checkSignature_signed_ok hprovided).mp hcheck
    obtain ⟨text, secret, rfl, hvalid, hsecret, -, hdigest', hmac⟩ :=
      verifyKeySignature_ok.mp hverify
    obtain rfl : digest' = digest := by
      simpa [hpresented] using hdigest'.symm
    obtain rfl : timestamp = text := by
      simpa [prevalidateTimestampHeader_ok hfound] using htimestamp.symm
    refine ⟨record, List.mem_of_find?_eq_some hrecord, secret, by simp, ?_, ?_, htimestamp, hvalid,
      hfirst⟩
    · rcases World.principal_effective ⟨a.db, guard, a.pinned, []⟩ record with heq | heq
      · rwa [heq] at hsecret
      · rw [heq] at hsecret
        exact hsecret
    · rw [htemplate] at hmac
      simpa [payload, signingBase, htimestamp] using hmac
  · cases h

set_option maxRecDepth 4000 in
/-- A timestamp header is one line. -/
theorem notMem_newline_of_getStr {headers : HeaderMap} {name text : String}
    (h : headers.getStr name = some text) : 0x0A ∉ asBytes text := by
  obtain ⟨value, -, hvalue⟩ := Option.bind_eq_some_iff.mp h
  obtain ⟨hvisible, hchars⟩ := Option.ite_none_right_eq_some.mp hvalue
  obtain rfl := Option.some.inj hchars
  rw [asBytes_ofList]
  intro hmem
  obtain ⟨c, hc, hbyte⟩ := List.mem_flatMap.mp hmem
  obtain ⟨b, hb, rfl⟩ := List.mem_map.mp hc
  have hok := List.all_eq_true.mp hvisible b hb
  have hall : ∀ n : Fin 256, ((0x20 ≤ UInt8.ofFin n && UInt8.ofFin n < 0x7F) ||
      UInt8.ofFin n == 0x09) = true →
        0x0A ∉ String.utf8EncodeChar (Char.ofNat (UInt8.ofFin n).toNat) := by
    decide
  exact hall b.toFin hok hbyte

end Step

/-! ### Runs -/

section Run

variable {state : AppState} {offset : Int} {attempts : List Attempt} {s t : Acceptance}

/-- Some attempt of the run presented this signature, and it verified. -/
def Vouched (state : AppState) (attempts : List Attempt) (s : Acceptance) : Prop :=
  ∃ a ∈ attempts, ∃ k ∈ a.db.apiKeys, ∃ secret, k.id = s.id.keyId ∧
    recoverSigningSecret state k = .ok secret ∧
    state.platform.prim.hmacSha256 (asBytes secret) a.payload = some s.id.digest ∧
    a.req.headers.getStr timestampHeader = some s.timestamp

/-- One digest under one key covers one timestamp. -/
theorem Vouched.timestamp_eq (hcollision : NoCollision state attempts)
    (hlines : ∀ a ∈ attempts, a.SingleLine) (hs : Vouched state attempts s)
    (ht : Vouched state attempts t) (hid : s.id = t.id) : s.timestamp = t.timestamp := by
  obtain ⟨a, ha, k, hk, secret, hkid, hsecret, hmac, hts⟩ := hs
  obtain ⟨b, hb, l, hl, secret', hlid, hsecret', hmac', hts'⟩ := ht
  rw [hid] at hkid hmac
  have hpayload := hcollision a ha b hb k hk l hl (hkid.trans hlid.symm) secret secret' hsecret
    hsecret' t.id.digest hmac hmac'
  simp only [Attempt.payload, hts, hts', Option.getD_some] at hpayload
  exact (canonicalV1Payload_inj (hlines a ha).1 (hlines b hb).1 (hlines a ha).2 (hlines b hb).2
    (notMem_newline_of_getStr hts) (notMem_newline_of_getStr hts') hpayload).2.2.1

/-- From an instant on, a signature is remembered for as long as it is fresh. -/
def Kept (state : AppState) (offset : Int) (guard : ReplayGuard) (from_ : Instant)
    (s : Acceptance) : Prop :=
  ∀ now, from_ ≤ now → ∀ presented, parseI64 (trim s.timestamp) = some presented →
    now + offset < staleFrom presented state.config.signatureMaxAgeSeconds →
    guard.Remembers s.id now

theorem Kept.mono {guard : ReplayGuard} {from_ later : Instant}
    (h : Kept state offset guard from_ s) (hle : from_ ≤ later) :
    Kept state offset guard later s := fun now hnow => h now (hle.trans hnow)

theorem Kept.run {guard : ReplayGuard} {from_ : Instant} {a : Attempt}
    (h : Kept state offset guard from_ s) (hle : from_ ≤ a.clock.recordedAt) :
    Kept state offset (a.run state guard).2.replay a.clock.recordedAt s :=
  fun now hnow presented hparse hfresh =>
    Attempt.remembers_run (h now (hle.trans hnow) presented hparse hfresh) hnow

theorem parses_of_validateTimestamp {raw : String} {maxAge : Int} {now : DateTime}
    (h : validateTimestamp raw maxAge now = .ok ()) :
    ∃ presented, parseI64 (trim raw) = some presented := by
  rcases validateTimestamp_ok.mp h with ⟨presented, hparse, -⟩ | ⟨presented, hparse, -⟩
  · exact ⟨presented, hparse⟩
  · exact ⟨presented, hparse⟩

/-- What is accepted now is remembered until it is stale. -/
theorem kept_of_acceptance {guard : ReplayGuard} {a : Attempt}
    (hwindow : guard.window =
      ReplayGuard.clampedWindow state.config.signatureMaxAgeSeconds * nanosPerSecond)
    (hcovered : a.Covered state offset) (h : a.acceptance state guard = some s) :
    Kept state offset (a.run state guard).2.replay a.clock.recordedAt s := by
  obtain ⟨_, -, _, -, -, -, htimestamp, hvalid, hcheck⟩ := Attempt.acceptance_eq_some h
  intro now hnow presented hparse hfresh
  obtain ⟨-, hreach⟩ := hcovered s.timestamp presented htimestamp hparse hvalid
  obtain ⟨-, hguard⟩ := ReplayGuard.checkAndRecord_accepted s.id hcheck
  refine ⟨a.clock.recordedAt + guard.window, ?_, ?_⟩
  · rw [hguard, ReplayGuard.lookup_record_self, ReplayGuard.pruneIfDue_window]
  · have hlive := hfresh.trans_le hreach
    rw [hwindow]
    linarith

/-- What is remembered for as long as it is fresh is not accepted again. -/
theorem acceptance_id_ne {guard : ReplayGuard} {from_ : Instant} {a : Attempt}
    (hcollision : NoCollision state attempts) (hlines : ∀ a ∈ attempts, a.SingleLine)
    (ha : a ∈ attempts) (hcovered : a.Covered state offset) (hle : from_ ≤ a.clock.recordedAt)
    (ht : Vouched state attempts t) (hkept : Kept state offset guard from_ t)
    (h : a.acceptance state guard = some s) : t.id ≠ s.id := by
  intro hid
  obtain ⟨k, hk, secret, hkid, hsecret, hmac, htimestamp, hvalid, hcheck⟩ :=
    Attempt.acceptance_eq_some h
  have hs : Vouched state attempts s := ⟨a, ha, k, hk, secret, hkid, hsecret, hmac, htimestamp⟩
  obtain ⟨presented, hparse⟩ := parses_of_validateTimestamp hvalid
  obtain ⟨hfresh, -⟩ := hcovered s.timestamp presented htimestamp hparse hvalid
  have hsame := ht.timestamp_eq hcollision hlines hs hid
  have hremembered := hkept a.clock.recordedAt hle presented (hsame ▸ hparse) hfresh
  obtain ⟨hnew, -⟩ := ReplayGuard.checkAndRecord_accepted s.id hcheck
  exact hnew (hid ▸ hremembered)

/-- A run that starts where everything accepted so far is kept accepts nothing of
it again, and keeps what it accepts itself. -/
theorem accepted_run {rest : List Attempt} (past : List Acceptance) (guard : ReplayGuard)
    {from_ : Instant} (hcollision : NoCollision state attempts)
    (hlines : ∀ a ∈ attempts, a.SingleLine) (hcovered : ∀ a ∈ attempts, a.Covered state offset)
    (hrest : rest ⊆ attempts)
    (horder : rest.Pairwise fun a b => a.clock.recordedAt ≤ b.clock.recordedAt)
    (hfrom : ∀ a ∈ rest, from_ ≤ a.clock.recordedAt)
    (hwindow : guard.window =
      ReplayGuard.clampedWindow state.config.signatureMaxAgeSeconds * nanosPerSecond)
    (hpast : ∀ s ∈ past, Vouched state attempts s ∧ Kept state offset guard from_ s)
    (hdistinct : (past.map (·.id)).Nodup) :
    ((past ++ accepted state guard rest).map (·.id)).Nodup ∧
      ∀ s ∈ past ++ accepted state guard rest, ∀ until_, from_ ≤ until_ →
        (∀ a ∈ rest, a.clock.recordedAt ≤ until_) →
        Kept state offset (guardAfterRun state guard rest) until_ s := by
  induction rest generalizing past guard from_ with
  | nil =>
    simp only [accepted, List.append_nil, guardAfterRun]
    exact ⟨hdistinct, fun s hs until_ hle _ => (hpast s hs).2.mono hle⟩
  | cons a rest ih =>
    obtain ⟨ha, hrest⟩ := List.cons_subset.mp hrest
    obtain ⟨hafter, horder⟩ := List.pairwise_cons.mp horder
    have hle := hfrom a (by simp)
    have hkept : ∀ s ∈ past, Vouched state attempts s ∧
        Kept state offset (a.run state guard).2.replay a.clock.recordedAt s :=
      fun s hs => ⟨(hpast s hs).1, (hpast s hs).2.run hle⟩
    have hnext := fun past => ih past (a.run state guard).2.replay hrest horder hafter
      (Attempt.run_window.trans hwindow)
    cases hacc : a.acceptance state guard with
    | none =>
      obtain ⟨hnodup, hend⟩ := hnext past hkept hdistinct
      simp only [accepted, hacc, Option.toList_none, List.nil_append, guardAfterRun]
      exact ⟨hnodup, fun s hs until_ _ huntil => hend s hs until_ (huntil a (by simp))
        fun b hb => huntil b (by simp [hb])⟩
    | some s =>
      obtain ⟨k, hk, secret, hkid, hsecret, hmac, htimestamp, -, -⟩ :=
        Attempt.acceptance_eq_some hacc
      have hnew : ∀ t ∈ past, t.id ≠ s.id := fun t ht =>
        acceptance_id_ne hcollision hlines ha (hcovered a ha) hle (hpast t ht).1 (hpast t ht).2 hacc
      have hpast' : ∀ t ∈ past ++ [s], Vouched state attempts t ∧
          Kept state offset (a.run state guard).2.replay a.clock.recordedAt t := by
        intro t ht
        rcases List.mem_append.mp ht with ht | ht
        · exact hkept t ht
        · obtain rfl := List.mem_singleton.mp ht
          exact ⟨⟨a, ha, k, hk, secret, hkid, hsecret, hmac, htimestamp⟩,
            kept_of_acceptance hwindow (hcovered a ha) hacc⟩
      have hdistinct' : ((past ++ [s]).map (·.id)).Nodup := by
        rw [List.map_append, List.nodup_append]
        refine ⟨hdistinct, by simp, ?_⟩
        rintro _ hmem _ hs
        obtain ⟨t, ht, rfl⟩ := List.mem_map.mp hmem
        obtain rfl : _ = s.id := by simpa using hs
        exact hnew t ht
      obtain ⟨hnodup, hend⟩ := hnext (past ++ [s]) hpast' hdistinct'
      simp only [accepted, hacc, Option.toList_some, guardAfterRun, ← List.append_assoc]
      exact ⟨hnodup, fun t ht until_ _ huntil => hend t ht until_ (huntil a (by simp))
        fun b hb => huntil b (by simp [hb])⟩

theorem lt_of_seconds_le {now presented maxAge : Int}
    (h : now / nanosPerSecond - presented ≤ maxAge) :
    now < (presented + maxAge + 1) * nanosPerSecond := by
  unfold nanosPerSecond at h ⊢
  omega

theorem lt_staleFrom_of_withinWindow {now : DateTime} {maxAge presented : Int} {timestamp : String}
    (h : WithinWindow now maxAge timestamp) (hparse : parseI64 (trim timestamp) = some presented) :
    now < staleFrom presented maxAge := by
  obtain ⟨presented', hparse', hin⟩ := h
  obtain rfl : presented' = presented := by simpa [hparse] using hparse'.symm
  exact lt_of_seconds_le (abs_le.mp hin).2

/-- In a run of authentications at non-decreasing times, each put to the guard
while its timestamp is fresh and remembered for as long as it is, no signature
of a key is accepted twice, and none that is still fresh has been forgotten. -/
theorem accepted_once {start : Instant}
    (horder : attempts.Pairwise fun a b => a.clock.recordedAt ≤ b.clock.recordedAt)
    (hlines : ∀ a ∈ attempts, a.SingleLine) (hcollision : NoCollision state attempts)
    (hcovered : ∀ a ∈ attempts, a.Covered state offset) :
    ((accepted state (.new state.config.signatureMaxAgeSeconds start) attempts).map (·.id)).Nodup ∧
      ∀ s ∈ accepted state (.new state.config.signatureMaxAgeSeconds start) attempts,
        ∀ now, (∀ a ∈ attempts, a.clock.recordedAt ≤ now) →
        WithinWindow (now + offset) state.config.signatureMaxAgeSeconds s.timestamp →
        (guardAfterRun state (.new state.config.signatureMaxAgeSeconds start) attempts).Remembers
          s.id now := by
  cases attempts with
  | nil => simp [accepted]
  | cons a rest =>
    have hfrom : ∀ b ∈ a :: rest, a.clock.recordedAt ≤ b.clock.recordedAt := by
      intro b hb
      rcases List.mem_cons.mp hb with rfl | hb
      · exact le_rfl
      · exact (List.pairwise_cons.mp horder).1 b hb
    obtain ⟨hnodup, hend⟩ := accepted_run [] (.new state.config.signatureMaxAgeSeconds start)
      hcollision hlines hcovered (List.Subset.refl _) horder hfrom rfl (by simp) (by simp)
    refine ⟨hnodup, fun s hs now hafter hwithin => ?_⟩
    obtain ⟨presented, hparse, -⟩ := id hwithin
    exact hend s hs now (hafter a (by simp)) hafter now le_rfl presented hparse
      (lt_staleFrom_of_withinWindow hwithin hparse)

end Run

section Replay

open Sample

/-- One signed request, presented so many seconds after the time it states. -/
def presentedAt (seconds : Int) : Attempt :=
  { db := raised.db
    pinned := raised.pinned
    clock := clockAt seconds
    presentedKey := parentKey
    clientIp := .v4 0x7F000001
    hook := none
    req := signed (daughterPath ++ "/rotate") "" rotateSignature }

private theorem singleLine_presentedAt {l : List Int} :
    ∀ a ∈ l.map presentedAt, a.SingleLine := by
  have hlines : 0x0A ∉ asBytes "POST" ∧ 0x0A ∉ asBytes ("/api" ++ (daughterPath ++ "/rotate")) := by
    decide
  intro a ha
  obtain ⟨seconds, -, rfl⟩ := List.mem_map.mp ha
  exact hlines

private theorem noCollision_presentedAt {l : List Int} :
    NoCollision state (l.map presentedAt) := by
  intro a ha b hb _ _ _ _ _ _ _ _ _ _ _ _
  obtain ⟨_, -, rfl⟩ := List.mem_map.mp ha
  obtain ⟨_, -, rfl⟩ := List.mem_map.mp hb
  rfl

/-- Presented from the second after its timestamp on, a signature is good for
one use. -/
theorem accepted_once_presented :
    ((accepted state (.new state.config.signatureMaxAgeSeconds 0)
      ([1, 2].map presentedAt)).map (·.id)).Nodup := by
  have hcovered : ∀ a ∈ [1, 2].map presentedAt,
      a.Covered state (epochSeconds * nanosPerSecond) := by
    have hstated : (signed (daughterPath ++ "/rotate") "" rotateSignature).headers.getStr
        timestampHeader = some "1700000000" := by
      decide
    have hparsed : parseI64 (trim "1700000000") = some epochSeconds := by decide
    intro a ha timestamp presented htimestamp hparse _
    obtain ⟨seconds, hseconds, rfl⟩ := List.mem_map.mp ha
    obtain rfl : "1700000000" = timestamp := Option.some.inj (hstated.symm.trans htimestamp)
    obtain rfl : epochSeconds = presented := Option.some.inj (hparsed.symm.trans hparse)
    fin_cases hseconds <;> decide
  exact (accepted_once (by decide) singleLine_presentedAt noCollision_presentedAt hcovered).1

/-- A signature is accepted a second time once the guard has forgotten it, if
its timestamp lay ahead of the clock. -/
theorem future_signature_accepted_twice :
    ¬∀ {state : AppState} {offset : Int} {start : Instant} {attempts : List Attempt},
      1 ≤ state.config.signatureMaxAgeSeconds →
      (attempts.Pairwise fun a b => a.clock.recordedAt ≤ b.clock.recordedAt) →
      (∀ a ∈ attempts, start ≤ a.clock.recordedAt ∧
        a.clock.prevalidatedAt = a.clock.recordedAt + offset ∧
        a.clock.validatedAt = a.clock.recordedAt + offset) →
      (∀ a ∈ attempts, a.SingleLine) → NoCollision state attempts →
      ((accepted state (.new state.config.signatureMaxAgeSeconds start) attempts).map
        (·.id)).Nodup := by
  intro hclaim
  have hnodup := @hclaim state (epochSeconds * nanosPerSecond) (-300 * nanosPerSecond)
    ([-300, 0].map presentedAt) (by decide) (by decide) (by decide) singleLine_presentedAt
    noCollision_presentedAt
  have htwice : (accepted state (.new state.config.signatureMaxAgeSeconds (-300 * nanosPerSecond))
      ([-300, 0].map presentedAt)).map (·.id) = [rotateSeen.1, rotateSeen.1] := by
    decide +kernel
  rw [htwice] at hnodup
  simp at hnodup

end Replay

end HookExecutor
