import HookExecutor.Lib.Text

/-!
# Request signing and secrets at rest

The canonical byte string a request is signed over, the verification of a
signature against it, and the sealing of a recoverable secret. The hash, the
MAC and the cipher come from outside: they are the fields of `Primitives`.
-/

namespace HookExecutor

open Text

/-- The cryptographic primitives the service links against. -/
structure Primitives where
  sha256 : Bytes → Bytes
  /-- `none` when the bytes cannot be used as a key. -/
  hmacSha256 : (key message : Bytes) → Option Bytes
  /-- XChaCha20-Poly1305 under a key and a nonce. -/
  encrypt : (key nonce plaintext : Bytes) → Option Bytes
  decrypt : (key nonce ciphertext : Bytes) → Option Bytes

namespace Crypto

def signaturePrefix : String := "sha256="

/-- `METHOD\nTARGET\nTIMESTAMP\nBODY`. -/
def canonicalV1Payload (method target timestamp : String) (body : Bytes) : Bytes :=
  asBytes method ++ [0x0A] ++ asBytes target ++ [0x0A] ++ asBytes timestamp ++ [0x0A] ++ body

/-- The byte string settles what it was built from, if the first three fields
are one line each. -/
theorem canonicalV1Payload_inj {method target timestamp method' target' timestamp' : String}
    {body body' : Bytes} (hmethod : 0x0A ∉ asBytes method) (hmethod' : 0x0A ∉ asBytes method')
    (htarget : 0x0A ∉ asBytes target) (htarget' : 0x0A ∉ asBytes target')
    (htimestamp : 0x0A ∉ asBytes timestamp) (htimestamp' : 0x0A ∉ asBytes timestamp')
    (h : canonicalV1Payload method target timestamp body =
      canonicalV1Payload method' target' timestamp' body') :
    method = method' ∧ target = target' ∧ timestamp = timestamp' ∧ body = body' := by
  simp only [canonicalV1Payload, List.append_assoc, List.singleton_append] at h
  obtain ⟨hm, h⟩ := append_cons_inj_of_notMem_of_notMem hmethod hmethod' h
  obtain ⟨ht, h⟩ := append_cons_inj_of_notMem_of_notMem htarget htarget' h
  obtain ⟨hts, hb⟩ := append_cons_inj_of_notMem_of_notMem htimestamp htimestamp' h
  exact ⟨asBytes_injective hm, asBytes_injective ht, asBytes_injective hts, hb⟩

def computeSignature (prim : Primitives) (secret : String) (payload : Bytes) : Option String :=
  (prim.hmacSha256 (asBytes secret) payload).map fun mac => signaturePrefix ++ hexEncode mac

inductive SignatureRejection where
  | missingPrefix | malformedHex | mismatch | keyUnusable
  deriving DecidableEq

/-- The decoded digest, if it is the MAC of the payload under the secret. -/
def verifySignatureWithPrefix (prim : Primitives) (secret : String) (payload : Bytes)
    (provided prefix_ : String) : Except SignatureRejection Bytes :=
  match stripPrefix prefix_ (trim provided) with
  | none => .error .missingPrefix
  | some hexDigest =>
    match hexDecode (trim hexDigest) with
    | none => .error .malformedHex
    | some providedBytes =>
      match prim.hmacSha256 (asBytes secret) payload with
      | none => .error .keyUnusable
      | some mac => if mac = providedBytes then .ok providedBytes else .error .mismatch

def verifySignature (prim : Primitives) (secret : String) (payload : Bytes) (provided : String) :
    Except SignatureRejection Bytes :=
  verifySignatureWithPrefix prim secret payload provided signaturePrefix

/-- The digest a signature header presents, whether or not it verifies. -/
def presentedDigest (provided prefix_ : String) : Option Bytes :=
  (stripPrefix prefix_ (trim provided)).bind fun hexDigest => hexDecode (trim hexDigest)

theorem verifySignatureWithPrefix_eq_ok_iff {prim : Primitives} {secret : String}
    {payload : Bytes} {provided prefix_ : String} {digest : Bytes} :
    verifySignatureWithPrefix prim secret payload provided prefix_ = .ok digest ↔
      presentedDigest provided prefix_ = some digest ∧
        prim.hmacSha256 (asBytes secret) payload = some digest := by
  unfold verifySignatureWithPrefix presentedDigest
  cases stripPrefix prefix_ (trim provided) with
  | none => simp
  | some hexDigest =>
    cases hd : hexDecode (trim hexDigest) with
    | none => simp [hd]
    | some providedBytes =>
      cases prim.hmacSha256 (asBytes secret) payload with
      | none => simp [hd]
      | some mac =>
        by_cases hmac : mac = providedBytes
        · simp [hd, hmac]
        · constructor
          · simp [hd, hmac]
          · rintro ⟨hp, hm⟩
            simp only [Option.bind_some, hd, Option.some.injEq] at hp hm
            exact absurd (hm.trans hp.symm) hmac

def methodPlaceholder : String := "\x7bmethod\x7d"
def pathPlaceholder : String := "\x7bpath\x7d"
def timestampPlaceholder : String := "\x7btimestamp\x7d"
def bodyPlaceholder : String := "\x7bbody\x7d"

def defaultCanonicalTemplate : String :=
  "\x7bmethod\x7d\n\x7bpath\x7d\n\x7btimestamp\x7d\n\x7bbody\x7d"

/-- Textual substitution of the four placeholders, one after the other. -/
def renderCanonicalTemplate (template method path timestamp : String) (body : Bytes) : Bytes :=
  let withMethod := replace template methodPlaceholder method
  let withPath := replace withMethod pathPlaceholder path
  let withTimestamp := replace withPath timestampPlaceholder timestamp
  asBytes (replace withTimestamp bodyPlaceholder (fromUtf8Lossy body))

/-! ### Encryption at rest -/

inductive CryptoError where
  | invalidKey | malformedCiphertext | decryptionFailed | encryptionFailed
  deriving DecidableEq

inductive SecretCipher where
  | plaintext
  | keyed (key : Bytes)

def plaintextPrefix : String := "v1.plain."
def sealedPrefix : String := "v1.xchacha20poly1305."
def nonceLen : Nat := 24

namespace SecretCipher

def isEncrypting : SecretCipher → Bool
  | plaintext => false
  | keyed _ => true

def sealText (prim : Primitives) (nonce : Bytes) (text : String) :
    SecretCipher → Except CryptoError String
  | plaintext => .ok (plaintextPrefix ++ hexEncode (asBytes text))
  | keyed key =>
    match prim.encrypt key nonce (asBytes text) with
    | none => .error .encryptionFailed
    | some ciphertext =>
      .ok (sealedPrefix ++ hexEncode nonce ++ "." ++ hexEncode ciphertext)

/-- Text before and after the first dot. -/
def splitOnceDot (cs : List Char) : Option (List Char × List Char) :=
  match splitChars '.' cs with
  | head :: piece :: rest => some (head, (piece :: rest).intersperse ['.'] |>.flatten)
  | _ => none

def openText (prim : Primitives) (stored : String) (cipher : SecretCipher) :
    Except CryptoError String :=
  match stripPrefix plaintextPrefix stored with
  | some encoded =>
    match (hexDecode encoded).bind fromUtf8 with
    | some text => .ok text
    | none => .error .malformedCiphertext
  | none =>
    match (stripPrefix sealedPrefix stored).bind fun body => splitOnceDot body.toList with
    | none => .error .malformedCiphertext
    | some (nonceHex, ciphertextHex) =>
      match hexDecodeChars nonceHex, hexDecodeChars ciphertextHex with
      | some nonce, some ciphertext =>
        if nonce.length ≠ nonceLen then .error .malformedCiphertext
        else match cipher with
          | plaintext => .error .decryptionFailed
          | keyed key =>
            match prim.decrypt key nonce ciphertext with
            | none => .error .decryptionFailed
            | some bytes =>
              match fromUtf8 bytes with
              | some text => .ok text
              | none => .error .malformedCiphertext
      | _, _ => .error .malformedCiphertext

end SecretCipher

end Crypto

end HookExecutor
