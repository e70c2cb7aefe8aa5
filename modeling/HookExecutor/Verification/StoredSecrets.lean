import HookExecutor.Crypto
import HookExecutor.Lib.Spelling

/-!
# Secrets at rest, across configurations

A secret is stored in one of two tagged textual formats, with and without
encryption. The tag tells them apart whatever the daemon is configured with when
it reads: what was stored in the clear is always recovered, what was encrypted
only under the key it was encrypted with.
-/

namespace HookExecutor

open Text Crypto

/-- Decryption undoes encryption under the same key and nonce. -/
def Primitives.Lossless (prim : Primitives) : Prop :=
  ∀ key nonce text ciphertext, prim.encrypt key nonce text = some ciphertext →
    prim.decrypt key nonce ciphertext = some text

/-- Under another key than it was made with, a ciphertext does not decrypt. -/
def Primitives.Authentic (prim : Primitives) : Prop :=
  ∀ key key' nonce text ciphertext, prim.encrypt key nonce text = some ciphertext → key' ≠ key →
    prim.decrypt key' nonce ciphertext = none

section Formats

theorem dot_notMem_hexEncode (bytes : Bytes) : '.' ∉ hexEncodeChars bytes := by
  intro h
  obtain ⟨n, hn, hdigit⟩ := of_mem_hexEncodeChars h
  have hall : ∀ n : Fin 16, '.' ≠ hexDigit n := by decide
  exact hall ⟨n, hn⟩ hdigit

theorem stripPrefix_sealed (rest : String) :
    stripPrefix plaintextPrefix (sealedPrefix ++ rest) = none := by
  have hplain : plaintextPrefix.toList = 'v' :: '1' :: '.' :: 'p' :: "lain.".toList := by decide
  have hsealed : sealedPrefix.toList =
      'v' :: '1' :: '.' :: 'x' :: "chacha20poly1305.".toList := by decide
  unfold stripPrefix
  rw [String.toList_append, hplain, hsealed]
  rfl

theorem splitOnceDot_hex (nonce ciphertext : Bytes) :
    SecretCipher.splitOnceDot (hexEncode nonce ++ "." ++ hexEncode ciphertext).toList =
      some (hexEncodeChars nonce, hexEncodeChars ciphertext) := by
  have hchars : (hexEncode nonce ++ "." ++ hexEncode ciphertext).toList =
      hexEncodeChars nonce ++ '.' :: hexEncodeChars ciphertext := by
    simp [hexEncode, String.toList_append, String.toList_ofList]
  rw [SecretCipher.splitOnceDot, hchars, splitChars_append (dot_notMem_hexEncode nonce),
    splitChars_of_notMem (dot_notMem_hexEncode ciphertext)]
  simp

end Formats

section Opening

variable {prim : Primitives} {nonce key : Bytes} {text stored : String}
  {writer reader : SecretCipher}

theorem sealText_plaintext_iff :
    SecretCipher.sealText prim nonce text .plaintext = .ok stored ↔
      stored = plaintextPrefix ++ hexEncode (asBytes text) := by
  simp [SecretCipher.sealText, eq_comm]

theorem sealText_keyed_iff :
    SecretCipher.sealText prim nonce text (.keyed key) = .ok stored ↔
      ∃ ciphertext, prim.encrypt key nonce (asBytes text) = some ciphertext ∧
        stored = sealedPrefix ++ (hexEncode nonce ++ "." ++ hexEncode ciphertext) := by
  cases hencrypt : prim.encrypt key nonce (asBytes text) with
  | none => simp [SecretCipher.sealText, hencrypt]
  | some ciphertext => simp [SecretCipher.sealText, hencrypt, String.append_assoc, eq_comm]

/-- The format without encryption does not involve the reader's cipher. -/
theorem openText_plain (prim : Primitives) (text : String) (reader : SecretCipher) :
    reader.openText prim (plaintextPrefix ++ hexEncode (asBytes text)) = .ok text := by
  simp only [SecretCipher.openText, stripPrefix_eq_some_iff.mpr rfl, hexDecode_hexEncode,
    Option.bind_some, fromUtf8_asBytes]

/-- The format with encryption does not open without a key. -/
theorem openText_unkeyed (hnonce : nonce.length = nonceLen) (ciphertext : Bytes) :
    SecretCipher.openText prim (sealedPrefix ++ (hexEncode nonce ++ "." ++ hexEncode ciphertext))
      .plaintext = .error .decryptionFailed := by
  simp only [SecretCipher.openText, stripPrefix_sealed, stripPrefix_eq_some_iff.mpr rfl,
    Option.bind_some, splitOnceDot_hex, hexDecodeChars_hexEncodeChars, hnonce, ne_eq,
    not_true_eq_false, if_false]

/-- With a key it comes down to the decryption of its parts. -/
theorem openText_keyed (hnonce : nonce.length = nonceLen) {ciphertext : Bytes}
    {decrypted : Option Bytes} (hdecrypt : prim.decrypt key nonce ciphertext = decrypted) :
    (decrypted = none →
      SecretCipher.openText prim
        (sealedPrefix ++ (hexEncode nonce ++ "." ++ hexEncode ciphertext)) (.keyed key) =
        .error .decryptionFailed) ∧
    ∀ text, decrypted = some (asBytes text) →
      SecretCipher.openText prim
        (sealedPrefix ++ (hexEncode nonce ++ "." ++ hexEncode ciphertext)) (.keyed key) =
        .ok text := by
  simp only [SecretCipher.openText, stripPrefix_sealed, stripPrefix_eq_some_iff.mpr rfl,
    Option.bind_some, splitOnceDot_hex, hexDecodeChars_hexEncodeChars, hnonce, ne_eq,
    not_true_eq_false, if_false, hdecrypt]
  constructor
  · rintro rfl
    rfl
  · rintro text rfl
    simp only [fromUtf8_asBytes]

/-- What was sealed opens to itself, in the clear for every reader. -/
theorem openText_sealText (hlossless : prim.Lossless) (hnonce : nonce.length = nonceLen)
    (hseal : writer.sealText prim nonce text = .ok stored)
    (hreader : writer = .plaintext ∨ reader = writer) : reader.openText prim stored = .ok text := by
  cases writer with
  | plaintext =>
    rw [sealText_plaintext_iff.mp hseal]
    exact openText_plain prim text reader
  | keyed key =>
    obtain ⟨ciphertext, hencrypt, rfl⟩ := sealText_keyed_iff.mp hseal
    obtain hplain | rfl := hreader
    · cases hplain
    · exact (openText_keyed hnonce (hlossless key nonce _ _ hencrypt)).2 text rfl

/-- What was sealed under a key does not open for any other reader. -/
theorem openText_foreign (hauthentic : prim.Authentic) (hnonce : nonce.length = nonceLen)
    (hseal : writer.sealText prim nonce text = .ok stored) (hwriter : writer ≠ .plaintext)
    (hreader : reader ≠ writer) : reader.openText prim stored = .error .decryptionFailed := by
  cases writer with
  | plaintext => exact absurd rfl hwriter
  | keyed key =>
    obtain ⟨ciphertext, hencrypt, rfl⟩ := sealText_keyed_iff.mp hseal
    cases reader with
    | plaintext => exact openText_unkeyed hnonce ciphertext
    | keyed key' =>
      have hother : key' ≠ key := by
        rintro rfl
        exact hreader rfl
      exact (openText_keyed hnonce (hauthentic key key' nonce _ _ hencrypt hother)).1 rfl

/-- A stored secret under every pair of a writer and a reader: it opens to the
text it was made from if it was stored in the clear or the reader has the
writer's key, and to an error otherwise. -/
theorem stored_secret_opens (hlossless : prim.Lossless) (hauthentic : prim.Authentic)
    (hnonce : nonce.length = nonceLen) (hseal : writer.sealText prim nonce text = .ok stored)
    (reader : SecretCipher) :
    (writer = .plaintext ∨ reader = writer → reader.openText prim stored = .ok text) ∧
    (writer ≠ .plaintext → reader ≠ writer →
      reader.openText prim stored = .error .decryptionFailed) :=
  ⟨openText_sealText hlossless hnonce hseal, openText_foreign hauthentic hnonce hseal⟩

/-- A cipher that knows one secret, under one key and one nonce. -/
def onePassword : Primitives where
  sha256 := fun _ => []
  hmacSha256 := fun _ _ => none
  encrypt := fun key nonce text =>
    if key = (List.range 32).map UInt8.ofNat ∧ nonce = (List.range 24).map UInt8.ofNat ∧
        text = asBytes "pw" then
      hexDecode "eeb58076b60483c659020f8678b89b849362"
    else none
  decrypt := fun key nonce ciphertext =>
    if key = (List.range 32).map UInt8.ofNat ∧ nonce = (List.range 24).map UInt8.ofNat ∧
        some ciphertext = hexDecode "eeb58076b60483c659020f8678b89b849362" then
      some (asBytes "pw")
    else none

theorem onePassword_lossless : onePassword.Lossless := by
  intro key nonce text ciphertext h
  obtain ⟨⟨hkey, hnonce, rfl⟩, hciphertext⟩ := Option.ite_none_right_eq_some.mp h
  exact if_pos ⟨hkey, hnonce, hciphertext.symm⟩

theorem onePassword_authentic : onePassword.Authentic := by
  intro key key' nonce text ciphertext h hother
  obtain ⟨⟨rfl, -⟩, -⟩ := Option.ite_none_right_eq_some.mp h
  exact if_neg fun hmatch => hother hmatch.1

/-- A password sealed under one key, and read under it, under another key and
without any. -/
theorem stored_secret_opens_password :
    let key : Bytes := (List.range 32).map UInt8.ofNat
    let nonce : Bytes := (List.range 24).map UInt8.ofNat
    let stored := "v1.xchacha20poly1305.000102030405060708090a0b0c0d0e0f1011121314151617." ++
      "eeb58076b60483c659020f8678b89b849362"
    SecretCipher.sealText onePassword nonce "pw" (.keyed key) = .ok stored ∧
      SecretCipher.openText onePassword stored (.keyed key) = .ok "pw" ∧
      SecretCipher.openText onePassword stored (.keyed []) = .error .decryptionFailed ∧
      SecretCipher.openText onePassword stored .plaintext = .error .decryptionFailed := by
  intro key nonce stored
  have hseal : SecretCipher.sealText onePassword nonce "pw" (.keyed key) = .ok stored := by
    decide
  have hopens := stored_secret_opens onePassword_lossless onePassword_authentic
    (by decide : nonce.length = nonceLen) hseal
  have hkeyed : SecretCipher.keyed key ≠ .plaintext := by rintro ⟨⟩
  have hother : SecretCipher.keyed [] ≠ .keyed key := by
    intro h
    exact absurd (SecretCipher.keyed.inj h) (by decide)
  exact ⟨hseal, (hopens (.keyed key)).1 (.inr rfl), (hopens (.keyed [])).2 hkeyed hother,
    (hopens .plaintext).2 hkeyed hkeyed.symm⟩

end Opening

end HookExecutor
