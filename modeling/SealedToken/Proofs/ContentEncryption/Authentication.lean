import SealedToken.Proofs.Aes.Cbc
import SealedToken.Proofs.Aes.Gcm
import SealedToken.Proofs.ContentEncryption.Bounds
import SealedToken.Proofs.Jwe.Uniform

/-!
What content encryption gives back. A key of the wrong size is told, whatever else is wrong. Under
a key of the right size the text comes back from what is authentic under it, and all else ends
in one error, whether it is the tag, the initialisation vector or the filling that is wrong.
-/

namespace SealedToken

/-- Counter mode opens exactly what it seals, and its tags have the size that is asked for. -/
structure Primitives.OpensExactly (p : Primitives) : Prop where
  size_tag : ∀ (s : AesSize) (key iv aad text : ByteArray), key.size = s.bytes →
    iv.size = ContentEncryptionAlgorithm.gcmIvSize →
    (p.gcmSeal key iv aad text).2.size = ContentEncryptionAlgorithm.gcmTagSize
  opens_iff : ∀ (s : AesSize) (key iv aad ciphertext tag text : ByteArray), key.size = s.bytes →
    iv.size = ContentEncryptionAlgorithm.gcmIvSize →
    (p.gcmOpen? key iv aad ciphertext tag = some text ↔
      p.gcmSeal key iv aad text = (ciphertext, tag))

theorem Primitives.OpensExactly.opensSealed {p : Primitives} (h : p.OpensExactly) :
    p.OpensSealed :=
  fun s key iv aad text hkey hiv =>
    ⟨h.size_tag s key iv aad text hkey hiv, (h.opens_iff s key iv aad _ _ text hkey hiv).2 rfl⟩

/-- A ciphertext that is opened with its tag is what its text is sealed to. -/
theorem Aes.gcmOpen?_eq_some {key iv aad ciphertext tag text : ByteArray} :
    gcmOpen? key iv aad ciphertext tag = some text ↔
      gcmSeal key iv aad text = (ciphertext, tag) := by
  constructor
  · intro h
    simp only [gcmOpen?, Option.ite_none_right_eq_some, Option.some.injEq] at h
    obtain ⟨rfl, rfl⟩ := h
    rw [gcmSeal, counterMode_counterMode]
  · intro h
    have hopen := @gcmOpen?_gcmSeal text key iv aad
    rwa [h] at hopen

theorem Primitives.standard_opensExactly : Primitives.standard.OpensExactly := by
  constructor
  · intro s key iv aad text hkey hiv
    simp only [Primitives.standard]
    exact Aes.size_gcmSeal key iv aad
  · intro s key iv aad ciphertext tag text hkey hiv
    simp only [Primitives.standard]
    exact Aes.gcmOpen?_eq_some

theorem Primitives.standard_sizedDigests : Primitives.standard.SizedDigests :=
  ShaSize.size_hmac

namespace ContentEncryptionAlgorithm

variable {p : Primitives} {rng : Entropy} {a : ContentEncryptionAlgorithm} {s : AesSize}
  {key aad text : ByteArray} {content : EncryptedContent}

/-- What is relied on of the cipher of an algorithm. -/
def Reverses (p : Primitives) : ContentEncryptionAlgorithm → Prop
  | .cbcHmac _ => p.DecryptsBlocks
  | .gcm _ => p.OpensExactly

theorem standard_reverses (a : ContentEncryptionAlgorithm) : a.Reverses .standard := by
  cases a with
  | cbcHmac s => exact Primitives.standard_decryptsBlocks
  | gcm s => exact Primitives.standard_opensExactly

theorem Reverses.inverts (h : a.Reverses p) : a.Inverts p := by
  cases a with
  | cbcHmac s => exact h
  | gcm s => exact h.opensSealed

/-! ### What is authentic -/

def firstHalf (bytes : ByteArray) : ByteArray := bytes.extract 0 (bytes.size / 2)

def secondHalf (bytes : ByteArray) : ByteArray := bytes.extract (bytes.size / 2) bytes.size

/-- A content is authentic under a key, and it is a text. -/
inductive Authentic (p : Primitives) (key aad : ByteArray) (content : EncryptedContent)
    (text : ByteArray) : ContentEncryptionAlgorithm → Prop
  /-- The tag is the first half of a digest under the first half of the key, and the blocks are
  decrypted under the second half. -/
  | cbcHmac {s : AesSize} (iv : content.iv.size = 16)
      (tag : content.tag = firstHalf (p.hmac s.sha (firstHalf key)
        (aad ++ content.iv ++ content.ciphertext ++ Bytes.ofNat 8 (8 * aad.size))))
      (blocks : p.cbcDecrypt? (secondHalf key) content.iv content.ciphertext = some text) :
      Authentic p key aad content text (.cbcHmac s)
  /-- The text is sealed to it. -/
  | gcm {s : AesSize} (iv : content.iv.size = 12)
      (sealed : p.gcmSeal key content.iv aad text = (content.ciphertext, content.tag)) :
      Authentic p key aad content text (.gcm s)

/-- The size of an initialisation vector. -/
def ivBytes : ContentEncryptionAlgorithm → Nat
  | .cbcHmac _ => 16
  | .gcm _ => 12

/-- The size of a tag. -/
def tagBytes : ContentEncryptionAlgorithm → Nat
  | .cbcHmac s => s.bytes
  | .gcm _ => 16

/-- The tag of chained blocks is the first half of a digest. -/
theorem cbcTag_eq_firstHalf (hsized : p.SizedDigests) (h : key.size = (cbcHmac s).keyBytes)
    (iv ciphertext : ByteArray) :
    cbcTag p s (halves key).1 aad iv ciphertext =
      firstHalf (p.hmac s.sha (firstHalf key)
        (aad ++ iv ++ ciphertext ++ Bytes.ofNat 8 (8 * aad.size))) := by
  have hsize := size_digest hsized h (taggedBytes aad iv ciphertext)
  have hhalf : (p.hmac s.sha (halves key).1 (taggedBytes aad iv ciphertext)).size / 2 =
      (halves key).1.size := by
    omega
  change _ = firstHalf (p.hmac s.sha (halves key).1 (taggedBytes aad iv ciphertext))
  rw [cbcTag, firstHalf, hhalf]

theorem size_cbcTag (hsized : p.SizedDigests) (h : key.size = (cbcHmac s).keyBytes)
    (iv ciphertext : ByteArray) :
    (cbcTag p s (halves key).1 aad iv ciphertext).size = s.bytes := by
  have hsize := size_digest hsized h (taggedBytes aad iv ciphertext)
  rw [cbcTag, ByteArray.size_extract, hsize, ← size_tagKey h]
  omega

theorem authenticated_eq_ok {result : Option ByteArray} :
    authenticated result = .ok text ↔ result = some text := by
  cases result <;> simp [authenticated]

section RightSize

variable (hsized : p.SizedDigests)
include hsized

theorem cbcDecrypt_eq_ok (h : key.size = (cbcHmac s).keyBytes) :
    cbcDecrypt p s key content.iv aad content.ciphertext content.tag = .ok text ↔
      Authentic p key aad content text (.cbcHmac s) := by
  rw [cbcDecrypt]
  dsimp only
  rw [ite_error_eq_ok, authenticated_eq_ok, not_or, not_not, ne_eq, not_not,
    cbcTag_eq_firstHalf hsized h]
  constructor
  · rintro ⟨⟨htag, hiv⟩, hblocks⟩
    exact .cbcHmac hiv htag.symm hblocks
  · rintro ⟨hiv, htag, hblocks⟩
    exact ⟨⟨htag.symm, hiv⟩, hblocks⟩

omit hsized in
theorem gcmDecrypt_eq_ok (hopens : p.OpensExactly) (h : key.size = s.bytes) :
    gcmDecrypt p key content.iv aad content.ciphertext content.tag = .ok text ↔
      Authentic p key aad content text (.gcm s) := by
  rw [gcmDecrypt, ite_error_eq_ok, authenticated_eq_ok, not_or, ne_eq, ne_eq, not_not, not_not]
  constructor
  · rintro ⟨⟨hiv, -⟩, hopen⟩
    exact .gcm hiv ((hopens.opens_iff s key content.iv aad _ _ text h hiv).1 hopen)
  · intro hauthentic
    cases hauthentic with
    | gcm hiv hsealed =>
        have htag := hopens.size_tag s key content.iv aad text h hiv
        rw [hsealed] at htag
        exact ⟨⟨hiv, htag⟩, (hopens.opens_iff s key content.iv aad _ _ text h hiv).2 hsealed⟩

theorem decrypt_eq_ok (hreverses : a.Reverses p) (h : key.size = a.keyBytes) :
    a.decrypt p key aad content = .ok text ↔ Authentic p key aad content text a := by
  have hchecked : checkKeySize a.keyBytes key = .ok () := Jwe.checkKeySize_eq_ok.2 h
  unfold decrypt
  rw [hchecked, ok_bind]
  cases a with
  | cbcHmac s => exact cbcDecrypt_eq_ok hsized h
  | gcm s => exact gcmDecrypt_eq_ok hreverses h

/-- What is authentic has an initialisation vector and a tag of the right sizes. -/
theorem Authentic.sizes (hreverses : a.Reverses p) (h : key.size = a.keyBytes)
    (hauthentic : Authentic p key aad content text a) :
    content.iv.size = a.ivBytes ∧ content.tag.size = a.tagBytes := by
  cases hauthentic with
  | @cbcHmac s hiv htag hblocks =>
      rw [← cbcTag_eq_firstHalf hsized h] at htag
      exact ⟨hiv, htag ▸ size_cbcTag hsized h content.iv content.ciphertext⟩
  | @gcm s hiv hsealed =>
      have htag := hreverses.size_tag s key content.iv aad text h hiv
      rw [hsealed] at htag
      exact ⟨hiv, htag⟩

end RightSize

/-- All else that is decrypted under a key of the right size has one error. -/
theorem decrypt_of_not_ok (h : key.size = a.keyBytes)
    (hnot : ∀ text, a.decrypt p key aad content ≠ .ok text) :
    a.decrypt p key aad content = .error .authenticationFailure := by
  cases hdecrypt : a.decrypt p key aad content with
  | ok text => exact absurd hdecrypt (hnot text)
  | error error =>
      have hother := avoids_decrypt h error hdecrypt
      simp only [isOther, bne_eq_false_iff_eq] at hother
      rw [hother]

/-- A key of another size is told, and nothing else is. -/
theorem checkKeySize_of_ne (h : key.size ≠ a.keyBytes) :
    checkKeySize a.keyBytes key = .error (.invalidKeyLength a.keyBytes key.size) := if_neg h

/-! ### Authenticated encryption -/

/-- What an algorithm does under every key, and with whatever it is given. -/
structure Authenticates (p : Primitives) (a : ContentEncryptionAlgorithm) : Prop where
  /-- A key of another size is told, and nothing else. -/
  wrongKey : ∀ key aad, key.size ≠ a.keyBytes →
    (∀ rng text,
      a.encrypt p rng key aad text = .error (.invalidKeyLength a.keyBytes key.size)) ∧
    ∀ content, a.decrypt p key aad content = .error (.invalidKeyLength a.keyBytes key.size)
  /-- What is encrypted is decrypted under the same key and with the same additional data. -/
  roundTrip : ∀ rng key aad text, key.size = a.keyBytes → ∃ content,
    a.encrypt p rng key aad text = .ok content ∧ a.decrypt p key aad content = .ok text
  /-- What is authentic is decrypted, and nothing else. -/
  opens : ∀ key aad content text, key.size = a.keyBytes →
    (a.decrypt p key aad content = .ok text ↔ Authentic p key aad content text a)
  /-- All else has one error. -/
  refuses : ∀ key aad content, key.size = a.keyBytes →
    (∀ text, ¬ Authentic p key aad content text a) →
    a.decrypt p key aad content = .error .authenticationFailure
  /-- So does what has a tag or an initialisation vector of another size. -/
  resized : ∀ key aad content, key.size = a.keyBytes →
    content.iv.size ≠ a.ivBytes ∨ content.tag.size ≠ a.tagBytes →
    a.decrypt p key aad content = .error .authenticationFailure
  /-- Nothing is reached for out of bounds. -/
  bounded : ∀ rng key aad,
    (∀ text, encryptBounded p rng a key aad text = .within (a.encrypt p rng key aad text)) ∧
    ∀ content, decryptBounded p a key aad content = .within (a.decrypt p key aad content)

/-- Every algorithm authenticates what it encrypts, as far as digests have the size of their
hash, chained blocks are decrypted to what was encrypted, and counter mode opens what it has
sealed and nothing else. -/
theorem authenticates_of_reverses (hsized : p.SizedDigests) (hreverses : a.Reverses p) :
    Authenticates p a := by
  refine ⟨fun key aad h => ⟨fun rng text => ?_, fun content => ?_⟩, fun rng key aad text h => ?_,
    fun key aad content text h => decrypt_eq_ok hsized hreverses h,
    fun key aad content h hnot => ?_, fun key aad content h hresized => ?_,
    fun rng key aad => ⟨fun text => encryptBounded_eq hsized,
      fun content => decryptBounded_eq hsized⟩⟩
  · unfold encrypt
    rw [checkKeySize_of_ne h, error_bind]
  · unfold decrypt
    rw [checkKeySize_of_ne h, error_bind]
  · obtain ⟨content, hencrypt⟩ := Jwe.exists_encrypt h
    exact ⟨content, hencrypt, decrypt_encrypt hreverses.inverts hencrypt⟩
  · refine decrypt_of_not_ok h fun text hdecrypt => ?_
    exact hnot text ((decrypt_eq_ok hsized hreverses h).1 hdecrypt)
  · refine decrypt_of_not_ok h fun text hdecrypt => ?_
    obtain ⟨hiv, htag⟩ :=
      ((decrypt_eq_ok hsized hreverses h).1 hdecrypt).sizes hsized hreverses h
    exact hresized.elim (fun hne => hne hiv) fun hne => hne htag

/-- With the standard operations, digests and both kinds of ciphers are as they have to be. -/
theorem standard_operations_authenticate :
    Primitives.standard.SizedDigests ∧
      ((cbcHmac .aes256).Reverses .standard ∧ Authenticates .standard (cbcHmac .aes256)) ∧
      ((gcm .aes128).Reverses .standard ∧ Authenticates .standard (gcm .aes128)) :=
  ⟨Primitives.standard_sizedDigests,
    ⟨standard_reverses _,
      authenticates_of_reverses Primitives.standard_sizedDigests (standard_reverses _)⟩,
    ⟨standard_reverses _,
      authenticates_of_reverses Primitives.standard_sizedDigests (standard_reverses _)⟩⟩

end ContentEncryptionAlgorithm

end SealedToken
