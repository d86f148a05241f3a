import SealedToken.Proofs.Jwe.Sealing

/-!
Content that was encrypted under a key is decrypted under that key, as far as the ciphers
undo what they did.
-/

namespace SealedToken

/-! ### Ciphers that undo what they did -/

/-- Counter mode gives the text back, and its tags have the size that is asked for. -/
def Primitives.OpensSealed (p : Primitives) : Prop :=
  ∀ (s : AesSize) (key iv aad text : ByteArray), key.size = s.bytes →
    iv.size = ContentEncryptionAlgorithm.gcmIvSize →
    (p.gcmSeal key iv aad text).2.size = ContentEncryptionAlgorithm.gcmTagSize ∧
      p.gcmOpen? key iv aad (p.gcmSeal key iv aad text).1 (p.gcmSeal key iv aad text).2 =
        some text

/-- Chained blocks give the text back. -/
def Primitives.DecryptsBlocks (p : Primitives) : Prop :=
  ∀ (s : AesSize) (key iv text : ByteArray), key.size = s.bytes →
    iv.size = ContentEncryptionAlgorithm.cbcIvSize →
    p.cbcDecrypt? key iv (p.cbcEncrypt key iv text) = some text

namespace ContentEncryptionAlgorithm

variable {p : Primitives} {rng : Entropy} {a : ContentEncryptionAlgorithm}
  {key aad text : ByteArray} {content : EncryptedContent}

/-- The cipher of an algorithm undoes what it did. -/
def Inverts (p : Primitives) : ContentEncryptionAlgorithm → Prop
  | .cbcHmac _ => p.DecryptsBlocks
  | .gcm _ => p.OpensSealed

theorem gcmDecrypt_sealed {s : AesSize} {iv : ByteArray} (h : p.OpensSealed)
    (hkey : key.size = s.bytes) (hiv : iv.size = gcmIvSize) :
    gcmDecrypt p key iv aad (p.gcmSeal key iv aad text).1 (p.gcmSeal key iv aad text).2 =
      .ok text := by
  obtain ⟨htag, hopen⟩ := h s key iv aad text hkey hiv
  rw [gcmDecrypt, if_neg (by simp [hiv, htag]), hopen]
  rfl

theorem cbcDecrypt_encrypted {s : AesSize} {iv : ByteArray} (h : p.DecryptsBlocks)
    (hkey : (halves key).2.size = s.bytes) (hiv : iv.size = cbcIvSize) :
    cbcDecrypt p s key iv aad (p.cbcEncrypt (halves key).2 iv text)
      (cbcTag p s (halves key).1 aad iv (p.cbcEncrypt (halves key).2 iv text)) = .ok text := by
  simp [cbcDecrypt, hiv, h s _ _ _ hkey hiv, authenticated]

theorem size_halves {s : AesSize} (h : key.size = (cbcHmac s).keyBytes) :
    (halves key).2.size = s.bytes := by
  rw [halves, ByteArray.size_extract]
  cases s <;> simp only [keyBytes, keySize, AesSize.bits, AesSize.bytes] at h ⊢ <;> omega

/-- What was encrypted under a key is decrypted under it. -/
theorem decrypt_encrypt (hinverts : a.Inverts p)
    (h : a.encrypt p rng key aad text = .ok content) :
    a.decrypt p key aad content = .ok text := by
  obtain ⟨hsize, h⟩ := seq_eq_ok.1 h
  refine seq_eq_ok.2 ⟨hsize, ?_⟩
  have hkey := Jwe.checkKeySize_eq_ok.1 hsize
  cases a with
  | cbcHmac s =>
      obtain rfl := Except.ok.inj h
      exact cbcDecrypt_encrypted hinverts (size_halves hkey) (rng.size_take _)
  | gcm s =>
      obtain rfl := Except.ok.inj h
      exact gcmDecrypt_sealed hinverts hkey (rng.size_take _)

end ContentEncryptionAlgorithm

end SealedToken
