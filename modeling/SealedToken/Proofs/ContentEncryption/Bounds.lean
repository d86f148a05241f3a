import SealedToken.Proofs.ContentEncryption

/-!
Content encryption with an eye on the bounds. Where a byte string is cut, or taken for an
array of a fixed size, it has to be long enough, or of that size; otherwise everything ends
there, without an outcome. It never does: the sizes have been checked by then.
-/

namespace SealedToken

/-! ### Operations that may reach out of bounds -/

/-- An operation that may fail, and that has no outcome at all when it reaches out of
bounds. -/
abbrev Bounded (α : Type) := ExceptT Error Option α

namespace Bounded

variable {α β : Type} {f : α → Bounded β}

/-- A step that stays within bounds. -/
def within (outcome : Except Error α) : Bounded α := ExceptT.mk (some outcome)

/-- A step that takes what has to be there. -/
def take (found : Option α) : Bounded α := ExceptT.lift found

@[simp] theorem within_ok_bind {a : α} : (within (.ok a) >>= f) = f a := rfl

@[simp] theorem take_some_bind {a : α} : (take (some a) >>= f) = f a := rfl

end Bounded

namespace Bytes

variable {bytes : ByteArray} {start stop size : Nat}

/-- The bytes between two places. -/
def slice? (bytes : ByteArray) (start stop : Nat) : Option ByteArray :=
  if start ≤ stop ∧ stop ≤ bytes.size then some (bytes.extract start stop) else none

/-- The bytes before a place, and those from there on. -/
def splitAt? (bytes : ByteArray) (place : Nat) : Option (ByteArray × ByteArray) :=
  if place ≤ bytes.size then some (bytes.extract 0 place, bytes.extract place bytes.size)
  else none

/-- The bytes as an array of a fixed size. -/
def ofSize? (bytes : ByteArray) (size : Nat) : Option ByteArray :=
  if bytes.size = size then some bytes else none

theorem slice?_eq (hstart : start ≤ stop) (hstop : stop ≤ bytes.size) :
    slice? bytes start stop = some (bytes.extract start stop) :=
  if_pos ⟨hstart, hstop⟩

theorem ofSize?_eq (h : bytes.size = size) : ofSize? bytes size = some bytes := if_pos h

end Bytes

/-! ### Content encryption step by step -/

/-- Keyed digests have the size of their hash. -/
def Primitives.SizedDigests (p : Primitives) : Prop :=
  ∀ (h : ShaSize) (key message : ByteArray), (p.hmac h key message).size = h.bytes

namespace ContentEncryptionAlgorithm

variable {p : Primitives} {rng : Entropy} {a : ContentEncryptionAlgorithm} {s : AesSize}
  {key aad iv text ciphertext tag : ByteArray} {content : EncryptedContent}

/-- The size of the keys of the cipher that is chosen for a key: the greatest one, where there is
no cipher for the key. -/
def cipherBytes (key : ByteArray) : Nat :=
  if key.size = 16 then 16 else if key.size = 24 then 24 else 32

/-- The digest is cut to the size of its key. -/
def cbcTagBounded (p : Primitives) (s : AesSize) (key aad iv ciphertext : ByteArray) :
    Bounded ByteArray :=
  .take (Bytes.slice? (p.hmac s.sha key (taggedBytes aad iv ciphertext)) 0 key.size)

def cbcEncryptBounded (p : Primitives) (key iv text : ByteArray) : Bounded ByteArray := do
  let key ← .take (Bytes.ofSize? key (cipherBytes key))
  let iv ← .take (Bytes.ofSize? iv cbcIvSize)
  pure (p.cbcEncrypt key iv text)

def cbcDecryptBounded (p : Primitives) (key iv ciphertext : ByteArray) : Bounded ByteArray := do
  let key ← .take (Bytes.ofSize? key (cipherBytes key))
  let iv ← .take (Bytes.ofSize? iv cbcIvSize)
  .within (authenticated (p.cbcDecrypt? key iv ciphertext))

/-- There is a cipher for the key. -/
def checkCipher (key : ByteArray) : Except Error Unit :=
  if key.size = cipherBytes key then .ok () else .error (.invalidKeyLength 32 key.size)

def gcmSealBounded (p : Primitives) (key iv aad text : ByteArray) :
    Bounded (ByteArray × ByteArray) := do
  .within (checkCipher key)
  let iv ← .take (Bytes.ofSize? iv gcmIvSize)
  pure (p.gcmSeal key iv aad text)

def gcmDecryptBounded (p : Primitives) (key iv aad ciphertext tag : ByteArray) :
    Bounded ByteArray := do
  if iv.size ≠ gcmIvSize ∨ tag.size ≠ gcmTagSize then .within (.error .authenticationFailure)
  else
    .within (checkCipher key)
    let iv ← .take (Bytes.ofSize? iv gcmIvSize)
    let tag ← .take (Bytes.ofSize? tag gcmTagSize)
    .within (authenticated (p.gcmOpen? key iv aad ciphertext tag))

def encryptBounded (p : Primitives) (rng : Entropy) (a : ContentEncryptionAlgorithm)
    (key aad text : ByteArray) : Bounded EncryptedContent := do
  .within (checkKeySize a.keyBytes key)
  match a with
  | .cbcHmac s =>
      let (tagKey, blockKey) ← .take (Bytes.splitAt? key (key.size / 2))
      let iv := rng.take cbcIvSize
      let ciphertext ← cbcEncryptBounded p blockKey iv text
      let tag ← cbcTagBounded p s tagKey aad iv ciphertext
      pure ⟨iv, ciphertext, tag⟩
  | .gcm _ =>
      let iv := rng.take gcmIvSize
      let (ciphertext, tag) ← gcmSealBounded p key iv aad text
      pure ⟨iv, ciphertext, tag⟩

def decryptBounded (p : Primitives) (a : ContentEncryptionAlgorithm) (key aad : ByteArray)
    (content : EncryptedContent) : Bounded ByteArray := do
  .within (checkKeySize a.keyBytes key)
  match a with
  | .cbcHmac s =>
      let (tagKey, blockKey) ← .take (Bytes.splitAt? key (key.size / 2))
      let expected ← cbcTagBounded p s tagKey aad content.iv content.ciphertext
      if expected ≠ content.tag then .within (.error .authenticationFailure)
      else if content.iv.size ≠ cbcIvSize then .within (.error .authenticationFailure)
      else cbcDecryptBounded p blockKey content.iv content.ciphertext
  | .gcm _ => gcmDecryptBounded p key content.iv aad content.ciphertext content.tag

/-! ### The sizes -/

theorem size_tagKey (h : key.size = (cbcHmac s).keyBytes) :
    (halves key).1.size = s.bytes := by
  rw [halves, ByteArray.size_extract]
  cases s <;> simp only [keyBytes, keySize, AesSize.bits, AesSize.bytes] at h ⊢ <;> omega

/-- The key of a tag is half as long as the digest that the tag is cut from. -/
theorem size_digest (hsized : p.SizedDigests) (h : key.size = (cbcHmac s).keyBytes)
    (message : ByteArray) :
    (p.hmac s.sha (halves key).1 message).size = 2 * (halves key).1.size := by
  rw [hsized, size_tagKey h]
  cases s <;> rfl

theorem splitAt?_half : Bytes.splitAt? key (key.size / 2) = some (halves key) :=
  if_pos (Nat.div_le_self _ _)

/-- There is a cipher for every key of the right size. -/
theorem cipherBytes_eq (h : key.size = s.bytes) : cipherBytes key = key.size := by
  rw [cipherBytes, h]
  cases s <;> rfl

theorem cbcTagBounded_eq (hsized : p.SizedDigests) (h : key.size = (cbcHmac s).keyBytes) :
    cbcTagBounded p s (halves key).1 aad iv ciphertext =
      .within (.ok (cbcTag p s (halves key).1 aad iv ciphertext)) := by
  have hsize := size_digest hsized h (taggedBytes aad iv ciphertext)
  rw [cbcTagBounded, Bytes.slice?_eq (Nat.zero_le _) (by omega)]
  rfl

theorem cbcEncryptBounded_eq (hkey : key.size = s.bytes) (hiv : iv.size = cbcIvSize) :
    cbcEncryptBounded p key iv text = .within (.ok (p.cbcEncrypt key iv text)) := by
  rw [cbcEncryptBounded, Bytes.ofSize?_eq (cipherBytes_eq hkey).symm, Bytes.ofSize?_eq hiv]
  rfl

theorem cbcDecryptBounded_eq (hkey : key.size = s.bytes) (hiv : iv.size = cbcIvSize) :
    cbcDecryptBounded p key iv ciphertext =
      .within (authenticated (p.cbcDecrypt? key iv ciphertext)) := by
  rw [cbcDecryptBounded, Bytes.ofSize?_eq (cipherBytes_eq hkey).symm, Bytes.ofSize?_eq hiv]
  rfl

theorem checkCipher_eq_ok (hkey : key.size = s.bytes) : checkCipher key = .ok () :=
  if_pos (cipherBytes_eq hkey).symm

theorem gcmSealBounded_eq (hkey : key.size = s.bytes) (hiv : iv.size = gcmIvSize) :
    gcmSealBounded p key iv aad text = .within (.ok (p.gcmSeal key iv aad text)) := by
  rw [gcmSealBounded, checkCipher_eq_ok hkey, Bytes.ofSize?_eq hiv]
  rfl

theorem gcmDecryptBounded_eq (hkey : key.size = s.bytes) :
    gcmDecryptBounded p key iv aad ciphertext tag =
      .within (gcmDecrypt p key iv aad ciphertext tag) := by
  rw [gcmDecryptBounded, gcmDecrypt]
  split
  · rfl
  · next hsizes =>
      simp only [not_or, ne_eq, not_not] at hsizes
      rw [checkCipher_eq_ok hkey, Bytes.ofSize?_eq hsizes.1, Bytes.ofSize?_eq hsizes.2]
      rfl

/-! ### Nothing is out of bounds -/

theorem encryptBounded_eq (hsized : p.SizedDigests) :
    encryptBounded p rng a key aad text = .within (a.encrypt p rng key aad text) := by
  unfold encryptBounded encrypt
  cases hchecked : checkKeySize a.keyBytes key with
  | error error => rfl
  | ok _ =>
      have hkey := Jwe.checkKeySize_eq_ok.1 hchecked
      cases a with
      | cbcHmac s =>
          rw [Bounded.within_ok_bind, ok_bind, splitAt?_half]
          dsimp only
          rw [Bounded.take_some_bind, cbcEncryptBounded_eq (size_halves hkey) (rng.size_take _),
            Bounded.within_ok_bind, cbcTagBounded_eq hsized hkey]
          rfl
      | gcm s =>
          rw [Bounded.within_ok_bind]
          dsimp only
          rw [gcmSealBounded_eq hkey (rng.size_take _)]
          rfl

theorem decryptBounded_eq (hsized : p.SizedDigests) :
    decryptBounded p a key aad content = .within (a.decrypt p key aad content) := by
  unfold decryptBounded decrypt
  cases hchecked : checkKeySize a.keyBytes key with
  | error error => rfl
  | ok _ =>
      have hkey := Jwe.checkKeySize_eq_ok.1 hchecked
      cases a with
      | cbcHmac s =>
          rw [Bounded.within_ok_bind, ok_bind, splitAt?_half]
          dsimp only
          rw [Bounded.take_some_bind, cbcTagBounded_eq hsized hkey, Bounded.within_ok_bind,
            cbcDecrypt]
          dsimp only
          by_cases htag : cbcTag p s (halves key).1 aad content.iv content.ciphertext = content.tag
          · by_cases hiv : content.iv.size = cbcIvSize
            · rw [if_neg (by simp [htag]), if_neg (by simp [hiv]), if_neg (by simp [htag, hiv]),
                cbcDecryptBounded_eq (size_halves hkey) hiv]
            · rw [if_neg (by simp [htag]), if_pos hiv, if_pos (.inr hiv)]
          · rw [if_pos htag, if_pos (.inl htag)]
      | gcm s =>
          rw [Bounded.within_ok_bind]
          dsimp only
          rw [gcmDecryptBounded_eq hkey]
          rfl

end ContentEncryptionAlgorithm

end SealedToken
