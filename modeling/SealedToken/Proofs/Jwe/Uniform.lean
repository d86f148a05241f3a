import SealedToken.Proofs.Jwe.Failure
import SealedToken.Proofs.Jwe.Release
import SealedToken.Proofs.KeyManagement.Selection

/-!
The older RSA padding tells nothing. Whatever stands in the encrypted key of a recipient, a
key of the right size comes out of it, so that the decryption of the content is the only
step that can fail behind the check of the private key, and it has a single error. Two
tokens that differ in that key alone therefore fail alike, unless one of them is opened.
-/

namespace SealedToken

variable {p : Primitives} {key : Jwk}

/-! ### Content that is rejected -/

namespace ContentEncryptionAlgorithm

/-- An error that is not the one of an authentication. -/
def isOther (error : Error) : Bool := error != .authenticationFailure

theorem avoids_authenticated {result : Option ByteArray} :
    Avoids isOther (authenticated result) := by
  cases result <;> simp [authenticated, isOther]

/-- Under a key of the right size there is one way in which content is rejected. -/
theorem avoids_decrypt {a : ContentEncryptionAlgorithm} {contentKey aad : ByteArray}
    {content : EncryptedContent} (hsize : contentKey.size = a.keySize / 8) :
    Avoids isOther (a.decrypt p contentKey aad content) := by
  have hchecked : checkKeySize a.keyBytes contentKey = .ok () := Jwe.checkKeySize_eq_ok.2 hsize
  cases a <;>
    simp [decrypt, hchecked, cbcDecrypt, gcmDecrypt, avoids_authenticated, isOther]

end ContentEncryptionAlgorithm

/-! ### Two tokens -/

namespace Jwe

variable {supply other : Recipient → Jwk → Entropy} {t : Jwe} {keys : KeySource}
  {content : EncryptedContent} {r : Recipient}

/-- A token with a single recipient, of a header and an encrypted key. -/
def single (t : Jwe) (header : Option Object) (encryptedKey : ByteArray) : Jwe :=
  { t with recipients := [{ header, encryptedKey }] }

/-- Whatever key of the content a recipient leads to under the keys that are offered for it,
the content is rejected under that key. -/
def Rejects (p : Primitives) (supply : Recipient → Jwk → Entropy) (t : Jwe)
    (keys : KeySource) : Prop :=
  ∀ content r pending key contentKey, t.content = some content → r ∈ t.recipients →
    t.prepare keys r = .ok pending → key ∈ pending.keys →
    pending.management.unwrap p (supply r key) key pending.encryption.keySize r.encryptedKey
      pending.header t.options.limits = .ok contentKey →
    ∀ text, pending.encryption.decrypt p contentKey (contentAad t.protectedText t.aad) content ≠
      .ok text

/-- With the older padding an attempt that opens nothing fails by the private key or by the
content, and the encrypted key has no part in either. -/
theorem attempt_of_rejected {pending : Pending} (hmanagement : pending.management = .rsaPkcs1)
    (hrejected : ∀ contentKey, pending.management.unwrap p (supply r key) key
      pending.encryption.keySize r.encryptedKey pending.header t.options.limits = .ok contentKey →
        ∀ text, pending.encryption.decrypt p contentKey (contentAad t.protectedText t.aad)
          content ≠ .ok text) :
    t.attempt p supply content r pending key =
      (KeyManagementAlgorithm.acceptedRsaPrivate p key >>= fun _ =>
        .error .authenticationFailure) := by
  rw [attempt]
  rw [hmanagement, KeyManagementAlgorithm.unwrap_rsaPkcs1] at *
  cases haccepted : KeyManagementAlgorithm.acceptedRsaPrivate p key with
  | error error => simp [KeyManagementAlgorithm.unwrapRsaPkcs1, haccepted]
  | ok info =>
      obtain ⟨contentKey, hunwrap, hsize⟩ := KeyManagementAlgorithm.exists_unwrapRsaPkcs1 haccepted
        (supply r key) (pending.encryption.keySize / 8) r.encryptedKey
      rw [hunwrap, ok_bind, ok_bind]
      cases hdecrypt : pending.encryption.decrypt p contentKey
        (contentAad t.protectedText t.aad) content with
      | ok text => exact absurd hdecrypt (hrejected contentKey hunwrap text)
      | error error =>
          have hother := ContentEncryptionAlgorithm.avoids_decrypt hsize error hdecrypt
          simpa [ContentEncryptionAlgorithm.isOther] using hother

/-- A recipient with whom every attempt fails. -/
theorem openFor_of_failures (h : ∀ pending, t.prepare keys r = .ok pending →
    ∀ key ∈ pending.keys, ∀ opened, t.attempt p supply content r pending key ≠ .ok opened) :
    ∃ error log, t.openFor p supply content keys r = (.error error, log) := by
  unfold openFor
  split
  · next error herror => exact ⟨error, [], rfl⟩
  · next pending hpending =>
      dsimp only
      split
      · next opened hopened =>
          obtain ⟨key, hkey, hattempt⟩ := tryEach_success hopened
          exact absurd hattempt (h pending hpending key hkey _)
      · exact ⟨_, _, rfl⟩

/-- The outcome for a recipient depends on the encrypted key only through the attempts. -/
theorem openFor_single_congr {header : Option Object} {first second : ByteArray}
    (h : ∀ pending, t.prepare keys ⟨header, first⟩ = .ok pending → ∀ key ∈ pending.keys,
      (t.single header first).attempt p supply content ⟨header, first⟩ pending key =
        (t.single header second).attempt p other content ⟨header, second⟩ pending key) :
    (t.single header first).openFor p supply content keys ⟨header, first⟩ =
      (t.single header second).openFor p other content keys ⟨header, second⟩ := by
  have hfirst : (t.single header first).prepare keys ⟨header, first⟩ =
    t.prepare keys ⟨header, first⟩ := rfl
  have hsecond : (t.single header second).prepare keys ⟨header, second⟩ =
    t.prepare keys ⟨header, first⟩ := rfl
  rw [openFor, openFor, hfirst, hsecond]
  cases hprepare : t.prepare keys ⟨header, first⟩ with
  | error error => rfl
  | ok pending =>
      dsimp only
      rw [tryEach_congr (h pending hprepare)]
      rfl

section Single

variable {header : Option Object} {first second : ByteArray}
  (halg : ∀ merged, t.merged header = .ok merged →
    merged.find? "alg" = some (.str KeyManagementAlgorithm.rsaPkcs1.name))
  (hcontent : t.content = some content)
include halg hcontent

theorem attempt_single (hrejects : Rejects p supply (t.single header first) keys)
    {pending : Pending} (hpending : t.prepare keys ⟨header, first⟩ = .ok pending)
    (hkey : key ∈ pending.keys) :
    (t.single header first).attempt p supply content ⟨header, first⟩ pending key =
      (KeyManagementAlgorithm.acceptedRsaPrivate p key >>= fun _ =>
        .error .authenticationFailure) := by
  obtain ⟨checked, -, -, -, hmanagement, -⟩ := checked_of_prepare hpending
  have hname := checked.managementNamed.name_eq (halg _ checked.merged)
  have hlookup := checked.managementRegistered
  rw [hname, KeyManagementAlgorithm.lookup_name] at hlookup
  refine attempt_of_rejected (hmanagement.trans (Except.ok.inj hlookup).symm) fun contentKey => ?_
  exact hrejects content ⟨header, first⟩ pending key contentKey hcontent (by simp [single])
    hpending hkey

/-- Both tokens fail for their recipient in the same way. -/
theorem openFor_uniform (hfirst : Rejects p supply (t.single header first) keys)
    (hsecond : Rejects p other (t.single header second) keys) :
    ∃ error log,
      (t.single header first).openFor p supply content keys ⟨header, first⟩ = (.error error, log) ∧
      (t.single header second).openFor p other content keys ⟨header, second⟩ =
        (.error error, log) := by
  have hfails : ∃ error log,
      (t.single header first).openFor p supply content keys ⟨header, first⟩ =
        (.error error, log) := by
    refine openFor_of_failures fun pending hpending key hkey opened h => ?_
    rw [attempt_single halg hcontent hfirst hpending hkey] at h
    simp at h
  obtain ⟨error, log, hopen⟩ := hfails
  refine ⟨error, log, hopen, ?_⟩
  rw [← hopen]
  refine (openFor_single_congr fun pending hpending key hkey => ?_).symm
  rw [attempt_single halg hcontent hfirst hpending hkey,
    attempt_single halg hcontent hsecond hpending hkey]

end Single

/-- What a single recipient tells is what the walk tells. -/
theorem openFirst_single {error : Error} {log : List FailedAttempt}
    (h : t.openFor p supply content keys r = (.error error, log)) :
    t.openFirst p supply content keys none [] [r] = (.error error, log) := by
  rw [openFirst, h]
  cases error <;> rfl

/-! ### No oracle -/

/-- The older RSA padding is no oracle. With a private key that is accepted for unwrapping,
any encrypted key gives a key of the content of the right size: what was decrypted, if that
has this size, and the random bytes in every other case; what is copied lies inside the
buffer and inside the key, whichever buffer holds what was decrypted. Therefore two tokens
that differ in the encrypted key of their only recipient fail with one error and one log,
if neither is opened. -/
theorem rsaPkcs1_no_oracle (p : Primitives) :
    (∀ (key : Jwk) (info : List UInt8) (rng : Entropy) (keyBits : Nat)
      (encryptedKey : ByteArray) (header : Object) (limits : PasswordLimits),
      key.rsaPrivate .unwrapKey = .ok info → p.rsaAcceptsDecrypting info = true →
        ∃ contentKey,
          KeyManagementAlgorithm.rsaPkcs1.unwrap p rng key keyBits encryptedKey header limits =
            .ok contentKey ∧
          contentKey.size = keyBits / 8 ∧
          (∀ text, p.rsaDecrypt? .pkcs1 info encryptedKey = some text →
            text.size = keyBits / 8 → contentKey = text) ∧
          ((∀ text, p.rsaDecrypt? .pkcs1 info encryptedKey = some text →
            text.size ≠ keyBits / 8) → contentKey = rng.take (keyBits / 8)) ∧
          ∀ out : Output, out.text? = p.rsaDecrypt? .pkcs1 info encryptedKey →
            out.copied (keyBits / 8) ≤ out.buffer.size ∧
            out.copied (keyBits / 8) ≤ (Bytes.zeros (keyBits / 8)).size ∧
            out.selectKey (keyBits / 8) (rng.take (keyBits / 8)) = contentKey) ∧
    ∀ (t : Jwe) (header : Option Object) (first second : ByteArray) (keys : KeySource)
      (supply other : Recipient → Jwk → Entropy),
      (∀ merged, t.merged header = .ok merged →
        merged.find? "alg" = some (.str KeyManagementAlgorithm.rsaPkcs1.name)) →
      Rejects p supply (t.single header first) keys →
      Rejects p other (t.single header second) keys →
        ∃ error log,
          (t.single header first).decrypt p supply keys =
            (.error error, { t.single header first with plaintext := none, log }) ∧
          (t.single header second).decrypt p other keys =
            (.error error, { t.single header second with plaintext := none, log }) := by
  constructor
  · intro key info rng keyBits encryptedKey header limits hinfo haccepts
    have haccepted := KeyManagementAlgorithm.acceptedRsaPrivate_eq_ok.2 ⟨hinfo, haccepts⟩
    have hkey := KeyManagementAlgorithm.unwrapRsaPkcs1_of_accepted haccepted rng (keyBits / 8)
      encryptedKey
    obtain ⟨contentKey, hunwrap, hsize⟩ :=
      KeyManagementAlgorithm.exists_unwrapRsaPkcs1 haccepted rng (keyBits / 8) encryptedKey
    obtain rfl := Except.ok.inj (hunwrap.symm.trans hkey)
    refine ⟨_, (KeyManagementAlgorithm.unwrap_rsaPkcs1 ..).trans hunwrap, hsize, ?_, ?_, ?_⟩
    · intro text htext hfits
      simp [htext, hfits, Option.filter]
    · intro hmisfits
      rw [Option.filter_eq_none_iff.2 fun text htext => by simpa using hmisfits text htext,
        Option.getD_none]
    · intro out hout
      rw [Bytes.size_zeros, Output.selectKey_eq (rng.size_take _), hout]
      exact ⟨out.copied_le_buffer _, out.copied_le_key _, rfl⟩
  · intro t header first second keys supply other halg hfirst hsecond
    cases hcontent : t.content with
    | none =>
        exact ⟨.invalidOperation .nothingToDecrypt, [], by simp [decrypt, single, hcontent],
          by simp [decrypt, single, hcontent]⟩
    | some content =>
        obtain ⟨error, log, hopen, hopen'⟩ := openFor_uniform halg hcontent hfirst hsecond
        exact ⟨error, log, decrypt_of_openFirst_error hcontent (openFirst_single hopen),
          decrypt_of_openFirst_error hcontent (openFirst_single hopen')⟩

/-- A private key of a modulus and an exponent alone. -/
def bareKey : Jwk where
  material := .rsa ⟨#[0x80] ++ Array.replicate 254 0 ++ #[1]⟩ .empty
    (some ⟨⟨#[1]⟩, .empty, .empty, .empty, .empty, .empty⟩)

/-- A token whose initialisation vector no algorithm takes, without a recipient. -/
def unopenable : Jwe where
  plaintext := none
  protectedHeader := some (.ofMembers [("alg", .str KeyManagementAlgorithm.rsaPkcs1.name),
    ("enc", .str (ContentEncryptionAlgorithm.gcm .aes128).name)])
  sharedHeader := none
  content := some ⟨.empty, .empty, .empty⟩
  options := { allowed := some [KeyManagementAlgorithm.rsaPkcs1.name,
    (ContentEncryptionAlgorithm.gcm .aes128).name] }

theorem rejects_unopenable (encryptedKey : ByteArray) (supply : Recipient → Jwk → Entropy)
    (keys : KeySource) :
    Rejects .standard supply (unopenable.single none encryptedKey) keys := by
  rintro content r pending key contentKey hcontent - - - - text hdecrypt
  obtain rfl := Option.some.inj hcontent
  obtain ⟨-, hdecrypt⟩ := seq_eq_ok.1 hdecrypt
  cases hencryption : pending.encryption <;> rw [hencryption] at hdecrypt <;>
    simp [ContentEncryptionAlgorithm.cbcDecrypt, ContentEncryptionAlgorithm.gcmDecrypt,
      ContentEncryptionAlgorithm.cbcIvSize, ContentEncryptionAlgorithm.gcmIvSize] at hdecrypt

theorem rsaPkcs1_no_oracle_bareKey :
    (∃ contentKey, KeyManagementAlgorithm.rsaPkcs1.unwrap .standard (.ofSeed .empty) bareKey 128
      .empty .empty {} = .ok contentKey ∧ contentKey.size = 16) ∧
    ∃ error log,
      (unopenable.single none .empty).decrypt .standard (fun _ _ => .ofSeed .empty)
          (.single bareKey) =
        (.error error, { unopenable.single none .empty with plaintext := none, log }) ∧
      (unopenable.single none ⟨#[1]⟩).decrypt .standard (fun _ _ => .ofSeed ⟨#[7]⟩)
          (.single bareKey) =
        (.error error, { unopenable.single none ⟨#[1]⟩ with plaintext := none, log }) := by
  constructor
  · obtain ⟨info, hinfo⟩ : ∃ info, bareKey.rsaPrivate .unwrapKey = .ok info := ⟨_, rfl⟩
    have haccepts : Primitives.standard.rsaAcceptsDecrypting info = true := by
      obtain rfl := Except.ok.inj hinfo
      decide +kernel
    obtain ⟨contentKey, hunwrap, hsize, -⟩ := (rsaPkcs1_no_oracle .standard).1 bareKey info
      (.ofSeed .empty) 128 .empty .empty {} hinfo haccepts
    exact ⟨contentKey, hunwrap, hsize⟩
  · refine (rsaPkcs1_no_oracle .standard).2 unopenable none .empty ⟨#[1]⟩ (.single bareKey)
      (fun _ _ => .ofSeed .empty) (fun _ _ => .ofSeed ⟨#[7]⟩) (fun merged hmerged => ?_)
      (rejects_unopenable _ _ _) (rejects_unopenable _ _ _)
    obtain rfl : merged = .ofMembers [("alg", .str KeyManagementAlgorithm.rsaPkcs1.name),
        ("enc", .str (ContentEncryptionAlgorithm.gcm .aes128).name)] :=
      Option.some.inj ((toOption_eq_some.2 hmerged).symm.trans (by decide +kernel))
    decide +kernel

end Jwe

end SealedToken
