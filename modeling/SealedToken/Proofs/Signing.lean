import SealedToken.Proofs.Key.Pair
import SealedToken.Signing

/-!
What was signed with a key is verified with that key, or with its public part, as far as the
operations on keys accept what they sign.
-/

namespace SealedToken

/-! ### Operations that accept what they sign -/

namespace Primitives

variable (p : Primitives)

/-- The members of a public RSA key accept what is signed with the encoded private one. -/
def AcceptsRsa (info : List UInt8) (n e : ByteArray) : Prop :=
  ∀ rng padding h message signature,
    p.rsaSign? rng padding h info message = some signature →
      p.rsaVerify padding h n e message signature = true

/-- A point accepts what is signed with its scalar, and the signatures have the size of the
curve. -/
def AcceptsEcdsa (curve : EllipticCurve) (d x y : ByteArray) : Prop :=
  ∀ rng message signature, p.ecdsaSign? rng curve d x y message = some signature →
    signature.size = 2 * curve.coordinateSize ∧ p.ecdsaVerify curve x y message signature = true

/-- A public member accepts what is signed with the secret that belongs to it. -/
def AcceptsEddsa (d x : ByteArray) : Prop :=
  ∀ message signature, p.eddsaSign? d x message = some signature →
    p.eddsaVerify x message signature = true

end Primitives

namespace Jwk

variable {key own : Jwk} {op : KeyOperation}

/-- A key that verifies for a key: it has the same material, or the public part of it. -/
def VerifiesFor (key own : Jwk) : Prop :=
  key.material = own.material ∨ own.material.public? = some key.material

namespace VerifiesFor

variable (h : key.VerifiesFor own)
include h

theorem oct {k : ByteArray} (hown : own.material = .oct k) : key.material = .oct k := by
  rcases h with hsame | hpublic
  · rw [hsame, hown]
  · rw [hown, KeyMaterial.public?] at hpublic
    simp at hpublic

theorem rsa {n e : ByteArray} {secret : Option RsaSecret} (hown : own.material = .rsa n e secret) :
    ∃ s, key.material = .rsa n e s := by
  rcases h with hsame | hpublic
  · exact ⟨_, hsame.trans hown⟩
  · rw [hown, KeyMaterial.public?] at hpublic
    exact ⟨none, (Option.some.inj hpublic).symm⟩

theorem ec {curve : EllipticCurve} {x y : ByteArray} {secret : Option ByteArray}
    (hown : own.material = .ec curve x y secret) : ∃ d, key.material = .ec curve x y d := by
  rcases h with hsame | hpublic
  · exact ⟨_, hsame.trans hown⟩
  · rw [hown, KeyMaterial.public?] at hpublic
    exact ⟨none, (Option.some.inj hpublic).symm⟩

theorem okp {curve : OctetCurve} {x : ByteArray} {secret : Option ByteArray}
    (hown : own.material = .okp curve x secret) : ∃ d, key.material = .okp curve x d := by
  rcases h with hsame | hpublic
  · exact ⟨_, hsame.trans hown⟩
  · rw [hown, KeyMaterial.public?] at hpublic
    exact ⟨none, (Option.some.inj hpublic).symm⟩

end VerifiesFor

/-! ### What a private key gives -/

theorem rsaPrivate_eq_ok {info : List UInt8} (h : key.rsaPrivate op = .ok info) :
    key.permits op = true ∧ ∃ n e secret, key.material = .rsa n e (some secret) := by
  rw [rsaPrivate, seq_eq_ok, checkOperation_eq_ok_iff] at h
  refine ⟨h.1, ?_⟩
  have hmaterial := h.2
  split at hmaterial
  · next n e secret heq => exact ⟨n, e, secret, heq⟩
  · simp at hmaterial
  · simp [wrongType] at hmaterial

theorem ecPrivate_eq_ok {curve : EllipticCurve} {d x y : ByteArray} :
    key.ecPrivate op = .ok (curve, d, x, y) ↔
      key.permits op = true ∧ key.material = .ec curve x y (some d) := by
  simp only [ecPrivate, bind_eq_ok, Prod.exists, ecPublic_eq_ok]
  constructor
  · rintro ⟨curve', x', y', ⟨hpermits, d', hmaterial⟩, h⟩
    split at h
    · next heq =>
        rw [heq] at hmaterial
        simp_all
    · simp at h
  · rintro ⟨hpermits, hmaterial⟩
    exact ⟨curve, x, y, ⟨hpermits, some d, hmaterial⟩, by rw [hmaterial]; rfl⟩

theorem okpPrivate_eq_ok {curve : OctetCurve} {d x : ByteArray} :
    key.okpPrivate op = .ok (curve, d, x) ↔
      key.permits op = true ∧ key.material = .okp curve x (some d) := by
  simp only [okpPrivate, bind_eq_ok, Prod.exists, okpPublic_eq_ok]
  constructor
  · rintro ⟨curve', x', ⟨hpermits, d', hmaterial⟩, h⟩
    split at h
    · next heq =>
        rw [heq] at hmaterial
        simp_all
    · simp at h
  · rintro ⟨hpermits, hmaterial⟩
    exact ⟨curve, x, ⟨hpermits, some d, hmaterial⟩, by rw [hmaterial]; rfl⟩

end Jwk

namespace SigningAlgorithm

variable {p : Primitives} {rng : Entropy} {a : SigningAlgorithm} {key own : Jwk}
  {message signature : ByteArray}

/-- The operation of an algorithm accepts its own signatures under a private key. Digests
are made once more to be compared, so nothing is asked of them. -/
def AcceptsOwn (p : Primitives) (a : SigningAlgorithm) (own : Jwk) : Prop :=
  match a with
  | .hmac _ | .unsecured => True
  | .rsaPkcs1 _ | .rsaPss _ =>
      ∀ n e secret info, own.material = .rsa n e secret → own.rsaPrivate .sign = .ok info →
        p.AcceptsRsa info n e
  | .ecdsa curve => ∀ d x y, own.material = .ec curve x y (some d) → p.AcceptsEcdsa curve d x y
  | .eddsa => ∀ d x, own.material = .okp .ed25519 x (some d) → p.AcceptsEddsa d x

/-! ### Each kind of signature -/

section

variable (hfor : key.VerifiesFor own) (hpermits : key.permits .verify = true)
include hfor hpermits

theorem verifyRsa_signRsa {padding : Rsa.SignaturePadding} {h : ShaSize}
    (haccepts : ∀ n e secret info, own.material = .rsa n e secret →
      own.rsaPrivate .sign = .ok info → p.AcceptsRsa info n e)
    (hsign : signRsa p rng padding h own message = .ok signature) :
    verifyRsa p padding h key message signature = .ok () := by
  obtain ⟨info, hinfo, hsign⟩ := bind_eq_ok.1 hsign
  obtain ⟨-, hsign⟩ := ite_error_eq_ok.1 hsign
  obtain ⟨-, n, e, secret, hmaterial⟩ := Jwk.rsaPrivate_eq_ok hinfo
  have hsigned : p.rsaSign? rng padding h info message = some signature := by
    split at hsign <;> simp_all
  have hverify := haccepts n e _ info hmaterial hinfo _ _ _ _ _ hsigned
  rw [verifyRsa, Jwk.rsaPublic_eq_ok.2 ⟨hpermits, hfor.rsa hmaterial⟩, ok_bind]
  dsimp only
  rw [hverify]
  rfl

theorem verify_sign_hmac {h : ShaSize}
    (hsign : sign p rng (.hmac h) own message = .ok signature) :
    verify p (.hmac h) key message signature = .ok () := by
  obtain ⟨k, hk, hsign⟩ := bind_eq_ok.1 hsign
  obtain rfl := Except.ok.inj hsign
  have hmaterial := hfor.oct (Jwk.octets_eq_ok.1 hk).2
  have hsame : (p.hmac h k message == p.hmac h k message) = true :=
    beq_self_eq_true (p.hmac h k message).data
  rw [verify, Jwk.octets_eq_ok.2 ⟨hpermits, hmaterial⟩, ok_bind, hsame]
  rfl

theorem verify_sign_ecdsa {curve : EllipticCurve} (haccepts : AcceptsOwn p (.ecdsa curve) own)
    (hsign : sign p rng (.ecdsa curve) own message = .ok signature) :
    verify p (.ecdsa curve) key message signature = .ok () := by
  obtain ⟨⟨found, d, x, y⟩, hprivate, hsign⟩ := bind_eq_ok.1 hsign
  obtain ⟨hcurve, hsign⟩ := seq_eq_ok.1 hsign
  obtain rfl : found = curve := by
    by_contra hne
    simp [checkCurve, hne] at hcurve
  have hsigned : p.ecdsaSign? rng found d x y message = some signature := by
    unfold accepted at hsign
    split at hsign <;> simp_all
  have hmaterial := (Jwk.ecPrivate_eq_ok.1 hprivate).2
  obtain ⟨hsize, hverify⟩ := haccepts d x y hmaterial _ _ _ hsigned
  rw [verify, Jwk.ecPublic_eq_ok.2 ⟨hpermits, hfor.ec hmaterial⟩, ok_bind]
  dsimp only
  rw [hcurve, ok_bind, hsize, hverify, beq_self_eq_true]
  rfl

theorem verify_sign_eddsa (haccepts : AcceptsOwn p .eddsa own)
    (hsign : sign p rng .eddsa own message = .ok signature) :
    verify p .eddsa key message signature = .ok () := by
  obtain ⟨⟨curve, d, x⟩, hprivate, hsign⟩ := bind_eq_ok.1 hsign
  have hmaterial := (Jwk.okpPrivate_eq_ok.1 hprivate).2
  cases curve with
  | x25519 => simp at hsign
  | ed25519 =>
      have hsigned : p.eddsaSign? d x message = some signature := by
        unfold accepted at hsign
        dsimp only at hsign
        split at hsign <;> simp_all
      have hverify := haccepts d x hmaterial _ _ hsigned
      rw [verify, Jwk.okpPublic_eq_ok.2 ⟨hpermits, hfor.okp hmaterial⟩, ok_bind]
      dsimp only
      rw [hverify]
      rfl

omit hpermits in
theorem verify_sign_unsecured
    (hsign : sign p rng .unsecured own message = .ok signature) :
    verify p .unsecured key message signature = .ok () := by
  obtain ⟨hempty, hsign⟩ := seq_eq_ok.1 hsign
  obtain rfl := Except.ok.inj hsign
  have hkey : checkEmptySecret key = .ok () := by
    unfold checkEmptySecret at hempty ⊢
    split at hempty
    · next k hmaterial =>
        rw [hfor.oct hmaterial]
        exact hempty
    · simp at hempty
  rw [verify, hkey]
  rfl

/-- What was signed with a key is verified with it, or with its public part. -/
theorem verify_sign (haccepts : AcceptsOwn p a own)
    (hsign : sign p rng a own message = .ok signature) :
    verify p a key message signature = .ok () := by
  cases a with
  | hmac h => exact verify_sign_hmac hfor hpermits hsign
  | rsaPkcs1 h => exact verifyRsa_signRsa hfor hpermits haccepts hsign
  | rsaPss h => exact verifyRsa_signRsa hfor hpermits haccepts hsign
  | ecdsa curve => exact verify_sign_ecdsa hfor hpermits haccepts hsign
  | eddsa => exact verify_sign_eddsa hfor hpermits haccepts hsign
  | unsecured => exact verify_sign_unsecured hfor hsign

end

end SigningAlgorithm

end SealedToken
