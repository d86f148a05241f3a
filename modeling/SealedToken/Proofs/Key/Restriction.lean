import SealedToken.KeyManagement.Basic
import SealedToken.Primitives.Standard
import SealedToken.Proofs.KeyManagement.Recovery
import SealedToken.Proofs.Signing

/-!
What a key can be used for. Every algorithm gets at the material of a key through one of the
functions that check the restrictions of the key and its family first, so that an operation
which succeeds was permitted, by the intended use as well as by the list of operations, and had
a key of the kind that its algorithm needs. In particular nothing but a secret serves as one:
what is published of a key pair never verifies a digest and never wraps a key.

What an operation needs is said by tables (`operation`, `kinds`, `needsPrivate`) that do not look
at how the operation is done. Then it is shown of each accessor what a key has that gets through
it, and of each operation through which of them it goes.
-/

namespace SealedToken

/-! ### What an operation needs -/

/-- The kind of a key: its family, and the curve where there is one. -/
inductive KeyKind
  | oct
  | rsa
  | ec (curve : EllipticCurve)
  | okp (curve : OctetCurve)
  deriving DecidableEq, Repr

def KeyMaterial.kind : KeyMaterial → KeyKind
  | .oct _ => .oct
  | .rsa .. => .rsa
  | .ec curve .. => .ec curve
  | .okp curve .. => .okp curve

def KeyKind.type : KeyKind → KeyType
  | .oct => .oct
  | .rsa => .rsa
  | .ec _ => .ec
  | .okp _ => .okp

theorem KeyMaterial.type_kind (m : KeyMaterial) : m.kind.type = m.type := by
  cases m <;> rfl

/-- The kinds of keys that an algorithm signs and verifies with. -/
def SigningAlgorithm.kinds : SigningAlgorithm → List KeyKind
  | .hmac _ | .unsecured => [.oct]
  | .rsaPkcs1 _ | .rsaPss _ => [.rsa]
  | .ecdsa curve => [.ec curve]
  | .eddsa => [.okp .ed25519]

namespace KeyManagementAlgorithm

/-- The kinds of keys that belong to a recipient. -/
def kinds : KeyManagementAlgorithm → List KeyKind
  | .direct | .aesKeyWrap _ | .aesGcmKeyWrap _ | .pbes2 _ => [.oct]
  | .rsaPkcs1 | .rsaOaep | .rsaOaep256 => [.rsa]
  | .ecdhEs _ => [.ec .p256, .ec .p384, .ec .p521, .okp .x25519]

/-- What the key that a sender has of a recipient has to permit. -/
def wrapOperation : KeyManagementAlgorithm → KeyOperation
  | .direct => .encrypt
  | .ecdhEs _ => .deriveKey
  | _ => .wrapKey

end KeyManagementAlgorithm

/-- What can be done with a key. -/
inductive KeyCall
  | sign (a : SigningAlgorithm) (message : ByteArray)
  | verify (a : SigningAlgorithm) (message signature : ByteArray)
  | wrap (a : KeyManagementAlgorithm) (keyBits : Nat) (held : Option ByteArray)
      (header : Object) (limits : PasswordLimits)
  | unwrap (a : KeyManagementAlgorithm) (keyBits : Nat) (encryptedKey : ByteArray)
      (header : Object) (limits : PasswordLimits)

namespace KeyCall

def succeeds (p : Primitives) (rng : Entropy) (key : Jwk) : KeyCall → Bool
  | .sign a message => (a.sign p rng key message).isOk
  | .verify a message signature => (a.verify p key message signature).isOk
  | .wrap a keyBits held header limits => (a.wrap p rng key keyBits held header limits).isOk
  | .unwrap a keyBits encryptedKey header limits =>
      (a.unwrap p rng key keyBits encryptedKey header limits).isOk

/-- The operation that the restrictions of the key have to permit. -/
def operation : KeyCall → KeyOperation
  | .sign .. => .sign
  | .verify .. => .verify
  | .wrap a .. => a.wrapOperation
  | .unwrap a .. => a.recoveryOperation

def kinds : KeyCall → List KeyKind
  | .sign a .. | .verify a .. => a.kinds
  | .wrap a .. | .unwrap a .. => a.kinds

/-- Does it take what only the owner of the key has? Secrets are private as a whole. -/
def needsPrivate : KeyCall → Bool
  | .sign .. | .unwrap .. => true
  | .verify .. | .wrap .. => false

/-- Is it for the algorithm without any signature? -/
def isUnsecured : KeyCall → Bool
  | .sign a .. | .verify a .. => a == .unsecured
  | .wrap .. | .unwrap .. => false

end KeyCall

/-- A key that may be used for an operation, and can be. -/
structure Jwk.Serves (key : Jwk) (op : KeyOperation) (kinds : List KeyKind)
    (needsPrivate : Bool) : Prop where
  use : ∀ use, key.use = some use → use.permits op = true
  operations : ∀ operations, key.operations = some operations → op ∈ operations
  kind : key.material.kind ∈ kinds
  hasPrivate : needsPrivate = true → key.hasPrivate = true

/-! ### What gets through the accessors -/

namespace Jwk

variable {key : Jwk} {op : KeyOperation} {kinds : List KeyKind} {needsPrivate : Bool}

theorem permits_eq_true :
    key.permits op = true ↔ (∀ use, key.use = some use → use.permits op = true) ∧
      ∀ operations, key.operations = some operations → op ∈ operations := by
  simp [permits, Option.all_eq_true]

theorem Serves.of_permits (hpermits : key.permits op = true) (hkind : key.material.kind ∈ kinds)
    (hprivate : key.hasPrivate = true) : key.Serves op kinds needsPrivate where
  use := (permits_eq_true.1 hpermits).1
  operations := (permits_eq_true.1 hpermits).2
  kind := hkind
  hasPrivate _ := hprivate

theorem Serves.of_public (hpermits : key.permits op = true) (hkind : key.material.kind ∈ kinds) :
    key.Serves op kinds false where
  use := (permits_eq_true.1 hpermits).1
  operations := (permits_eq_true.1 hpermits).2
  kind := hkind
  hasPrivate := nofun

theorem serves_of_octets {k : ByteArray} (h : key.octets op = .ok k) :
    key.Serves op [.oct] needsPrivate := by
  obtain ⟨hpermits, hmaterial⟩ := octets_eq_ok.1 h
  exact .of_permits hpermits (by simp [hmaterial, KeyMaterial.kind])
    (by simp [hasPrivate, hmaterial, KeyMaterial.hasPrivate])

theorem serves_of_rsaPublic {n e : ByteArray} (h : key.rsaPublic op = .ok (n, e)) :
    key.Serves op [.rsa] false := by
  obtain ⟨hpermits, secret, hmaterial⟩ := rsaPublic_eq_ok.1 h
  exact .of_public hpermits (by simp [hmaterial, KeyMaterial.kind])

theorem serves_of_rsaPrivate {info : List UInt8} (h : key.rsaPrivate op = .ok info) :
    key.Serves op [.rsa] true := by
  obtain ⟨hpermits, n, e, secret, hmaterial⟩ := rsaPrivate_eq_ok h
  exact .of_permits hpermits (by simp [hmaterial, KeyMaterial.kind])
    (by simp [hasPrivate, hmaterial, KeyMaterial.hasPrivate])

theorem serves_of_ecPublic {curve : EllipticCurve} {x y : ByteArray}
    (h : key.ecPublic op = .ok (curve, x, y)) : key.Serves op [.ec curve] false := by
  obtain ⟨hpermits, d, hmaterial⟩ := ecPublic_eq_ok.1 h
  exact .of_public hpermits (by simp [hmaterial, KeyMaterial.kind])

theorem serves_of_ecPrivate {curve : EllipticCurve} {d x y : ByteArray}
    (h : key.ecPrivate op = .ok (curve, d, x, y)) : key.Serves op [.ec curve] true := by
  obtain ⟨hpermits, hmaterial⟩ := ecPrivate_eq_ok.1 h
  exact .of_permits hpermits (by simp [hmaterial, KeyMaterial.kind])
    (by simp [hasPrivate, hmaterial, KeyMaterial.hasPrivate])

theorem serves_of_okpPublic {curve : OctetCurve} {x : ByteArray}
    (h : key.okpPublic op = .ok (curve, x)) : key.Serves op [.okp curve] false := by
  obtain ⟨hpermits, d, hmaterial⟩ := okpPublic_eq_ok.1 h
  exact .of_public hpermits (by simp [hmaterial, KeyMaterial.kind])

theorem serves_of_okpPrivate {curve : OctetCurve} {d x : ByteArray}
    (h : key.okpPrivate op = .ok (curve, d, x)) : key.Serves op [.okp curve] true := by
  obtain ⟨hpermits, hmaterial⟩ := okpPrivate_eq_ok.1 h
  exact .of_permits hpermits (by simp [hmaterial, KeyMaterial.kind])
    (by simp [hasPrivate, hmaterial, KeyMaterial.hasPrivate])

end Jwk

/-! ### Signatures -/

namespace SigningAlgorithm

variable {p : Primitives} {rng : Entropy} {a : SigningAlgorithm} {key : Jwk}
  {message signature : ByteArray}

theorem checkCurve_eq_ok {required found : EllipticCurve} :
    a.checkCurve required found = .ok () ↔ found = required := by
  unfold checkCurve
  split <;> simp_all

theorem serves_of_sign (ha : a ≠ .unsecured) (h : a.sign p rng key message = .ok signature) :
    key.Serves .sign a.kinds true := by
  cases a with
  | hmac =>
      obtain ⟨k, hk, -⟩ := bind_eq_ok.1 h
      exact Jwk.serves_of_octets hk
  | rsaPkcs1 | rsaPss =>
      obtain ⟨info, hinfo, -⟩ := bind_eq_ok.1 h
      exact Jwk.serves_of_rsaPrivate hinfo
  | ecdsa =>
      obtain ⟨⟨found, d, x, y⟩, hmembers, h⟩ := bind_eq_ok.1 h
      obtain rfl := checkCurve_eq_ok.1 (seq_eq_ok.1 h).1
      exact Jwk.serves_of_ecPrivate hmembers
  | eddsa =>
      obtain ⟨⟨found, d, x⟩, hmembers, h⟩ := bind_eq_ok.1 h
      cases found with
      | ed25519 => exact Jwk.serves_of_okpPrivate hmembers
      | x25519 => simp at h
  | unsecured => exact absurd rfl ha

theorem serves_of_verify (ha : a ≠ .unsecured) (h : a.verify p key message signature = .ok ()) :
    key.Serves .verify a.kinds false := by
  cases a with
  | hmac =>
      obtain ⟨k, hk, -⟩ := bind_eq_ok.1 h
      exact Jwk.serves_of_octets hk
  | rsaPkcs1 | rsaPss =>
      obtain ⟨⟨n, e⟩, hmembers, -⟩ := bind_eq_ok.1 h
      exact Jwk.serves_of_rsaPublic hmembers
  | ecdsa =>
      obtain ⟨⟨found, x, y⟩, hmembers, h⟩ := bind_eq_ok.1 h
      obtain rfl := checkCurve_eq_ok.1 (seq_eq_ok.1 h).1
      exact Jwk.serves_of_ecPublic hmembers
  | eddsa =>
      obtain ⟨⟨found, x⟩, hmembers, h⟩ := bind_eq_ok.1 h
      cases found with
      | ed25519 => exact Jwk.serves_of_okpPublic hmembers
      | x25519 => simp at h
  | unsecured => exact absurd rfl ha

end SigningAlgorithm

/-! ### Key management -/

namespace KeyManagementAlgorithm

variable {p : Primitives} {rng : Entropy} {a : KeyManagementAlgorithm} {key : Jwk}
  {keyBits : Nat} {held : Option ByteArray} {header : Object} {limits : PasswordLimits}
  {needsPrivate : Bool}

theorem serves_of_sizedSecret {s : AesSize} {op : KeyOperation} {k : ByteArray}
    (h : sizedSecret s key op = .ok k) : key.Serves op [.oct] needsPrivate := by
  obtain ⟨k', hk, -⟩ := bind_eq_ok.1 h
  exact Jwk.serves_of_octets hk

section Agreement

variable {curve : AgreementCurve} {inner : Option AesSize} {member : ByteArray}

/-- A key on a curve of agreement. Which of them are supported is not checked of the key but of
the curve, and at another place. -/
theorem kind_of_ofKey (hcurve : AgreementCurve.ofKey key = .ok curve)
    (hsupported : curve.checkSupported = .ok ()) : key.material.kind ∈ (ecdhEs inner).kinds := by
  unfold AgreementCurve.ofKey at hcurve
  split at hcurve
  · next c x y d hmaterial =>
      obtain rfl := Except.ok.inj hcurve
      rw [hmaterial]
      cases c with
      | p256 | p384 | p521 => simp [KeyMaterial.kind, kinds]
      | secp256k1 => simp [AgreementCurve.checkSupported, AgreementCurve.isSupported] at hsupported
  · next x d hmaterial => simp [hmaterial, KeyMaterial.kind, kinds]
  · simp at hcurve

theorem permits_of_publicMember (h : curve.publicMember key = .ok member) :
    key.permits .deriveKey = true := by
  cases curve with
  | ec c =>
      obtain ⟨⟨c', x, y⟩, hmembers, -⟩ := bind_eq_ok.1 h
      exact (Jwk.ecPublic_eq_ok.1 hmembers).1
  | x25519 =>
      obtain ⟨⟨c', x⟩, hmembers, -⟩ := bind_eq_ok.1 h
      exact (Jwk.okpPublic_eq_ok.1 hmembers).1

theorem permits_of_privateMember (h : curve.privateMember key = .ok member) :
    key.permits .deriveKey = true ∧ key.hasPrivate = true := by
  cases curve with
  | ec c =>
      obtain ⟨⟨c', d, x, y⟩, hmembers, -⟩ := bind_eq_ok.1 h
      obtain ⟨hpermits, hmaterial⟩ := Jwk.ecPrivate_eq_ok.1 hmembers
      exact ⟨hpermits, by simp [Jwk.hasPrivate, hmaterial, KeyMaterial.hasPrivate]⟩
  | x25519 =>
      obtain ⟨⟨c', d, x⟩, hmembers, -⟩ := bind_eq_ok.1 h
      obtain ⟨hpermits, hmaterial⟩ := Jwk.okpPrivate_eq_ok.1 hmembers
      exact ⟨hpermits, by simp [Jwk.hasPrivate, hmaterial, KeyMaterial.hasPrivate]⟩

theorem serves_of_agree {derived : ByteArray} {added : Object}
    (h : agree p rng a key keyBits header = .ok (derived, added)) :
    key.Serves .deriveKey (ecdhEs inner).kinds false := by
  obtain ⟨curve, peer, point, hcurve, hpeer, hsupported, -⟩ := exists_of_agree h
  exact .of_public (permits_of_publicMember hpeer) (kind_of_ofKey hcurve hsupported)

theorem serves_of_deriveReceived {derived : ByteArray}
    (h : deriveReceived p a key keyBits header = .ok derived) :
    key.Serves .deriveKey (ecdhEs inner).kinds true := by
  simp only [deriveReceived, bind_eq_ok] at h
  obtain ⟨curve, hcurve, _, -, ephemeral, -, h⟩ := h
  split at h
  · simp at h
  · simp only [AgreementCurve.operableMember, bind_eq_ok] at h
    obtain ⟨_, ⟨member, hmember, _, hsupported, -⟩, -⟩ := h
    obtain ⟨hpermits, hprivate⟩ := permits_of_privateMember hmember
    exact .of_permits hpermits (kind_of_ofKey hcurve hsupported) hprivate

end Agreement

theorem serves_of_wrap {wrapped : WrappedKey}
    (h : a.wrap p rng key keyBits held header limits = .ok wrapped) :
    key.Serves a.wrapOperation a.kinds false := by
  cases a with
  | direct =>
      obtain ⟨-, h⟩ := seq_eq_ok.1 h
      obtain ⟨k, hk, -⟩ := bind_eq_ok.1 h
      exact Jwk.serves_of_octets hk
  | rsaPkcs1 | rsaOaep | rsaOaep256 =>
      obtain ⟨contentKey, -, h⟩ := bind_eq_ok.1 h
      obtain ⟨⟨n, e⟩, hmembers, -⟩ := bind_eq_ok.1 h
      exact Jwk.serves_of_rsaPublic hmembers
  | aesKeyWrap s | aesGcmKeyWrap s =>
      obtain ⟨kek, hkek, -⟩ := bind_eq_ok.1 h
      exact serves_of_sizedSecret hkek
  | pbes2 s =>
      simp only [wrap, wrapPassword, bind_eq_ok] at h
      obtain ⟨_, -, _, -, password, hpassword, -⟩ := h
      exact Jwk.serves_of_octets hpassword
  | ecdhEs inner =>
      cases inner with
      | none =>
          obtain ⟨-, h⟩ := seq_eq_ok.1 h
          obtain ⟨⟨derived, added⟩, hagree, -⟩ := bind_eq_ok.1 h
          exact serves_of_agree hagree
      | some s =>
          obtain ⟨⟨kek, added⟩, hagree, -⟩ := bind_eq_ok.1 h
          exact serves_of_agree hagree

theorem serves_of_unwrap {encryptedKey contentKey : ByteArray}
    (h : a.unwrap p rng key keyBits encryptedKey header limits = .ok contentKey) :
    key.Serves a.recoveryOperation a.kinds true := by
  obtain ⟨recovered, h, -⟩ := bind_eq_ok.1 h
  cases a with
  | direct =>
      obtain ⟨-, hk⟩ := seq_eq_ok.1 h
      exact Jwk.serves_of_octets hk
  | rsaPkcs1 | rsaOaep | rsaOaep256 =>
      obtain ⟨info, haccepted, -⟩ := bind_eq_ok.1 h
      exact Jwk.serves_of_rsaPrivate (acceptedRsaPrivate_eq_ok.1 haccepted).1
  | aesKeyWrap s | aesGcmKeyWrap s =>
      obtain ⟨kek, hkek, -⟩ := bind_eq_ok.1 h
      exact serves_of_sizedSecret hkek
  | pbes2 s =>
      simp only [recover, bind_eq_ok] at h
      obtain ⟨_, -, password, hpassword, -⟩ := h
      exact Jwk.serves_of_octets hpassword
  | ecdhEs inner =>
      cases inner with
      | none =>
          obtain ⟨-, hderived⟩ := seq_eq_ok.1 h
          exact serves_of_deriveReceived hderived
      | some s =>
          obtain ⟨kek, hderived, -⟩ := bind_eq_ok.1 h
          exact serves_of_deriveReceived hderived

end KeyManagementAlgorithm

/-! ### Any of them -/

section Calls

variable {p : Primitives} {rng : Entropy} {key : Jwk} {call : KeyCall}

theorem serves_of_succeeds (hsecured : call.isUnsecured = false)
    (h : call.succeeds p rng key = true) :
    key.Serves call.operation call.kinds call.needsPrivate := by
  cases call with
  | sign a message =>
      obtain ⟨signature, h⟩ := isOk_iff.1 h
      exact SigningAlgorithm.serves_of_sign (by simpa [KeyCall.isUnsecured] using hsecured) h
  | verify a message signature =>
      obtain ⟨⟨⟩, h⟩ := isOk_iff.1 h
      exact SigningAlgorithm.serves_of_verify (by simpa [KeyCall.isUnsecured] using hsecured) h
  | wrap a keyBits held header limits =>
      obtain ⟨wrapped, h⟩ := isOk_iff.1 h
      exact KeyManagementAlgorithm.serves_of_wrap h
  | unwrap a keyBits encryptedKey header limits =>
      obtain ⟨contentKey, h⟩ := isOk_iff.1 h
      exact KeyManagementAlgorithm.serves_of_unwrap h

/-- An algorithm that takes secrets takes no other kind of key. -/
theorem KeyCall.kinds_of_oct (h : .oct ∈ call.kinds) : call.kinds = [.oct] := by
  cases call with
  | sign a | verify a => cases a <;> simp_all [kinds, SigningAlgorithm.kinds]
  | wrap a | unwrap a => cases a <;> simp_all [kinds, KeyManagementAlgorithm.kinds]

/-- Whatever is done with a key and succeeds, other than without any signature: its intended use
and its list of operations permit it, it is of a kind that the algorithm takes, and it has a
private part where one is needed. Where a secret is taken it is nothing but a secret. -/
theorem restrictions_never_bypassed (hsecured : call.isUnsecured = false)
    (h : call.succeeds p rng key = true) :
    key.Serves call.operation call.kinds call.needsPrivate ∧
      (.oct ∈ call.kinds → key.type = .oct) := by
  have hserves := serves_of_succeeds hsecured h
  refine ⟨hserves, fun hoct => ?_⟩
  have hkind := hserves.kind
  rw [KeyCall.kinds_of_oct hoct, List.mem_singleton] at hkind
  rw [Jwk.type, ← KeyMaterial.type_kind, hkind]
  rfl

end Calls

/-- A key that is restricted both by its intended use and by its operations. -/
def contentKeyOnly : Jwk where
  material := .oct ⟨Array.replicate 16 7⟩
  use := some .encryption
  operations := some [.unwrapKey, .decrypt]

theorem contentKeyOnly_decrypts :
    (KeyCall.unwrap .direct 128 .empty .empty {}).isUnsecured = false ∧
      (KeyCall.unwrap .direct 128 .empty .empty {}).succeeds .standard (.ofSeed .empty)
        contentKeyOnly = true ∧
      contentKeyOnly.Serves .decrypt [.oct] true ∧ contentKeyOnly.type = .oct := by
  have hsucceeds : (KeyCall.unwrap .direct 128 .empty .empty {}).succeeds .standard
      (.ofSeed .empty) contentKeyOnly = true := by decide
  obtain ⟨hserves, htype⟩ := restrictions_never_bypassed rfl hsucceeds
  exact ⟨rfl, hsucceeds, hserves, htype (by decide)⟩

end SealedToken
