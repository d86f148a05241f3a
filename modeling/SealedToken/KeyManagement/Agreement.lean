import SealedToken.Algorithm.Basic
import SealedToken.Header.Member
import SealedToken.Key.Json
import SealedToken.KeyManagement.Derivation
import SealedToken.Primitives.Basic

/-!
Key agreement with a recipient. The sender makes a key pair for this one message
and puts its public part into the header; both sides derive the same key from
their private and the other's public part.
-/

namespace SealedToken

namespace AgreementCurve

/-- The curve of a key, if it is one for agreement. -/
def ofKey (key : Jwk) : Except Error AgreementCurve :=
  match key.material with
  | .ec curve .. => .ok (.ec curve)
  | .okp .x25519 .. => .ok .x25519
  | _ => .error (.invalidKey (.agreementType key.type))

def checkSupported (curve : AgreementCurve) : Except Error Unit :=
  if curve.isSupported then .ok () else .error (.invalidKey .agreementCurve)

/-- The public member of a key on the curve. -/
def publicMember (curve : AgreementCurve) (key : Jwk) : Except Error ByteArray :=
  match curve with
  | .ec _ => do
      let (_, x, y) ← key.ecPublic .deriveKey
      pure (x ++ y)
  | .x25519 => do
      let (_, x) ← key.okpPublic .deriveKey
      pure x

/-- The private member of a key on the curve. -/
def privateMember (curve : AgreementCurve) (key : Jwk) : Except Error ByteArray :=
  match curve with
  | .ec _ => do
      let (_, d, _) ← key.ecPrivate .deriveKey
      pure d
  | .x25519 => do
      let (_, d, _) ← key.okpPrivate .deriveKey
      pure d

/-- The private member of a key, provided that it can be operated with. -/
def operableMember (p : Primitives) (curve : AgreementCurve) (key : Jwk) :
    Except Error ByteArray := do
  let d ← curve.privateMember key
  curve.checkSupported
  if (p.curvePublic? curve d).isSome then pure d else throw (.invalidKey .rejected)

/-- The key that consists of a public member. -/
def publicKey (curve : AgreementCurve) (bytes : ByteArray) : Jwk :=
  match curve with
  | .ec c =>
      let size := c.coordinateSize
      { material := .ec c (bytes.extract 0 size) (bytes.extract size (2 * size)) none }
  | .x25519 => { material := .okp .x25519 bytes none }

end AgreementCurve

namespace KeyManagementAlgorithm

/-- The name a derived key is bound to: that of the algorithm which uses it. -/
def derivedFor (a : KeyManagementAlgorithm) (header : Object) : Except Error String :=
  match a with
  | .ecdhEs none =>
      match (header.find? "enc").bind Json.asString? with
      | some name => .ok name
      | none => .error .missingAlgorithm
  | _ => .ok a.name

/-- Derive a key from a private member and the other side's public one. -/
def deriveShared (p : Primitives) (a : KeyManagementAlgorithm) (curve : AgreementCurve)
    (secret peer : ByteArray) (keyBits : Nat) (header : Object) : Except Error ByteArray := do
  let name ← a.derivedFor header
  let producer ← Header.bytes? header "apu"
  let consumer ← Header.bytes? header "apv"
  match p.agree? curve secret peer with
  | none => throw (.invalidKey .agreementPeer)
  | some shared =>
      pure (KeyDerivation.derive shared
        ⟨name.toUTF8, producer.getD .empty, consumer.getD .empty, keyBits⟩)

/-- The sender's side: a derived key, and the header with the public part of the
key pair it was made with. -/
def agree (p : Primitives) (rng : Entropy) (a : KeyManagementAlgorithm) (recipient : Jwk)
    (keyBits : Nat) (header : Object) : Except Error (ByteArray × Object) := do
  let curve ← AgreementCurve.ofKey recipient
  let peer ← curve.publicMember recipient
  curve.checkSupported
  let secret := p.curveSecret rng curve
  match p.curvePublic? curve secret with
  | none => throw (.primitive .curveKey)
  | some point => do
      let derived ← a.deriveShared p curve secret peer keyBits header
      pure (derived, Object.empty.insert "epk" (curve.publicKey point).toJson.canonical)

/-- The recipient's side. -/
def deriveReceived (p : Primitives) (a : KeyManagementAlgorithm) (recipient : Jwk)
    (keyBits : Nat) (header : Object) : Except Error ByteArray := do
  let curve ← AgreementCurve.ofKey recipient
  let ephemeral ← Jwk.ofJson (← Header.value header "epk")
  if (AgreementCurve.ofKey ephemeral).toOption ≠ some curve then
    throw (.invalidKey .ephemeralMismatch)
  let secret ← curve.operableMember p recipient
  let peer ← curve.publicMember ephemeral
  a.deriveShared p curve secret peer keyBits header

end KeyManagementAlgorithm

end SealedToken
