import SealedToken.Curve.Montgomery
import SealedToken.Curve.Weierstrass
import SealedToken.Key.Agreement

/-!
Key pairs and shared secrets on every curve of key agreement.
-/

namespace SealedToken.AgreementCurve

/-- Both coordinates of a point, one behind the other. -/
def pointBytes (curve : EllipticCurve) (x y : Nat) : ByteArray :=
  Bytes.ofNat curve.coordinateSize x ++ Bytes.ofNat curve.coordinateSize y

/-- The point that two coordinates spell, if it is one of the curve. -/
def pointOfBytes? (curve : EllipticCurve) (bytes : ByteArray) : Option Weierstrass.Point :=
  let size := curve.coordinateSize
  if bytes.size = 2 * size then
    curve.params.point? (Bytes.toNat (bytes.extract 0 size))
      (Bytes.toNat (bytes.extract size (2 * size)))
  else none

/-- A random private member. -/
def randomSecret (rng : Entropy) : AgreementCurve → ByteArray
  | .ec curve => Bytes.ofNat curve.coordinateSize (curve.params.randomScalar rng)
  | .x25519 => rng.take OctetCurve.memberSize

/-- The public member of a private one. -/
def publicOf? : AgreementCurve → (secret : ByteArray) → Option ByteArray
  | .ec curve, secret => do
      let d ← curve.params.scalar? (Bytes.toNat secret)
      let (x, y) ← curve.params.affine? (curve.params.times d curve.params.base)
      some (pointBytes curve x y)
  | .x25519, secret => some (X25519.publicKey secret)

/-- The secret shared with the owner of a public member. -/
def agree? : AgreementCurve → (secret peer : ByteArray) → Option ByteArray
  | .ec curve, secret, peer => do
      let d ← curve.params.scalar? (Bytes.toNat secret)
      let point ← pointOfBytes? curve peer
      let (x, _) ← curve.params.affine? (curve.params.times d point)
      some (Bytes.ofNat curve.coordinateSize x)
  | .x25519, secret, peer => X25519.agree? secret peer

end SealedToken.AgreementCurve
