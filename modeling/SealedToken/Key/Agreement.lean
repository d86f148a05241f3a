import SealedToken.Error

/-!
The curves on which two parties agree on a secret.
-/

namespace SealedToken

/-- A curve of key agreement: one of those of `EC` keys, or the one for agreement
of `OKP` keys. -/
inductive AgreementCurve
  | ec (curve : EllipticCurve)
  | x25519
  deriving DecidableEq, Repr

namespace AgreementCurve

/-- The sizes of a private and of a public member. A public member on an elliptic
curve is both coordinates of a point, one behind the other. -/
def secretSize : AgreementCurve → Nat
  | .ec curve => curve.coordinateSize
  | .x25519 => OctetCurve.memberSize

/-- Is agreement defined on the curve? -/
def isSupported : AgreementCurve → Bool
  | .ec .secp256k1 => false
  | _ => true

end AgreementCurve

end SealedToken
