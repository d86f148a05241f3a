import SealedToken.Algorithm.Basic
import SealedToken.Key.Basic
import SealedToken.Primitives.Basic

/-!
Signatures over byte strings. Whatever goes wrong in a verification once the key
has been accepted is the same error.
-/

namespace SealedToken.SigningAlgorithm

/-- The key of an algorithm has to be on the algorithm's curve. -/
def checkCurve (a : SigningAlgorithm) (required found : EllipticCurve) : Except Error Unit :=
  if found = required then .ok ()
  else .error (.invalidKey (.wrongCurve a.name required found))

/-- The key of the algorithm without a signature is the empty secret. -/
def checkEmptySecret (key : Jwk) : Except Error Unit :=
  match key.material with
  | .oct k => if k.size = 0 then .ok () else .error (.invalidKey .secretNotEmpty)
  | _ => .error (.invalidKey .secretNotEmpty)

/-- The key was refused by an operation that looks at all its members. -/
def accepted (result : Option ByteArray) : Except Error ByteArray :=
  match result with
  | some bytes => .ok bytes
  | none => .error (.invalidKey .rejected)

def verified (holds : Bool) : Except Error Unit :=
  if holds then .ok () else .error .invalidSignature

def signRsa (p : Primitives) (rng : Entropy) (padding : Rsa.SignaturePadding) (h : ShaSize)
    (key : Jwk) (message : ByteArray) : Except Error ByteArray := do
  let info ← key.rsaPrivate .sign
  if ! p.rsaAcceptsSigning info then throw (.invalidKey .rejected)
  match p.rsaSign? rng padding h info message with
  | some signature => pure signature
  | none => throw (.primitive .rsaSign)

def verifyRsa (p : Primitives) (padding : Rsa.SignaturePadding) (h : ShaSize) (key : Jwk)
    (message signature : ByteArray) : Except Error Unit := do
  let (n, e) ← key.rsaPublic .verify
  verified (p.rsaVerify padding h n e message signature)

def sign (p : Primitives) (rng : Entropy) (a : SigningAlgorithm) (key : Jwk)
    (message : ByteArray) : Except Error ByteArray :=
  match a with
  | .hmac h => do
      pure (p.hmac h (← key.octets .sign) message)
  | .rsaPkcs1 h => signRsa p rng .pkcs1 h key message
  | .rsaPss h => signRsa p rng .pss h key message
  | .ecdsa curve => do
      let (found, d, x, y) ← key.ecPrivate .sign
      a.checkCurve curve found
      accepted (p.ecdsaSign? rng curve d x y message)
  | .eddsa => do
      match ← key.okpPrivate .sign with
      | (.ed25519, d, x) => accepted (p.eddsaSign? d x message)
      | (.x25519, _) => throw (.invalidKey .notSigningCurve)
  | .unsecured => do
      checkEmptySecret key
      pure ByteArray.empty

def verify (p : Primitives) (a : SigningAlgorithm) (key : Jwk)
    (message signature : ByteArray) : Except Error Unit :=
  match a with
  | .hmac h => do
      verified (p.hmac h (← key.octets .verify) message == signature)
  | .rsaPkcs1 h => verifyRsa p .pkcs1 h key message signature
  | .rsaPss h => verifyRsa p .pss h key message signature
  | .ecdsa curve => do
      let (found, x, y) ← key.ecPublic .verify
      a.checkCurve curve found
      verified (signature.size == 2 * curve.coordinateSize &&
        p.ecdsaVerify curve x y message signature)
  | .eddsa => do
      match ← key.okpPublic .verify with
      | (.ed25519, x) => verified (p.eddsaVerify x message signature)
      | (.x25519, _) => throw (.invalidKey .notSigningCurve)
  | .unsecured => do
      checkEmptySecret key
      verified (signature.size == 0)

end SealedToken.SigningAlgorithm
