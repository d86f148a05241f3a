import SealedToken.Digest.Sha2
import SealedToken.Key.Json

/-!
The thumbprint of a key: the digest of its required members, in the order of
their names and without white space. Nothing but the public material of the key
goes into it, for a symmetric key the secret.
-/

namespace SealedToken

/-- The members that identify a key, in the order of their names. -/
def KeyMaterial.identity : KeyMaterial → List (String × Json)
  | .oct k => [("k", .ofBytes k), ("kty", .str KeyType.oct.name)]
  | .rsa n e _ =>
      [("e", .ofBytes e), ("kty", .str KeyType.rsa.name), ("n", .ofBytes n)]
  | .ec curve x y _ =>
      [("crv", .str curve.name), ("kty", .str KeyType.ec.name), ("x", .ofBytes x),
       ("y", .ofBytes y)]
  | .okp curve x _ =>
      [("crv", .str curve.name), ("kty", .str KeyType.okp.name), ("x", .ofBytes x)]

namespace Jwk

/-- The text whose digest is the thumbprint. -/
def identityText (key : Jwk) : String := (Json.obj key.material.identity).print

def thumbprintBytes (key : Jwk) : ByteArray :=
  ShaSize.sha256.digest key.identityText.toUTF8

def thumbprint (key : Jwk) : String := Base64Url.encode key.thumbprintBytes

end Jwk

end SealedToken
