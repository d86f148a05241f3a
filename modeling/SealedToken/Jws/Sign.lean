import SealedToken.Algorithm.Basic
import SealedToken.Header.Encoding
import SealedToken.Jws.Basic
import SealedToken.Signing

/-!
Adding signatures.
-/

namespace SealedToken.Jws

/-- The algorithm that a header names, the protected one if it does. -/
def namedAlgorithm (protectedHeader header : Option Object) : Except Error (Option String) :=
  match protectedHeader.filter (·.contains "alg"), header with
  | some h, _ => Header.text? h "alg"
  | none, some h => Header.text? h "alg"
  | none, none => .ok none

/-- The algorithm to sign with, and the protected header that names it if no header
did. A given algorithm has to be the named one. -/
def chooseAlgorithm (given : Option String) (protectedHeader header : Option Object) :
    Except Error (String × Option Object) := do
  match given, ← namedAlgorithm protectedHeader header with
  | some name, some found =>
      if name = found then pure (found, protectedHeader)
      else throw (.invalidFormat (.algorithmMismatch name found))
  | none, some found => pure (found, protectedHeader)
  | some name, none =>
      pure (name, some ((protectedHeader.getD .empty).insert "alg" (.str name)))
  | none, none => throw .missingAlgorithm

/-- All signatures of a token have the same mode. -/
def checkSameMode (t : Jws) (encoded : Bool) : Except Error Unit :=
  match t.signatures with
  | [] => .ok ()
  | s :: _ => do
      if (← Signature.payloadEncoded s) = encoded then pure ()
      else throw (.invalidFormat .mixedPayloadEncoding)

/-- The signature of the payload by a key. The algorithm is the given one or the
one that a header names. -/
def makeSignature (p : Primitives) (rng : Entropy) (t : Jws) (key : Jwk) (alg : Option String)
    (protectedHeader header : Option Object) : Except Error SealedToken.Signature :=
  match t.held with
  | none => .error (.invalidOperation .signDetached)
  | some payload => do
      let header := Header.nonempty header
      let (name, protectedHeader) ←
        chooseAlgorithm alg (Header.nonempty protectedHeader) header
      let merged ← t.options.registry.merge protectedHeader [header]
      let encoded ← payloadEncoded protectedHeader merged
      t.checkSameMode encoded
      Algorithm.checkAllowed t.options.allowed name
      let algorithm ← SigningAlgorithm.lookup name
      let protectedText := Header.encode protectedHeader
      let bytes ← algorithm.sign p rng key (signingInput protectedText payload encoded)
      pure { protectedHeader, protectedText, header, bytes }

/-- Sign the payload. -/
def addSignature (p : Primitives) (rng : Entropy) (t : Jws) (key : Jwk) (alg : Option String)
    (protectedHeader header : Option Object) : Except Error Jws := do
  let s ← t.makeSignature p rng key alg protectedHeader header
  pure { t with signatures := t.signatures ++ [s] }

end SealedToken.Jws
