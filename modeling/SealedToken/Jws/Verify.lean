import SealedToken.Algorithm.Basic
import SealedToken.Jws.Basic
import SealedToken.Key.Set
import SealedToken.Signing

/-!
Verifying signatures. One valid signature is enough; every signature is tried with
every key that is offered for it.
-/

namespace SealedToken.Jws

/-- What is left to do for a signature once its header has been checked. -/
structure Pending where
  /-- The name of the algorithm. -/
  name : String
  algorithm : SigningAlgorithm
  /-- The bytes that are signed. -/
  input : ByteArray
  keys : List Jwk

/-- A caller's algorithm excludes all others. -/
def checkExpected (expected : Option String) (name : String) : Except Error Unit :=
  if expected.all (· == name) then .ok () else .error (.algorithmNotAllowed name)

/-- Check the header of a signature; no key is touched. -/
def prepare (options : JwsOptions) (payload : ByteArray) (keys : KeySource)
    (expected : Option String) (s : SealedToken.Signature) : Except Error Pending := do
  let merged ← mergedHeader options s
  match ← Header.text? merged "alg" with
  | none => throw .missingAlgorithm
  | some name =>
      checkExpected expected name
      Algorithm.checkAllowed options.allowed name
      let algorithm ← SigningAlgorithm.lookup name
      let encoded ← payloadEncoded s.protectedHeader merged
      let kid ← Header.text? merged "kid"
      let keys ← keys.candidates kid
      pure { name, algorithm, input := signingInput s.protectedText payload encoded, keys }

/-- The outcome for one signature, and the keys that failed. -/
def verifyOne (p : Primitives) (options : JwsOptions) (payload : ByteArray) (keys : KeySource)
    (expected : Option String) (s : SealedToken.Signature) :
    Except Error Unit × List FailedAttempt :=
  match prepare options payload keys expected s with
  | .error error => (.error error, [])
  | .ok pending =>
      let (failures, success) :=
        tryEach (fun key => pending.algorithm.verify p key pending.input s.bytes) pending.keys
      let log := failures.map fun (key, error) => ⟨key.kid, pending.name, error⟩
      match success with
      | some _ => (.ok (), log)
      | none =>
          (.error ((Error.mostRelevantOf (failures.map (·.2))).getD .invalidSignature), log)

/-- The state that an outcome gives a signature. -/
def stateOf (outcome : Except Error Unit) : SignatureState :=
  match outcome with
  | .ok _ => .valid
  | .error _ => .invalid

def errorOf? (outcome : Except Error Unit) : Option Error :=
  match outcome with
  | .ok _ => none
  | .error error => some error

/-- Verify every signature over a payload. -/
def verifyAll (p : Primitives) (t : Jws) (payload : ByteArray) (keys : KeySource)
    (expected : Option String) : Except Error Unit × Jws :=
  let outcomes := t.signatures.map (verifyOne p t.options payload keys expected)
  let signatures := (t.signatures.zip outcomes).map fun (s, outcome) =>
    { s with state := stateOf outcome.1 }
  let t := { t with signatures, log := outcomes.flatMap (·.2) }
  if outcomes.any (·.1.isOk) then (.ok (), { t with trusted := true })
  else
    let errors := outcomes.filterMap fun outcome => errorOf? outcome.1
    (.error ((Error.mostRelevantOf errors).getD .invalidSignature), t)

/-- Verify with a key or a set of keys. A given algorithm is the only one accepted;
a given payload replaces the one that the token carries. -/
def verify (p : Primitives) (t : Jws) (keys : KeySource) (alg : Option String)
    (detached : Option ByteArray) : Except Error Unit × Jws :=
  let t := { t with held := detached <|> t.held, trusted := false, log := [] }
  match t.held with
  | none => (.error (.invalidOperation .payloadDetached), t)
  | some payload =>
      if t.signatures.isEmpty then (.error (.invalidFormat .noSignatures), t)
      else t.verifyAll p payload keys alg

end SealedToken.Jws
