import SealedToken.Attempt
import SealedToken.Bytes.Base64Url
import SealedToken.Header.Member
import SealedToken.Header.Registry

/-!
Signed tokens: a payload and signatures over it. The payload of a token that came
from elsewhere is held, but only released once a signature has been verified.
-/

namespace SealedToken

inductive SignatureState
  /-- Made here or read, and not verified since. -/
  | signed
  | valid
  | invalid
  deriving DecidableEq, Repr

def SignatureState.name : SignatureState → String
  | .signed => "signed"
  | .valid => "valid"
  | .invalid => "invalid"

structure Signature where
  protectedHeader : Option Object
  /-- The protected header exactly as it is written; the signature covers it. -/
  protectedText : String
  header : Option Object
  bytes : ByteArray
  state : SignatureState := .signed
  deriving DecidableEq

/-- What is accepted when signatures are made or verified. -/
structure JwsOptions where
  /-- The accepted algorithms, or else the default ones. -/
  allowed : Option (List String) := none
  registry : HeaderRegistry := .signed
  deriving DecidableEq

structure Jws where
  /-- The payload that is held, if it is not transported separately. -/
  held : Option ByteArray
  /-- May the payload be released? -/
  trusted : Bool
  signatures : List Signature := []
  options : JwsOptions := {}
  /-- The keys that failed in the last verification. -/
  log : List FailedAttempt := []
  deriving DecidableEq

namespace Jws

/-- A token to be signed. -/
def ofPayload (payload : ByteArray) : Jws := { held := some payload, trusted := true }

/-- The payload, of a token made here or verified. -/
def payload? (t : Jws) : Option ByteArray := if t.trusted then t.held else none

/-- Has some signature been verified? -/
def isValid (t : Jws) : Bool := t.signatures.any (·.state == .valid)

/-- The merged header of a signature. -/
def mergedHeader (options : JwsOptions) (s : Signature) : Except Error Object :=
  options.registry.merge s.protectedHeader [s.header]

def headerAt (t : Jws) (index : Nat) : Except Error Object :=
  match t.signatures[index]? with
  | some s => mergedHeader t.options s
  | none => .error (.invalidOperation (.noSignature index))

/-- Take the payload out, to transport it separately. -/
def detach (t : Jws) : Option ByteArray × Jws := (t.held, { t with held := none })

/-! ### The mode of the payload -/

/-- Is the name listed as critical? -/
def listsCritical (header : Object) (name : String) : Bool :=
  match header.find? "crit" with
  | some (.arr names) => names.contains (.str name)
  | _ => false

/-- Is the payload encoded, as it is unless a protected and critical parameter
says otherwise? -/
def payloadEncoded (protectedHeader : Option Object) (merged : Object) : Except Error Bool :=
  match protectedHeader.bind (·.find? "b64") with
  | none =>
      if merged.contains "b64" then .error (.misplacedHeader "b64") else .ok true
  | some (.bool encoded) =>
      if protectedHeader.any (listsCritical · "b64") then .ok encoded
      else .error (.invalidFormat .payloadEncodingNotCritical)
  | some _ => .error (.invalidFormat .payloadEncodingNotBoolean)

/-- The mode that an entry's own protected header tells. -/
def Signature.payloadEncoded (s : SealedToken.Signature) : Except Error Bool :=
  Jws.payloadEncoded s.protectedHeader .empty

/-- The mode of a token, told by its first signature. -/
def encodesPayload (t : Jws) : Except Error Bool :=
  match t.signatures with
  | [] => .ok true
  | s :: _ => Signature.payloadEncoded s

/-- The bytes that are signed. -/
def signingInput (protectedText : String) (payload : ByteArray) (encoded : Bool) : ByteArray :=
  protectedText.toUTF8 ++ ".".toUTF8 ++
    (if encoded then (Base64Url.encode payload).toUTF8 else payload)

end Jws

end SealedToken
