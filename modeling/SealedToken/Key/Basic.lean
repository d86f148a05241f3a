import SealedToken.Der.KeyInfo
import SealedToken.Error

/-!
Keys. Material is handed out by functions that first check what the key is
restricted to, then its family, then whether it has a private part.
-/

namespace SealedToken

/-- The private members of an RSA key, each most significant byte first. -/
structure RsaSecret where
  d : ByteArray
  p : ByteArray
  q : ByteArray
  dp : ByteArray
  dq : ByteArray
  qi : ByteArray
  deriving DecidableEq

/-- What a key consists of. Members are kept as they were given, so leading zeros
are part of them. -/
inductive KeyMaterial
  | oct (k : ByteArray)
  | rsa (n e : ByteArray) (secret : Option RsaSecret)
  | ec (curve : EllipticCurve) (x y : ByteArray) (d : Option ByteArray)
  | okp (curve : OctetCurve) (x : ByteArray) (d : Option ByteArray)
  deriving DecidableEq

def KeyMaterial.type : KeyMaterial → KeyType
  | .oct _ => .oct
  | .rsa .. => .rsa
  | .ec .. => .ec
  | .okp .. => .okp

/-- Symmetric material is private as a whole. -/
def KeyMaterial.hasPrivate : KeyMaterial → Bool
  | .oct _ => true
  | .rsa _ _ secret => secret.isSome
  | .ec _ _ _ d => d.isSome
  | .okp _ _ d => d.isSome

/-- The material without its private part, none of symmetric material. -/
def KeyMaterial.public? : KeyMaterial → Option KeyMaterial
  | .oct _ => none
  | .rsa n e _ => some (.rsa n e none)
  | .ec curve x y _ => some (.ec curve x y none)
  | .okp curve x _ => some (.okp curve x none)

/-- A key with its restrictions and names. -/
structure Jwk where
  material : KeyMaterial
  use : Option KeyUse := none
  operations : Option (List KeyOperation) := none
  kid : Option String := none
  /-- The algorithm the key is meant for; it restricts nothing. -/
  alg : Option String := none
  deriving DecidableEq

namespace Jwk

def ofOctets (k : ByteArray) : Jwk := { material := .oct k }

def type (key : Jwk) : KeyType := key.material.type

def hasPrivate (key : Jwk) : Bool := key.material.hasPrivate

/-- The key without its private part. -/
def publicKey (key : Jwk) : Except Error Jwk :=
  match key.material.public? with
  | some material => .ok { key with material }
  | none => .error (.invalidKey .noPublicPart)

/-- Do the restrictions of the key permit an operation? -/
def permits (key : Jwk) (op : KeyOperation) : Bool :=
  key.use.all (·.permits op) && key.operations.all (·.contains op)

/-- Refuse an operation that the intended use or, after that, the list of
operations does not permit. -/
def checkOperation (key : Jwk) (op : KeyOperation) : Except Error Unit :=
  match key.use.filter (! ·.permits op) with
  | some use => .error (.invalidKey (.useForbids use op))
  | none =>
      if key.operations.all (·.contains op) then .ok ()
      else .error (.invalidKey (.operationsForbid op))

theorem checkOperation_eq_ok_iff {key : Jwk} {op : KeyOperation} :
    key.checkOperation op = .ok () ↔ key.permits op = true := by
  rcases key with ⟨_, use, _, _, _⟩
  cases use with
  | none => simp [checkOperation, permits]
  | some use => cases h : use.permits op <;> simp [checkOperation, permits, Option.filter, h]

def wrongType {α : Type} (key : Jwk) (expected : KeyType) : Except Error α :=
  .error (.invalidKey (.wrongType expected key.type))

/-- The secret bytes. -/
def octets (key : Jwk) (op : KeyOperation) : Except Error ByteArray := do
  key.checkOperation op
  match key.material with
  | .oct k => pure k
  | _ => key.wrongType .oct

/-- The modulus and the exponent. -/
def rsaPublic (key : Jwk) (op : KeyOperation) : Except Error (ByteArray × ByteArray) := do
  key.checkOperation op
  match key.material with
  | .rsa n e _ => pure (n, e)
  | _ => key.wrongType .rsa

/-- The encoding of the private key. -/
def rsaPrivate (key : Jwk) (op : KeyOperation) : Except Error (List UInt8) := do
  key.checkOperation op
  match key.material with
  | .rsa n e (some s) =>
      let bytes (b : ByteArray) := b.data.toList
      pure (Der.rsaPrivateInfo
        ⟨bytes n, bytes e, bytes s.d, bytes s.p, bytes s.q, bytes s.dp, bytes s.dq, bytes s.qi⟩)
  | .rsa _ _ none => throw (.invalidKey .noPrivatePart)
  | _ => key.wrongType .rsa

/-- A curve and a point of it. -/
def ecPublic (key : Jwk) (op : KeyOperation) :
    Except Error (EllipticCurve × ByteArray × ByteArray) := do
  key.checkOperation op
  match key.material with
  | .ec curve x y _ => pure (curve, x, y)
  | _ => key.wrongType .ec

/-- A curve, a scalar and the point that belongs to it. -/
def ecPrivate (key : Jwk) (op : KeyOperation) :
    Except Error (EllipticCurve × ByteArray × ByteArray × ByteArray) := do
  let (curve, x, y) ← key.ecPublic op
  match key.material with
  | .ec _ _ _ (some d) => pure (curve, d, x, y)
  | _ => throw (.invalidKey .noPrivatePart)

def okpPublic (key : Jwk) (op : KeyOperation) : Except Error (OctetCurve × ByteArray) := do
  key.checkOperation op
  match key.material with
  | .okp curve x _ => pure (curve, x)
  | _ => key.wrongType .okp

/-- A curve, a secret and the public member that belongs to it. -/
def okpPrivate (key : Jwk) (op : KeyOperation) :
    Except Error (OctetCurve × ByteArray × ByteArray) := do
  let (curve, x) ← key.okpPublic op
  match key.material with
  | .okp _ _ (some d) => pure (curve, d, x)
  | _ => throw (.invalidKey .noPrivatePart)

end Jwk

end SealedToken
