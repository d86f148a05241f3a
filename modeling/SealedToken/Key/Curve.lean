/-!
The families of keys and the curves two of them live on.
-/

namespace SealedToken

/-- The family a key belongs to. -/
inductive KeyType
  /-- A secret byte sequence. -/
  | oct
  | rsa
  /-- A point of an elliptic curve. -/
  | ec
  /-- A key pair whose members are byte strings of their own. -/
  | okp
  deriving DecidableEq, Repr

def KeyType.name : KeyType → String
  | .oct => "oct"
  | .rsa => "RSA"
  | .ec => "EC"
  | .okp => "OKP"

/-- The curves of `EC` keys. -/
inductive EllipticCurve
  | p256
  | p384
  | p521
  | secp256k1
  deriving DecidableEq, Repr

def EllipticCurve.name : EllipticCurve → String
  | .p256 => "P-256"
  | .p384 => "P-384"
  | .p521 => "P-521"
  | .secp256k1 => "secp256k1"

def EllipticCurve.all : List EllipticCurve := [.p256, .p384, .p521, .secp256k1]

def EllipticCurve.ofName? (name : String) : Option EllipticCurve :=
  EllipticCurve.all.find? (·.name == name)

/-- The size in bytes of one coordinate, and of a private scalar. -/
def EllipticCurve.coordinateSize : EllipticCurve → Nat
  | .p256 | .secp256k1 => 32
  | .p384 => 48
  | .p521 => 66

/-- The curves of `OKP` keys: one signs, the other agrees on secrets. -/
inductive OctetCurve
  | ed25519
  | x25519
  deriving DecidableEq, Repr

def OctetCurve.name : OctetCurve → String
  | .ed25519 => "Ed25519"
  | .x25519 => "X25519"

def OctetCurve.all : List OctetCurve := [.ed25519, .x25519]

def OctetCurve.ofName? (name : String) : Option OctetCurve :=
  OctetCurve.all.find? (·.name == name)

/-- The size in bytes of every member of an `OKP` key. -/
def OctetCurve.memberSize : Nat := 32

theorem EllipticCurve.ofName?_name (c : EllipticCurve) :
    EllipticCurve.ofName? c.name = some c := by
  cases c <;> decide

theorem OctetCurve.ofName?_name (c : OctetCurve) : OctetCurve.ofName? c.name = some c := by
  cases c <;> decide

end SealedToken
