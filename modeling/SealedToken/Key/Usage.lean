/-!
What a key may be used for. A key can name one intended use and a list of
operations; both restrict, and the absence of either restricts nothing.
-/

namespace SealedToken

/-- The two intended uses of a key. -/
inductive KeyUse
  | signature
  | encryption
  deriving DecidableEq, Repr

/-- The operations a key can be restricted to. -/
inductive KeyOperation
  | sign
  | verify
  | encrypt
  | decrypt
  | wrapKey
  | unwrapKey
  | deriveKey
  | deriveBits
  deriving DecidableEq, Repr

/-- The registered name of a use, as a key carries it. -/
def KeyUse.name : KeyUse → String
  | .signature => "sig"
  | .encryption => "enc"

def KeyUse.all : List KeyUse := [.signature, .encryption]

def KeyUse.ofName? (name : String) : Option KeyUse :=
  KeyUse.all.find? (·.name == name)

/-- The use in words, as it stands in error texts and in the description of a
key. -/
def KeyUse.title : KeyUse → String
  | .signature => "Signature"
  | .encryption => "Encryption"

/-- The registered name of an operation. -/
def KeyOperation.name : KeyOperation → String
  | .sign => "sign"
  | .verify => "verify"
  | .encrypt => "encrypt"
  | .decrypt => "decrypt"
  | .wrapKey => "wrapKey"
  | .unwrapKey => "unwrapKey"
  | .deriveKey => "deriveKey"
  | .deriveBits => "deriveBits"

/-- The operation in the description of a key. -/
def KeyOperation.title : KeyOperation → String
  | .sign => "Sign"
  | .verify => "Verify"
  | .encrypt => "Encrypt"
  | .decrypt => "Decrypt"
  | .wrapKey => "WrapKey"
  | .unwrapKey => "UnwrapKey"
  | .deriveKey => "DeriveKey"
  | .deriveBits => "DeriveBits"

def KeyOperation.all : List KeyOperation :=
  [.sign, .verify, .encrypt, .decrypt, .wrapKey, .unwrapKey, .deriveKey, .deriveBits]

def KeyOperation.ofName? (name : String) : Option KeyOperation :=
  KeyOperation.all.find? (·.name == name)

/-- Signing and verifying belong to signature keys, all else to encryption keys. -/
def KeyOperation.isSigning : KeyOperation → Bool
  | .sign | .verify => true
  | _ => false

def KeyUse.permits (use : KeyUse) (op : KeyOperation) : Bool :=
  match use with
  | .signature => op.isSigning
  | .encryption => !op.isSigning

theorem KeyUse.ofName?_name (use : KeyUse) : KeyUse.ofName? use.name = some use := by
  cases use <;> decide

theorem KeyOperation.ofName?_name (op : KeyOperation) :
    KeyOperation.ofName? op.name = some op := by
  cases op <;> decide

end SealedToken
