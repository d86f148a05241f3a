import SealedToken.Der.Basic

/-!
The encodings in which keys are exchanged: a public key with the name of its
algorithm, and a private key likewise.
-/

namespace SealedToken.Der

/-- The sequence that names the algorithm: its object identifier and a null. -/
def rsaAlgorithm : List UInt8 :=
  [0x30, 0x0d, 0x06, 0x09, 0x2a, 0x86, 0x48, 0x86, 0xf7, 0x0d, 0x01, 0x01, 0x01, 0x05, 0x00]

/-- The members of a private RSA key, each most significant byte first. -/
structure RsaParts where
  n : List UInt8
  e : List UInt8
  d : List UInt8
  p : List UInt8
  q : List UInt8
  dp : List UInt8
  dq : List UInt8
  qi : List UInt8
  deriving DecidableEq, Repr

/-- Apply a function to every member. -/
def RsaParts.map (f : List UInt8 → List UInt8) (k : RsaParts) : RsaParts :=
  ⟨f k.n, f k.e, f k.d, f k.p, f k.q, f k.dp, f k.dq, f k.qi⟩

def RsaParts.toList (k : RsaParts) : List (List UInt8) :=
  [k.n, k.e, k.d, k.p, k.q, k.dp, k.dq, k.qi]

/-- The encoding of a public RSA key. -/
def rsaPublicInfo (n e : List UInt8) : List UInt8 :=
  sequence [rsaAlgorithm,
    element .bitString (0x00 :: sequence [integer n, integer e])]

/-- The encoding of a private RSA key. -/
def rsaPrivateInfo (k : RsaParts) : List UInt8 :=
  let version := integer [0]
  sequence [version, rsaAlgorithm,
    element .octetString (sequence (version :: k.toList.map integer))]

/-- The modulus and exponent in the encoding of a public key, and what is left
behind them in each of the nested values. -/
def readRsaPublicInfo (bytes : List UInt8) :
    Except Fault (List UInt8 × List UInt8 × List (List UInt8)) := do
  let (info, rest) ← read .sequence bytes
  let (_, info) ← read .sequence info
  let (bits, info) ← read .bitString info
  let (key, bits) ← read .sequence (bits.drop 1)
  let (n, key) ← readInteger key
  let (e, key) ← readInteger key
  .ok (n, e, [rest, info, bits, key])

/-- The octets of the key inside the encoding of a private key. -/
def readPrivateInfo (bytes : List UInt8) : Except Fault (List UInt8) := do
  let (info, _) ← read .sequence bytes
  let (_, info) ← readInteger info
  let (_, info) ← read .sequence info
  let (key, _) ← read .octetString info
  .ok key

/-- The members of a private RSA key. -/
def readRsaPrivateInfo (bytes : List UInt8) : Except Fault RsaParts := do
  let key ← readPrivateInfo bytes
  let (key, _) ← read .sequence key
  let (_, key) ← readInteger key
  let (n, key) ← readInteger key
  let (e, key) ← readInteger key
  let (d, key) ← readInteger key
  let (p, key) ← readInteger key
  let (q, key) ← readInteger key
  let (dp, key) ← readInteger key
  let (dq, key) ← readInteger key
  let (qi, _) ← readInteger key
  .ok ⟨n, e, d, p, q, dp, dq, qi⟩

end SealedToken.Der
