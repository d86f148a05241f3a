import SealedToken.Arithmetic.Prime
import SealedToken.Der.KeyInfo

/-!
RSA keys as numbers. A key is read from its encoding and accepted only when its
members are consistent with each other; the two operations are modular powers,
the private one by the residues modulo both factors and checked by the public one.
-/

namespace SealedToken.Rsa

/-- The sizes of a modulus, in bits. -/
def leastBits : Nat := 2048
def greatestBits : Nat := 8192

/-- How many bits an exponent may have in an operation. -/
def exponentBits : Nat := 33

def bitLength (n : Nat) : Nat := if n = 0 then 0 else n.log2 + 1

structure PublicKey where
  n : Nat
  e : Nat
  deriving DecidableEq

/-- The size of the modulus in bytes. -/
def PublicKey.size (k : PublicKey) : Nat := Bytes.byteLength k.n

/-- Is the size of the modulus within the limits? -/
def PublicKey.sized (k : PublicKey) : Bool :=
  leastBits ≤ bitLength k.n && bitLength k.n ≤ greatestBits

/-- Can the key be operated with? The exponent is bounded, so that nobody is made to
work long. -/
def PublicKey.isSound (k : PublicKey) : Bool :=
  k.sized && k.n % 2 == 1 && k.e % 2 == 1 && 1 < k.e && bitLength k.e ≤ exponentBits

/-- Encrypt a number, or undo a signature. -/
def PublicKey.apply (k : PublicKey) (x : Nat) : Nat := Modular.pow k.n x k.e

structure PrivateKey extends PublicKey where
  d : Nat
  p : Nat
  q : Nat
  dp : Nat
  dq : Nat
  qi : Nat
  deriving DecidableEq

/-- Do the members belong together? Any private exponent will do that inverts the
public one; those modulo the factors have to be the least. -/
def PrivateKey.consistent (k : PrivateKey) : Bool :=
  k.isSound && 1 < k.p && 1 < k.q && k.p * k.q == k.n &&
    k.d * k.e % (k.p - 1) == 1 && k.d * k.e % (k.q - 1) == 1 &&
    k.dp < k.p - 1 && k.dp * k.e % (k.p - 1) == 1 &&
    k.dq < k.q - 1 && k.dq * k.e % (k.q - 1) == 1 &&
    k.qi < k.p && k.qi * k.q % k.p == 1

/-- How many words of 64 bits a number takes. -/
def words (n : Nat) : Nat := (bitLength n + 63) / 64

/-- The power by a private exponent, `none` when the exponent takes more words than
the modulus. -/
def powPrivate? (n d x : Nat) : Option Nat :=
  if words n < words d then none else some (Modular.pow n x d)

/-- The power by the private exponent, from the residues modulo both factors. -/
def PrivateKey.applyResidues (k : PrivateKey) (x : Nat) : Nat :=
  let xp := Modular.pow k.p x k.dp
  let xq := Modular.pow k.q x k.dq
  let h := k.qi * (xp + k.p - xq % k.p) % k.p
  xq + h * k.q

/-- Decrypt or sign a number below the modulus. The residues serve when both factors
take as many words as each other. Nothing is answered that the public exponent does
not undo, as when a factor is no prime. -/
def PrivateKey.operate? (k : PrivateKey) (x : Nat) : Option Nat :=
  if words k.n < words k.d then none
  else
    let y := if words k.p = words k.q then k.applyResidues x else Modular.pow k.n x k.d
    if k.toPublicKey.apply y = x then some y else none

def numberOf (bytes : List UInt8) : Nat :=
  bytes.foldl (fun n b => n * 256 + b.toNat) 0

/-- The members of a private key in its encoding. -/
def PrivateKey.ofParts (m : Der.RsaParts) : PrivateKey :=
  { n := numberOf m.n, e := numberOf m.e, d := numberOf m.d, p := numberOf m.p
    q := numberOf m.q, dp := numberOf m.dp, dq := numberOf m.dq, qi := numberOf m.qi }

/-- Read the encoding of a private key, `none` when it is refused. -/
def PrivateKey.ofInfo? (info : List UInt8) : Option PrivateKey :=
  match Der.readRsaPrivateInfo info with
  | .error _ => none
  | .ok m =>
      let k := PrivateKey.ofParts m
      if k.consistent then some k else none

/-- The size in bytes of the modulus in the encoding of a private key. -/
def modulusSize (info : List UInt8) : Nat :=
  match Der.readRsaPrivateInfo info with
  | .error _ => 0
  | .ok m => m.n.length

/-- What decrypts: a private key with all its members, or only a modulus and a
private exponent. -/
inductive DecryptionKey
  | full (k : PrivateKey)
  | bare (n d : Nat)
  deriving DecidableEq

/-- Are modulus and private exponent all that there is? The others are zero then. -/
def PrivateKey.isBare (k : PrivateKey) : Bool :=
  k.sized && k.n % 2 == 1 && k.d != 0 && [k.e, k.p, k.q, k.dp, k.dq, k.qi].all (· == 0)

namespace DecryptionKey

/-- Read the encoding of a private key, `none` when it is refused. -/
def ofInfo? (info : List UInt8) : Option DecryptionKey :=
  match Der.readRsaPrivateInfo info with
  | .error _ => none
  | .ok m =>
      let k := PrivateKey.ofParts m
      if k.isBare then some (.bare k.n k.d)
      else if k.consistent then some (.full k)
      else none

def modulus : DecryptionKey → Nat
  | .full k => k.n
  | .bare n _ => n

/-- The size of the modulus in bytes. -/
def size (k : DecryptionKey) : Nat := Bytes.byteLength k.modulus

/-- Decrypt a number below the modulus. -/
def operate? : DecryptionKey → Nat → Option Nat
  | .full k, x => k.operate? x
  | .bare n d, x => powPrivate? n d x

end DecryptionKey

/-- Read the encoding of a public key, `none` when it is refused. -/
def PublicKey.ofInfo? (info : List UInt8) : Option PublicKey :=
  match Der.readRsaPublicInfo info with
  | .error _ => none
  | .ok (n, e, _) =>
      let k : PublicKey := ⟨numberOf n, numberOf e⟩
      if k.isSound then some k else none

/-- Take the bytes of a public key as they are; a zero byte in front is refused. -/
def PublicKey.ofBytes? (n e : ByteArray) : Option PublicKey :=
  if n.data.toList.head?.getD 0 = 0 ∨ e.data.toList.head?.getD 0 = 0 then none
  else
    let k : PublicKey := ⟨Bytes.toNat n, Bytes.toNat e⟩
    if k.isSound then some k else none

/-- The exponent of generated keys. -/
def usualExponent : Nat := 65537

/-- A private key of two random primes whose product has exactly `bits` bits. -/
def generate? (rng : Entropy) (bits : Nat) : Option PrivateKey := do
  let a ← Prime.random? (rng.fork 0) (bits / 2) usualExponent
  let b ← Prime.random? (rng.fork 1) (bits / 2) usualExponent
  let (p, q) := if a < b then (b, a) else (a, b)
  let d ← Modular.inverse? (Nat.lcm (p - 1) (q - 1)) usualExponent
  let qi ← Modular.inverse? p q
  let k : PrivateKey :=
    { n := p * q, e := usualExponent, d := d, p := p, q := q
      dp := d % (p - 1), dq := d % (q - 1), qi := qi }
  if k.consistent then some k else none

end SealedToken.Rsa
