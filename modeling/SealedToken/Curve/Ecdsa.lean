import SealedToken.Algorithm.Basic
import SealedToken.Curve.Weierstrass
import SealedToken.Digest.Sha2

/-!
Signatures on the curves of `EC` keys. A signature is the pair of its two
numbers, each filled to the size of a coordinate; either of the two possible
second numbers is accepted.
-/

namespace SealedToken.Ecdsa

open Weierstrass

/-- The leading bits of a message's digest, as many as the order has. -/
def digestNumber (c : EllipticCurve) (message : ByteArray) : Nat :=
  let size := c.params.order.log2 + 1
  Bytes.toNat (c.sha.digest message) / 2 ^ (c.sha.bits - size)

/-- Is (`x`, `y`) the public point of a scalar? -/
def belongs (c : Params) (d x y : Nat) : Bool :=
  c.affine? (c.times d c.base) == some (x, y)

/-- Sign a number with one random scalar after the other, until both numbers of
the signature are not zero. -/
def signNumber? (c : Params) (d e : Nat) (rng : Entropy) : (tries : Nat) → Option (Nat × Nat)
  | 0 => none
  | tries + 1 =>
      let k := c.randomScalar (rng.fork tries)
      let signature := do
        let (x, _) ← c.affine? (c.times k c.base)
        let r := x % c.order
        let i ← Modular.inverse? c.order k
        let s := i * ((e + r * d) % c.order) % c.order
        if r = 0 ∨ s = 0 then none else some (r, s)
      match signature with
      | some pair => some pair
      | none => signNumber? c d e rng tries

/-- Sign with the scalar `d`, `none` when (`x`, `y`) is not the point of it. -/
def sign? (rng : Entropy) (c : EllipticCurve) (d x y message : ByteArray) : Option ByteArray := do
  let d ← c.params.scalar? (Bytes.toNat d)
  if ! belongs c.params d (Bytes.toNat x) (Bytes.toNat y) then none
  let (r, s) ← signNumber? c.params d (digestNumber c message) rng 8
  some (Bytes.ofNat c.coordinateSize r ++ Bytes.ofNat c.coordinateSize s)

def verify (c : EllipticCurve) (x y message signature : ByteArray) : Bool :=
  let params := c.params
  let size := c.coordinateSize
  let r := Bytes.toNat (signature.extract 0 size)
  let s := Bytes.toNat (signature.extract size (2 * size))
  let accepted := do
    if signature.size ≠ 2 * size then none
    let point ← params.point? (Bytes.toNat x) (Bytes.toNat y)
    let r ← params.scalar? r
    let s ← params.scalar? s
    let i ← Modular.inverse? params.order s
    let u := digestNumber c message * i % params.order
    let v := r * i % params.order
    let (x, _) ← params.affine? (params.add (params.times u params.base) (params.times v point))
    some (x % params.order == r)
  accepted.getD false

end SealedToken.Ecdsa
