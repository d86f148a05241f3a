import SealedToken.Key.Basic
import SealedToken.Primitives.Basic

/-!
Random keys.
-/

namespace SealedToken.Jwk

/-- A secret of so many bits, a whole number of bytes. -/
def randomOctets (rng : Entropy) (bits : Nat) : Except Error Jwk :=
  if bits = 0 ∨ bits % 8 ≠ 0 then .error (.invalidKey .secretSize)
  else .ok (.ofOctets (rng.take (bits / 8)))

/-- The sizes of a generated modulus, in bits. -/
def modulusSizes : List Nat := [2048, 3072, 4096, 8192]

def randomRsa (p : Primitives) (rng : Entropy) (bits : Nat) : Except Error Jwk :=
  if ¬ modulusSizes.contains bits then .error (.invalidKey (.modulusSize bits))
  else
    match p.rsaGenerate? rng bits with
    | none => .error (.primitive .rsaGenerate)
    | some parts =>
        let bytes (l : List UInt8) : ByteArray := ⟨l.toArray⟩
        let secret : RsaSecret :=
          { d := bytes parts.d, p := bytes parts.p, q := bytes parts.q
            dp := bytes parts.dp, dq := bytes parts.dq, qi := bytes parts.qi }
        .ok { material := .rsa (bytes parts.n) (bytes parts.e) (some secret) }

/-- A scalar and the point that belongs to it. -/
def randomEc (p : Primitives) (rng : Entropy) (curve : EllipticCurve) : Except Error Jwk :=
  let d := p.curveSecret rng (.ec curve)
  match p.curvePublic? (.ec curve) d with
  | none => .error (.primitive .curveKey)
  | some point =>
      let size := curve.coordinateSize
      let x := point.extract 0 size
      let y := point.extract size (2 * size)
      .ok { material := .ec curve x y (some d) }

def randomOkp (p : Primitives) (rng : Entropy) (curve : OctetCurve) : Except Error Jwk :=
  match curve with
  | .ed25519 =>
      let d := rng.take OctetCurve.memberSize
      .ok { material := .okp .ed25519 (p.eddsaPublic d) (some d) }
  | .x25519 =>
      let d := p.curveSecret rng .x25519
      match p.curvePublic? .x25519 d with
      | none => .error (.primitive .curveKey)
      | some x => .ok { material := .okp .x25519 x (some d) }

end SealedToken.Jwk
