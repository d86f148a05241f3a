import SealedToken.Algorithm.Size
import SealedToken.Digest.Basic

/-!
The SHA-2 family: 64 rounds on eight words of 32 bits, or 80 rounds on eight words
of 64 bits. The digest of 384 bits is the longer form with another start and its
output cut short.
-/

namespace SealedToken

namespace Sha256

structure State where
  a : UInt32
  b : UInt32
  c : UInt32
  d : UInt32
  e : UInt32
  f : UInt32
  g : UInt32
  h : UInt32

def rotr (x n : UInt32) : UInt32 :=
  (x >>> n) ||| (x <<< (32 - n))

/-- The first 32 bits of the fractional parts of the cube roots of the first
64 primes. -/
def constants : Array UInt32 :=
  #[0x428a2f98, 0x71374491, 0xb5c0fbcf, 0xe9b5dba5, 0x3956c25b, 0x59f111f1,
    0x923f82a4, 0xab1c5ed5, 0xd807aa98, 0x12835b01, 0x243185be, 0x550c7dc3,
    0x72be5d74, 0x80deb1fe, 0x9bdc06a7, 0xc19bf174, 0xe49b69c1, 0xefbe4786,
    0x0fc19dc6, 0x240ca1cc, 0x2de92c6f, 0x4a7484aa, 0x5cb0a9dc, 0x76f988da,
    0x983e5152, 0xa831c66d, 0xb00327c8, 0xbf597fc7, 0xc6e00bf3, 0xd5a79147,
    0x06ca6351, 0x14292967, 0x27b70a85, 0x2e1b2138, 0x4d2c6dfc, 0x53380d13,
    0x650a7354, 0x766a0abb, 0x81c2c92e, 0x92722c85, 0xa2bfe8a1, 0xa81a664b,
    0xc24b8b70, 0xc76c51a3, 0xd192e819, 0xd6990624, 0xf40e3585, 0x106aa070,
    0x19a4c116, 0x1e376c08, 0x2748774c, 0x34b0bcb5, 0x391c0cb3, 0x4ed8aa4a,
    0x5b9cca4f, 0x682e6ff3, 0x748f82ee, 0x78a5636f, 0x84c87814, 0x8cc70208,
    0x90befffa, 0xa4506ceb, 0xbef9a3f7, 0xc67178f2]

def word (bytes : ByteArray) (i : Nat) : UInt32 :=
  ((bytes.get! i).toUInt32 <<< 24) ||| ((bytes.get! (i + 1)).toUInt32 <<< 16) |||
    ((bytes.get! (i + 2)).toUInt32 <<< 8) ||| (bytes.get! (i + 3)).toUInt32

/-- Append so many words to a schedule that has at least sixteen. -/
def extend (w : Array UInt32) : (left : Nat) → Array UInt32
  | 0 => w
  | left + 1 =>
      let i := w.size
      let x := w.getD (i - 15) 0
      let y := w.getD (i - 2) 0
      let s0 := rotr x 7 ^^^ rotr x 18 ^^^ (x >>> 3)
      let s1 := rotr y 17 ^^^ rotr y 19 ^^^ (y >>> 10)
      extend (w.push (w.getD (i - 16) 0 + s0 + w.getD (i - 7) 0 + s1)) left

def schedule (bytes : ByteArray) (offset : Nat) : Array UInt32 :=
  extend ((Array.range 16).map fun i => word bytes (offset + 4 * i)) 48

/-- The rounds that are left, the last being round 63. -/
def rounds (w : Array UInt32) : (left : Nat) → (a b c d e f g h : UInt32) → State
  | 0, a, b, c, d, e, f, g, h => ⟨a, b, c, d, e, f, g, h⟩
  | left + 1, a, b, c, d, e, f, g, h =>
      let i := 63 - left
      let s1 := rotr e 6 ^^^ rotr e 11 ^^^ rotr e 25
      let choice := (e &&& f) ^^^ (~~~e &&& g)
      let t := h + s1 + choice + constants.getD i 0 + w.getD i 0
      let s0 := rotr a 2 ^^^ rotr a 13 ^^^ rotr a 22
      let majority := (a &&& b) ^^^ (a &&& c) ^^^ (b &&& c)
      rounds w left (t + s0 + majority) a b c (d + t) e f g

def compress (s : State) (bytes : ByteArray) (offset : Nat) : State :=
  let t := rounds (schedule bytes offset) 64 s.a s.b s.c s.d s.e s.f s.g s.h
  ⟨s.a + t.a, s.b + t.b, s.c + t.c, s.d + t.d, s.e + t.e, s.f + t.f, s.g + t.g, s.h + t.h⟩

def wordBytes (x : UInt32) : List UInt8 :=
  [(x >>> 24).toUInt8, (x >>> 16).toUInt8, (x >>> 8).toUInt8, x.toUInt8]

def initial : State :=
  ⟨0x6a09e667, 0xbb67ae85, 0x3c6ef372, 0xa54ff53a,
   0x510e527f, 0x9b05688c, 0x1f83d9ab, 0x5be0cd19⟩

def output (s : State) : ByteArray :=
  ⟨(wordBytes s.a ++ wordBytes s.b ++ wordBytes s.c ++ wordBytes s.d ++
    wordBytes s.e ++ wordBytes s.f ++ wordBytes s.g ++ wordBytes s.h).toArray⟩

theorem size_output (s : State) : (output s).size = 32 := rfl

end Sha256

namespace Sha512

structure State where
  a : UInt64
  b : UInt64
  c : UInt64
  d : UInt64
  e : UInt64
  f : UInt64
  g : UInt64
  h : UInt64

def rotr (x n : UInt64) : UInt64 :=
  (x >>> n) ||| (x <<< (64 - n))

/-- The first 64 bits of the fractional parts of the cube roots of the first
80 primes. -/
def constants : Array UInt64 :=
  #[0x428a2f98d728ae22, 0x7137449123ef65cd, 0xb5c0fbcfec4d3b2f, 0xe9b5dba58189dbbc,
    0x3956c25bf348b538, 0x59f111f1b605d019, 0x923f82a4af194f9b, 0xab1c5ed5da6d8118,
    0xd807aa98a3030242, 0x12835b0145706fbe, 0x243185be4ee4b28c, 0x550c7dc3d5ffb4e2,
    0x72be5d74f27b896f, 0x80deb1fe3b1696b1, 0x9bdc06a725c71235, 0xc19bf174cf692694,
    0xe49b69c19ef14ad2, 0xefbe4786384f25e3, 0x0fc19dc68b8cd5b5, 0x240ca1cc77ac9c65,
    0x2de92c6f592b0275, 0x4a7484aa6ea6e483, 0x5cb0a9dcbd41fbd4, 0x76f988da831153b5,
    0x983e5152ee66dfab, 0xa831c66d2db43210, 0xb00327c898fb213f, 0xbf597fc7beef0ee4,
    0xc6e00bf33da88fc2, 0xd5a79147930aa725, 0x06ca6351e003826f, 0x142929670a0e6e70,
    0x27b70a8546d22ffc, 0x2e1b21385c26c926, 0x4d2c6dfc5ac42aed, 0x53380d139d95b3df,
    0x650a73548baf63de, 0x766a0abb3c77b2a8, 0x81c2c92e47edaee6, 0x92722c851482353b,
    0xa2bfe8a14cf10364, 0xa81a664bbc423001, 0xc24b8b70d0f89791, 0xc76c51a30654be30,
    0xd192e819d6ef5218, 0xd69906245565a910, 0xf40e35855771202a, 0x106aa07032bbd1b8,
    0x19a4c116b8d2d0c8, 0x1e376c085141ab53, 0x2748774cdf8eeb99, 0x34b0bcb5e19b48a8,
    0x391c0cb3c5c95a63, 0x4ed8aa4ae3418acb, 0x5b9cca4f7763e373, 0x682e6ff3d6b2b8a3,
    0x748f82ee5defb2fc, 0x78a5636f43172f60, 0x84c87814a1f0ab72, 0x8cc702081a6439ec,
    0x90befffa23631e28, 0xa4506cebde82bde9, 0xbef9a3f7b2c67915, 0xc67178f2e372532b,
    0xca273eceea26619c, 0xd186b8c721c0c207, 0xeada7dd6cde0eb1e, 0xf57d4f7fee6ed178,
    0x06f067aa72176fba, 0x0a637dc5a2c898a6, 0x113f9804bef90dae, 0x1b710b35131c471b,
    0x28db77f523047d84, 0x32caab7b40c72493, 0x3c9ebe0a15c9bebc, 0x431d67c49c100d4c,
    0x4cc5d4becb3e42b6, 0x597f299cfc657e2a, 0x5fcb6fab3ad6faec, 0x6c44198c4a475817]

def word (bytes : ByteArray) (i : Nat) : UInt64 :=
  ((bytes.get! i).toUInt64 <<< 56) ||| ((bytes.get! (i + 1)).toUInt64 <<< 48) |||
    ((bytes.get! (i + 2)).toUInt64 <<< 40) ||| ((bytes.get! (i + 3)).toUInt64 <<< 32) |||
    ((bytes.get! (i + 4)).toUInt64 <<< 24) ||| ((bytes.get! (i + 5)).toUInt64 <<< 16) |||
    ((bytes.get! (i + 6)).toUInt64 <<< 8) ||| (bytes.get! (i + 7)).toUInt64

/-- Append so many words to a schedule that has at least sixteen. -/
def extend (w : Array UInt64) : (left : Nat) → Array UInt64
  | 0 => w
  | left + 1 =>
      let i := w.size
      let x := w.getD (i - 15) 0
      let y := w.getD (i - 2) 0
      let s0 := rotr x 1 ^^^ rotr x 8 ^^^ (x >>> 7)
      let s1 := rotr y 19 ^^^ rotr y 61 ^^^ (y >>> 6)
      extend (w.push (w.getD (i - 16) 0 + s0 + w.getD (i - 7) 0 + s1)) left

def schedule (bytes : ByteArray) (offset : Nat) : Array UInt64 :=
  extend ((Array.range 16).map fun i => word bytes (offset + 8 * i)) 64

/-- The rounds that are left, the last being round 79. -/
def rounds (w : Array UInt64) : (left : Nat) → (a b c d e f g h : UInt64) → State
  | 0, a, b, c, d, e, f, g, h => ⟨a, b, c, d, e, f, g, h⟩
  | left + 1, a, b, c, d, e, f, g, h =>
      let i := 79 - left
      let s1 := rotr e 14 ^^^ rotr e 18 ^^^ rotr e 41
      let choice := (e &&& f) ^^^ (~~~e &&& g)
      let t := h + s1 + choice + constants.getD i 0 + w.getD i 0
      let s0 := rotr a 28 ^^^ rotr a 34 ^^^ rotr a 39
      let majority := (a &&& b) ^^^ (a &&& c) ^^^ (b &&& c)
      rounds w left (t + s0 + majority) a b c (d + t) e f g

def compress (s : State) (bytes : ByteArray) (offset : Nat) : State :=
  let t := rounds (schedule bytes offset) 80 s.a s.b s.c s.d s.e s.f s.g s.h
  ⟨s.a + t.a, s.b + t.b, s.c + t.c, s.d + t.d, s.e + t.e, s.f + t.f, s.g + t.g, s.h + t.h⟩

def wordBytes (x : UInt64) : List UInt8 :=
  [(x >>> 56).toUInt8, (x >>> 48).toUInt8, (x >>> 40).toUInt8, (x >>> 32).toUInt8,
   (x >>> 24).toUInt8, (x >>> 16).toUInt8, (x >>> 8).toUInt8, x.toUInt8]

def initial : State :=
  ⟨0x6a09e667f3bcc908, 0xbb67ae8584caa73b, 0x3c6ef372fe94f82b, 0xa54ff53a5f1d36f1,
   0x510e527fade682d1, 0x9b05688c2b3e6c1f, 0x1f83d9abfb41bd6b, 0x5be0cd19137e2179⟩

def initial384 : State :=
  ⟨0xcbbb9d5dc1059ed8, 0x629a292a367cd507, 0x9159015a3070dd17, 0x152fecd8f70e5939,
   0x67332667ffc00b31, 0x8eb44a8768581511, 0xdb0c2e0d64f98fa7, 0x47b5481dbefa4fa4⟩

def output (s : State) : ByteArray :=
  ⟨(wordBytes s.a ++ wordBytes s.b ++ wordBytes s.c ++ wordBytes s.d ++
    wordBytes s.e ++ wordBytes s.f ++ wordBytes s.g ++ wordBytes s.h).toArray⟩

def output384 (s : State) : ByteArray :=
  ⟨(wordBytes s.a ++ wordBytes s.b ++ wordBytes s.c ++ wordBytes s.d ++
    wordBytes s.e ++ wordBytes s.f).toArray⟩

theorem size_output (s : State) : (output s).size = 64 := rfl

theorem size_output384 (s : State) : (output384 s).size = 48 := rfl

end Sha512

def Sha256.blockDigest : BlockDigest Sha256.State :=
  { blockSize := 64
    lengthSize := 8
    initial := Sha256.initial
    compress := Sha256.compress
    output := Sha256.output }

def Sha512.blockDigest384 : BlockDigest Sha512.State :=
  { blockSize := 128
    lengthSize := 16
    initial := Sha512.initial384
    compress := Sha512.compress
    output := Sha512.output384 }

def Sha512.blockDigest : BlockDigest Sha512.State :=
  { blockSize := 128
    lengthSize := 16
    initial := Sha512.initial
    compress := Sha512.compress
    output := Sha512.output }

def ShaSize.digest : ShaSize → ByteArray → ByteArray
  | .sha256 => Sha256.blockDigest.digest
  | .sha384 => Sha512.blockDigest384.digest
  | .sha512 => Sha512.blockDigest.digest

@[simp] theorem ShaSize.size_digest (h : ShaSize) (message : ByteArray) :
    (h.digest message).size = h.bytes := by
  cases h
  · exact Sha256.size_output _
  · exact Sha512.size_output384 _
  · exact Sha512.size_output _

end SealedToken
