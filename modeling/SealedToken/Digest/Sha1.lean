import SealedToken.Digest.Basic

/-!
The SHA-1 digest: 80 rounds on five words of 32 bits.
-/

namespace SealedToken

namespace Sha1

structure State where
  a : UInt32
  b : UInt32
  c : UInt32
  d : UInt32
  e : UInt32

def initial : State :=
  ⟨0x67452301, 0xefcdab89, 0x98badcfe, 0x10325476, 0xc3d2e1f0⟩

def rotl (x : UInt32) (n : UInt32) : UInt32 :=
  (x <<< n) ||| (x >>> (32 - n))

def word (bytes : ByteArray) (i : Nat) : UInt32 :=
  ((bytes.get! i).toUInt32 <<< 24) ||| ((bytes.get! (i + 1)).toUInt32 <<< 16) |||
    ((bytes.get! (i + 2)).toUInt32 <<< 8) ||| (bytes.get! (i + 3)).toUInt32

/-- Append so many words to a schedule that has at least sixteen. -/
def extend (w : Array UInt32) : (left : Nat) → Array UInt32
  | 0 => w
  | left + 1 =>
      let i := w.size
      let x := w.getD (i - 3) 0 ^^^ w.getD (i - 8) 0 ^^^ w.getD (i - 14) 0 ^^^ w.getD (i - 16) 0
      extend (w.push (rotl x 1)) left

def schedule (bytes : ByteArray) (offset : Nat) : Array UInt32 :=
  extend ((Array.range 16).map fun i => word bytes (offset + 4 * i)) 64

/-- The rounds that are left, the last being round 79. -/
def rounds (w : Array UInt32) : (left : Nat) → (a b c d e : UInt32) → State
  | 0, a, b, c, d, e => ⟨a, b, c, d, e⟩
  | left + 1, a, b, c, d, e =>
      let i := 79 - left
      let f : UInt32 :=
        if i < 20 then ((b &&& c) ||| (~~~b &&& d)) + 0x5a827999
        else if i < 40 then (b ^^^ c ^^^ d) + 0x6ed9eba1
        else if i < 60 then ((b &&& c) ||| (b &&& d) ||| (c &&& d)) + 0x8f1bbcdc
        else (b ^^^ c ^^^ d) + 0xca62c1d6
      rounds w left (rotl a 5 + f + e + w.getD i 0) a (rotl b 30) c d

def compress (s : State) (bytes : ByteArray) (offset : Nat) : State :=
  let t := rounds (schedule bytes offset) 80 s.a s.b s.c s.d s.e
  ⟨s.a + t.a, s.b + t.b, s.c + t.c, s.d + t.d, s.e + t.e⟩

def wordBytes (x : UInt32) : List UInt8 :=
  [(x >>> 24).toUInt8, (x >>> 16).toUInt8, (x >>> 8).toUInt8, x.toUInt8]

def output (s : State) : ByteArray :=
  ⟨(wordBytes s.a ++ wordBytes s.b ++ wordBytes s.c ++ wordBytes s.d ++ wordBytes s.e).toArray⟩

end Sha1

def Sha1.blockDigest : BlockDigest Sha1.State :=
  { blockSize := 64
    lengthSize := 8
    initial := Sha1.initial
    compress := Sha1.compress
    output := Sha1.output }

end SealedToken
