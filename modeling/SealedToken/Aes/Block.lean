/-!
The AES block cipher. The substitution is inversion in the field of 256 elements
followed by an affine map; together with the mixing of a column it is tabulated
once, so that a round is four look-ups and exclusive ors per column. Decryption
runs the same way with the inverse tables and with round keys whose columns are
unmixed.
-/

namespace SealedToken.Aes

/-! ### The field -/

/-- Multiplication by the element `x`. -/
def double (a : UInt8) : UInt8 :=
  if a < 0x80 then a <<< 1 else (a <<< 1) ^^^ 0x1b

/-- Multiplication, by the bits of the second factor from a given one on. -/
def mulFrom (sum a b : UInt8) : (bits : Nat) → UInt8
  | 0 => sum
  | bits + 1 =>
      mulFrom (if b &&& 1 = 1 then sum ^^^ a else sum) (double a) (b >>> 1) bits

def mul (a b : UInt8) : UInt8 := mulFrom 0 a b 8

/-- The inverse is the power of 254; that of zero is zero. -/
def inverse (a : UInt8) : UInt8 :=
  let a2 := mul a a
  let a4 := mul a2 a2
  let a8 := mul a4 a4
  let a16 := mul a8 a8
  let a32 := mul a16 a16
  let a64 := mul a32 a32
  let a128 := mul a64 a64
  mul a2 (mul a4 (mul a8 (mul a16 (mul a32 (mul a64 a128)))))

def rotl8 (a : UInt8) (n : UInt8) : UInt8 := (a <<< n) ||| (a >>> (8 - n))

def substitute (a : UInt8) : UInt8 :=
  let b := inverse a
  b ^^^ rotl8 b 1 ^^^ rotl8 b 2 ^^^ rotl8 b 3 ^^^ rotl8 b 4 ^^^ 0x63

def unsubstitute (a : UInt8) : UInt8 :=
  inverse (rotl8 a 1 ^^^ rotl8 a 3 ^^^ rotl8 a 6 ^^^ 0x05)

/-! ### Tables -/

def substitution : Array UInt8 :=
  (Array.range 256).map fun i => substitute (UInt8.ofNat i)

def unsubstitution : Array UInt8 :=
  (Array.range 256).map fun i => unsubstitute (UInt8.ofNat i)

def ofBytes (a b c d : UInt8) : UInt32 :=
  (a.toUInt32 <<< 24) ||| (b.toUInt32 <<< 16) ||| (c.toUInt32 <<< 8) ||| d.toUInt32

/-- What the first byte of a column contributes to the mixed column. -/
def mixing : Array UInt32 :=
  substitution.map fun s => ofBytes (mul s 2) s s (mul s 3)

/-- What the first byte of a column contributes to the unmixed column. -/
def unmixing : Array UInt32 :=
  unsubstitution.map fun s => ofBytes (mul s 14) (mul s 9) (mul s 13) (mul s 11)

def rotr (x : UInt32) (n : UInt32) : UInt32 := (x >>> n) ||| (x <<< (32 - n))

/-- The bytes of a word from the first to the last. -/
def byte0 (x : UInt32) : Nat := (x >>> 24).toNat
def byte1 (x : UInt32) : Nat := ((x >>> 16) &&& 0xff).toNat
def byte2 (x : UInt32) : Nat := ((x >>> 8) &&& 0xff).toNat
def byte3 (x : UInt32) : Nat := (x &&& 0xff).toNat

/-- One column after a round, from the four words that its bytes come from. -/
def column (table : Array UInt32) (w x y z key : UInt32) : UInt32 :=
  table.getD (byte0 w) 0 ^^^ rotr (table.getD (byte1 x) 0) 8 ^^^
    rotr (table.getD (byte2 y) 0) 16 ^^^ rotr (table.getD (byte3 z) 0) 24 ^^^ key

/-- One column after the last round, which does not mix. -/
def lastColumn (table : Array UInt8) (w x y z key : UInt32) : UInt32 :=
  ofBytes (table.getD (byte0 w) 0) (table.getD (byte1 x) 0)
    (table.getD (byte2 y) 0) (table.getD (byte3 z) 0) ^^^ key

/-! ### Keys -/

/-- Words of the round keys, four for each round and four to start with. -/
structure Key where
  rounds : Nat
  encryption : Array UInt32
  decryption : Array UInt32

def substituteWord (x : UInt32) : UInt32 :=
  ofBytes (substitution.getD (byte0 x) 0) (substitution.getD (byte1 x) 0)
    (substitution.getD (byte2 x) 0) (substitution.getD (byte3 x) 0)

/-- Append so many words to a key of `n` words; `power` is the constant of the
next multiple of `n`. -/
def expand (n : Nat) (power : UInt8) (w : Array UInt32) : (left : Nat) → Array UInt32
  | 0 => w
  | left + 1 =>
      let i := w.size
      let last := w.getD (i - 1) 0
      let base := w.getD (i - n) 0
      if i % n = 0 then
        let x := substituteWord (rotr last 24) ^^^ (power.toUInt32 <<< 24)
        expand n (double power) (w.push (base ^^^ x)) left
      else if 6 < n ∧ i % n = 4 then
        expand n power (w.push (base ^^^ substituteWord last)) left
      else expand n power (w.push (base ^^^ last)) left

def unmixWord (x : UInt32) : UInt32 :=
  let at8 (i : Nat) := unmixing.getD (substitution.getD i 0).toNat 0
  at8 (byte0 x) ^^^ rotr (at8 (byte1 x)) 8 ^^^ rotr (at8 (byte2 x)) 16 ^^^
    rotr (at8 (byte3 x)) 24

def wordAt (bytes : ByteArray) (i : Nat) : UInt32 :=
  ofBytes (bytes.get! i) (bytes.get! (i + 1)) (bytes.get! (i + 2)) (bytes.get! (i + 3))

/-- The round keys of a key of 16, 24 or 32 bytes. -/
def Key.ofBytes (key : ByteArray) : Key :=
  let n := key.size / 4
  let rounds := n + 6
  let start := (Array.range n).map fun i => wordAt key (4 * i)
  let words := expand n 1 start (4 * (rounds + 1) - n)
  { rounds := rounds
    encryption := words
    decryption := (Array.range words.size).map fun i =>
      let x := words.getD (4 * (rounds - i / 4) + i % 4) 0
      if i < 4 ∨ 4 * rounds ≤ i then x else unmixWord x }

/-! ### Blocks -/

/-- Sixteen bytes as four columns. -/
structure Block where
  c0 : UInt32
  c1 : UInt32
  c2 : UInt32
  c3 : UInt32
  deriving DecidableEq

def Block.ofBytes (bytes : ByteArray) (offset : Nat) : Block :=
  ⟨wordAt bytes offset, wordAt bytes (offset + 4), wordAt bytes (offset + 8),
   wordAt bytes (offset + 12)⟩

def pushWord (out : ByteArray) (x : UInt32) : ByteArray :=
  (((out.push (x >>> 24).toUInt8).push (x >>> 16).toUInt8).push (x >>> 8).toUInt8).push x.toUInt8

/-- Append the bytes of a block. -/
def Block.pushTo (b : Block) (out : ByteArray) : ByteArray :=
  pushWord (pushWord (pushWord (pushWord out b.c0) b.c1) b.c2) b.c3

def Block.xor (a b : Block) : Block :=
  ⟨a.c0 ^^^ b.c0, a.c1 ^^^ b.c1, a.c2 ^^^ b.c2, a.c3 ^^^ b.c3⟩

/-- The rounds up to the last; `i` is the index of the next round key word. -/
def encryptFrom (w : Array UInt32) (i : Nat) (a b c d : UInt32) : (left : Nat) → Block
  | 0 =>
      ⟨lastColumn substitution a b c d (w.getD i 0),
       lastColumn substitution b c d a (w.getD (i + 1) 0),
       lastColumn substitution c d a b (w.getD (i + 2) 0),
       lastColumn substitution d a b c (w.getD (i + 3) 0)⟩
  | left + 1 =>
      encryptFrom w (i + 4)
        (column mixing a b c d (w.getD i 0)) (column mixing b c d a (w.getD (i + 1) 0))
        (column mixing c d a b (w.getD (i + 2) 0)) (column mixing d a b c (w.getD (i + 3) 0))
        left

def decryptFrom (w : Array UInt32) (i : Nat) (a b c d : UInt32) : (left : Nat) → Block
  | 0 =>
      ⟨lastColumn unsubstitution a d c b (w.getD i 0),
       lastColumn unsubstitution b a d c (w.getD (i + 1) 0),
       lastColumn unsubstitution c b a d (w.getD (i + 2) 0),
       lastColumn unsubstitution d c b a (w.getD (i + 3) 0)⟩
  | left + 1 =>
      decryptFrom w (i + 4)
        (column unmixing a d c b (w.getD i 0)) (column unmixing b a d c (w.getD (i + 1) 0))
        (column unmixing c b a d (w.getD (i + 2) 0)) (column unmixing d c b a (w.getD (i + 3) 0))
        left

def Key.encrypt (k : Key) (x : Block) : Block :=
  let w := k.encryption
  encryptFrom w 4 (x.c0 ^^^ w.getD 0 0) (x.c1 ^^^ w.getD 1 0) (x.c2 ^^^ w.getD 2 0)
    (x.c3 ^^^ w.getD 3 0) (k.rounds - 1)

def Key.decrypt (k : Key) (x : Block) : Block :=
  let w := k.decryption
  decryptFrom w 4 (x.c0 ^^^ w.getD 0 0) (x.c1 ^^^ w.getD 1 0) (x.c2 ^^^ w.getD 2 0)
    (x.c3 ^^^ w.getD 3 0) (k.rounds - 1)

end SealedToken.Aes
