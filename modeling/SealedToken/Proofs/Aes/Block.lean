import SealedToken.Proofs.Aes.Field
import SealedToken.Proofs.Bytes.Number

/-!
A block is decrypted to what was encrypted. The rounds of a decryption are those of the
encryption backwards, in the order of the encryption: this is possible since unmixing is linear,
and the round keys are unmixed beforehand.
-/

namespace SealedToken.Aes

variable {a b c d : UInt8} {x y : UInt32}

/-! ### Words -/

theorem toNat_ofBytes (a b c d : UInt8) :
    (ofBytes a b c d).toNat = ((a.toNat * 256 + b.toNat) * 256 + c.toNat) * 256 + d.toNat := by
  have ha := a.toNat_lt
  have hb := b.toNat_lt
  have hc := c.toNat_lt
  have hd := d.toNat_lt
  simp only [ofBytes, UInt32.toNat_or, UInt32.toNat_shiftLeft, UInt8.toNat_toUInt32,
    UInt32.reduceToNat, Nat.reduceMod, Nat.or_assoc, Nat.reducePow]
  rw [Nat.mod_eq_of_lt (by omega), Nat.mod_eq_of_lt (by omega), Nat.mod_eq_of_lt (by omega),
    ← Nat.shiftLeft_add_eq_or_of_lt (i := 8) (by omega),
    ← Nat.shiftLeft_add_eq_or_of_lt (i := 16) (by omega),
    ← Nat.shiftLeft_add_eq_or_of_lt (i := 24) (by omega)]
  omega

theorem exists_ofBytes (x : UInt32) : ∃ a b c d, x = ofBytes a b c d := by
  have hx := x.toNat_lt
  refine ⟨.ofNat (x.toNat / 256 ^ 3), .ofNat (x.toNat / 256 ^ 2), .ofNat (x.toNat / 256),
    .ofNat x.toNat, UInt32.toNat_inj.1 ?_⟩
  simp only [toNat_ofBytes, UInt8.toNat_ofNat']
  omega

theorem byte_bounds (a b c d : UInt8) :
    a.toNat < 256 ∧ b.toNat < 256 ∧ c.toNat < 256 ∧ d.toNat < 256 :=
  ⟨a.toNat_lt, b.toNat_lt, c.toNat_lt, d.toNat_lt⟩

theorem and_255 (n : Nat) : n &&& 255 = n % 256 := Nat.and_two_pow_sub_one_eq_mod n 8

/-- The bytes of a word are those that it was put together of. -/
theorem bytes_ofBytes (a b c d : UInt8) :
    byte0 (ofBytes a b c d) = a.toNat ∧ byte1 (ofBytes a b c d) = b.toNat ∧
      byte2 (ofBytes a b c d) = c.toNat ∧ byte3 (ofBytes a b c d) = d.toNat := by
  have := byte_bounds a b c d
  simp only [byte0, byte1, byte2, byte3, UInt32.toNat_and, UInt32.toNat_shiftRight, toNat_ofBytes,
    Nat.shiftRight_eq_div_pow, UInt32.reduceToNat, Nat.reduceMod, and_255]
  omega

theorem ofBytes_xor (a b c d a' b' c' d' : UInt8) :
    ofBytes a b c d ^^^ ofBytes a' b' c' d' =
      ofBytes (a ^^^ a') (b ^^^ b') (c ^^^ c') (d ^^^ d') := by
  have hxor (m n : Nat) (a b : UInt8) :
      (m * 256 + a.toNat) ^^^ (n * 256 + b.toNat) = (m ^^^ n) * 256 + (a.toNat ^^^ b.toNat) :=
    Bytes.mul_two_pow_add_xor a.toNat_lt b.toNat_lt
  apply UInt32.toNat_inj.1
  simp only [UInt32.toNat_xor, toNat_ofBytes, UInt8.toNat_xor, hxor]

/-- A rotation by some of the bits. -/
theorem toNat_rotr {n : UInt32} (hpos : 0 < n.toNat) (hlt : n.toNat < 32) :
    (rotr x n).toNat = x.toNat % 2 ^ n.toNat * 2 ^ (32 - n.toNat) + x.toNat / 2 ^ n.toNat := by
  have hparts : 2 ^ n.toNat * 2 ^ (32 - n.toNat) = 2 ^ 32 := by
    rw [← Nat.pow_add, Nat.add_sub_cancel' (Nat.le_of_lt hlt)]
  have hhigh : x.toNat / 2 ^ n.toNat < 2 ^ (32 - n.toNat) := by
    rw [Nat.div_lt_iff_lt_mul (Nat.two_pow_pos _), Nat.mul_comm, hparts]
    exact x.toNat_lt
  have hsub : (32 - n).toNat = 32 - n.toNat := UInt32.toNat_sub_of_le 32 n (Nat.le_of_lt hlt)
  rw [rotr, UInt32.toNat_or, UInt32.toNat_shiftRight, UInt32.toNat_shiftLeft, hsub,
    Nat.mod_eq_of_lt hlt, Nat.mod_eq_of_lt (show 32 - n.toNat < 32 by omega), Nat.or_comm,
    Nat.shiftRight_eq_div_pow, Nat.shiftLeft_eq, ← hparts, Nat.mul_mod_mul_right,
    ← Nat.shiftLeft_eq, Nat.shiftLeft_add_eq_or_of_lt hhigh]

/-- A rotation by whole bytes moves the bytes around. -/
theorem rotr_ofBytes (a b c d : UInt8) :
    rotr (ofBytes a b c d) 8 = ofBytes d a b c ∧ rotr (ofBytes a b c d) 16 = ofBytes c d a b ∧
      rotr (ofBytes a b c d) 24 = ofBytes b c d a := by
  have := byte_bounds a b c d
  have hrotr {n : UInt32} (hpos : 0 < n.toNat) (hlt : n.toNat < 32) :=
    toNat_rotr (x := ofBytes a b c d) hpos hlt
  simp only [← UInt32.toNat_inj, hrotr (n := 8) (by decide) (by decide),
    hrotr (n := 16) (by decide) (by decide), hrotr (n := 24) (by decide) (by decide),
    toNat_ofBytes, UInt32.reduceToNat]
  omega

/-! ### Tables -/

theorem getD_tabulated {α : Type} (f : UInt8 → α) (a : UInt8) (default : α) :
    ((Array.range 256).map fun i => f (UInt8.ofNat i)).getD a.toNat default = f a := by
  have ha := a.toNat_lt
  simp [Array.getD, ha]

@[simp] theorem getD_substitution (a : UInt8) : substitution.getD a.toNat 0 = substitute a :=
  getD_tabulated substitute a 0

@[simp] theorem getD_unsubstitution (a : UInt8) :
    unsubstitution.getD a.toNat 0 = unsubstitute a :=
  getD_tabulated unsubstitute a 0

/-- What the first byte of a column contributes when the column is mixed. -/
def mixed (s : UInt8) : UInt32 := ofBytes (mul s 2) s s (mul s 3)

/-- What the first byte of a column contributes when the column is unmixed. -/
def unmixed (s : UInt8) : UInt32 := ofBytes (mul s 14) (mul s 9) (mul s 13) (mul s 11)

@[simp] theorem getD_mixing (a : UInt8) : mixing.getD a.toNat 0 = mixed (substitute a) := by
  rw [mixing, substitution, Array.map_map]
  exact getD_tabulated (fun a => mixed (substitute a)) a 0

@[simp] theorem getD_unmixing (a : UInt8) :
    unmixing.getD a.toNat 0 = unmixed (unsubstitute a) := by
  rw [unmixing, unsubstitution, Array.map_map]
  exact getD_tabulated (fun a => unmixed (unsubstitute a)) a 0

/-! ### Columns -/

/-- The first byte of a mixed column. -/
def mixedByte (a b c d : UInt8) : UInt8 := mul a 2 ^^^ mul b 3 ^^^ c ^^^ d

/-- The first byte of an unmixed column. -/
def unmixedByte (a b c d : UInt8) : UInt8 :=
  mul a 14 ^^^ mul b 11 ^^^ mul c 13 ^^^ mul d 9

/-- A column of which each byte comes from the bytes from its place on. -/
def around (f : UInt8 → UInt8 → UInt8 → UInt8 → UInt8) (a b c d : UInt8) : UInt32 :=
  ofBytes (f a b c d) (f b c d a) (f c d a b) (f d a b c)

theorem around_mixedByte (a b c d : UInt8) :
    mixed a ^^^ rotr (mixed b) 8 ^^^ rotr (mixed c) 16 ^^^ rotr (mixed d) 24 =
      around mixedByte a b c d := by
  simp only [mixed, rotr_ofBytes, ofBytes_xor, around, mixedByte]
  congr 1 <;> ac_rfl

theorem around_unmixedByte (a b c d : UInt8) :
    unmixed a ^^^ rotr (unmixed b) 8 ^^^ rotr (unmixed c) 16 ^^^ rotr (unmixed d) 24 =
      around unmixedByte a b c d := by
  simp only [unmixed, rotr_ofBytes, ofBytes_xor, around, unmixedByte]
  congr 1 <;> ac_rfl

theorem unmixWord_ofBytes (a b c d : UInt8) :
    unmixWord (ofBytes a b c d) = around unmixedByte a b c d := by
  simp only [unmixWord, bytes_ofBytes, getD_substitution, getD_unmixing, unsubstitute_substitute,
    around_unmixedByte]

theorem unmixedByte_xor (a b c d a' b' c' d' : UInt8) :
    unmixedByte (a ^^^ a') (b ^^^ b') (c ^^^ c') (d ^^^ d') =
      unmixedByte a b c d ^^^ unmixedByte a' b' c' d' := by
  simp only [unmixedByte, xor_mul]
  ac_rfl

/-- Unmixing is linear. -/
theorem unmixWord_xor (x y : UInt32) : unmixWord (x ^^^ y) = unmixWord x ^^^ unmixWord y := by
  obtain ⟨a, b, c, d, rfl⟩ := exists_ofBytes x
  obtain ⟨a', b', c', d', rfl⟩ := exists_ofBytes y
  simp only [ofBytes_xor, unmixWord_ofBytes, around, unmixedByte_xor]

/-- The matrix of the unmixing is inverse to that of the mixing, by its first row. -/
theorem unmixedByte_mixedByte (a b c d : UInt8) :
    unmixedByte (mixedByte a b c d) (mixedByte b c d a) (mixedByte c d a b) (mixedByte d a b c) =
      a := by
  have h0 : mul 2 14 ^^^ 11 ^^^ 13 ^^^ mul 3 9 = 1 := by decide
  have h1 : mul 3 14 ^^^ mul 2 11 ^^^ 13 ^^^ 9 = 0 := by decide
  have h2 : 14 ^^^ mul 3 11 ^^^ mul 2 13 ^^^ 9 = 0 := by decide
  have h3 : 14 ^^^ 11 ^^^ mul 3 13 ^^^ mul 2 9 = 0 := by decide
  calc unmixedByte (mixedByte a b c d) (mixedByte b c d a) (mixedByte c d a b) (mixedByte d a b c)
    _ = mul a (mul 2 14 ^^^ 11 ^^^ 13 ^^^ mul 3 9) ^^^
          mul b (mul 3 14 ^^^ mul 2 11 ^^^ 13 ^^^ 9) ^^^
          mul c (14 ^^^ mul 3 11 ^^^ mul 2 13 ^^^ 9) ^^^
          mul d (14 ^^^ 11 ^^^ mul 3 13 ^^^ mul 2 9) := by
        simp only [unmixedByte, mixedByte, xor_mul, mul_xor, mul_associates]
        ac_rfl
    _ = a := by
        rw [h0, h1, h2, h3, mul_commutes a, mul_one_left, mul_zero_right, mul_zero_right,
          mul_zero_right, UInt8.xor_zero, UInt8.xor_zero, UInt8.xor_zero]

/-- A column is mixed. -/
def mixWord (x : UInt32) : UInt32 :=
  around mixedByte (.ofNat (byte0 x)) (.ofNat (byte1 x)) (.ofNat (byte2 x)) (.ofNat (byte3 x))

theorem mixWord_ofBytes (a b c d : UInt8) :
    mixWord (ofBytes a b c d) = around mixedByte a b c d := by
  simp only [mixWord, bytes_ofBytes, UInt8.ofNat_toNat]

/-- Unmixing undoes mixing. -/
theorem unmixWord_mixWord (x : UInt32) : unmixWord (mixWord x) = x := by
  obtain ⟨a, b, c, d, rfl⟩ := exists_ofBytes x
  rw [mixWord_ofBytes, around, unmixWord_ofBytes, around, unmixedByte_mixedByte,
    unmixedByte_mixedByte, unmixedByte_mixedByte, unmixedByte_mixedByte]

/-! ### Columns of a round -/

variable {w x y z key : UInt32}

theorem column_mixing :
    column mixing w x y z key = mixWord (lastColumn substitution w x y z 0) ^^^ key := by
  obtain ⟨_, _, _, _, rfl⟩ := exists_ofBytes w
  obtain ⟨_, _, _, _, rfl⟩ := exists_ofBytes x
  obtain ⟨_, _, _, _, rfl⟩ := exists_ofBytes y
  obtain ⟨_, _, _, _, rfl⟩ := exists_ofBytes z
  simp only [column, lastColumn, bytes_ofBytes, getD_substitution, getD_mixing, around_mixedByte,
    UInt32.xor_zero, mixWord_ofBytes]

theorem column_unmixing :
    column unmixing w x y z key = unmixWord (lastColumn unsubstitution w x y z 0) ^^^ key := by
  obtain ⟨_, _, _, _, rfl⟩ := exists_ofBytes w
  obtain ⟨_, _, _, _, rfl⟩ := exists_ofBytes x
  obtain ⟨_, _, _, _, rfl⟩ := exists_ofBytes y
  obtain ⟨_, _, _, _, rfl⟩ := exists_ofBytes z
  simp only [column, lastColumn, bytes_ofBytes, getD_unsubstitution, getD_unmixing,
    around_unmixedByte, UInt32.xor_zero, unmixWord_ofBytes]

/-! ### Rounds -/

namespace Block

def map (f : UInt32 → UInt32) (x : Block) : Block := ⟨f x.c0, f x.c1, f x.c2, f x.c3⟩

/-- Substitute the bytes and shift them along the rows. -/
def shift (x : Block) : Block :=
  ⟨lastColumn substitution x.c0 x.c1 x.c2 x.c3 0, lastColumn substitution x.c1 x.c2 x.c3 x.c0 0,
   lastColumn substitution x.c2 x.c3 x.c0 x.c1 0, lastColumn substitution x.c3 x.c0 x.c1 x.c2 0⟩

/-- Shift the bytes back and substitute them back. -/
def unshift (x : Block) : Block :=
  ⟨lastColumn unsubstitution x.c0 x.c3 x.c2 x.c1 0, lastColumn unsubstitution x.c1 x.c0 x.c3 x.c2 0,
   lastColumn unsubstitution x.c2 x.c1 x.c0 x.c3 0, lastColumn unsubstitution x.c3 x.c2 x.c1 x.c0 0⟩

theorem unshift_shift (x : Block) : x.shift.unshift = x := by
  obtain ⟨x0, x1, x2, x3⟩ := x
  obtain ⟨_, _, _, _, rfl⟩ := exists_ofBytes x0
  obtain ⟨_, _, _, _, rfl⟩ := exists_ofBytes x1
  obtain ⟨_, _, _, _, rfl⟩ := exists_ofBytes x2
  obtain ⟨_, _, _, _, rfl⟩ := exists_ofBytes x3
  simp only [shift, unshift, lastColumn, bytes_ofBytes, getD_substitution, getD_unsubstitution,
    unsubstitute_substitute, UInt32.xor_zero]

theorem xor_xor (x k : Block) : (x.xor k).xor k = x := by
  simp only [xor, UInt32.xor_assoc, UInt32.xor_self, UInt32.xor_zero]

theorem unmix_mix_xor (x k : Block) :
    (((x.map mixWord).xor k).map unmixWord).xor (k.map unmixWord) = x := by
  simp only [xor, map, unmixWord_xor, unmixWord_mixWord, UInt32.xor_assoc, UInt32.xor_self,
    UInt32.xor_zero]

end Block

/-- The key of a round, from the index of its first word on. -/
def roundKey (w : Array UInt32) (i : Nat) : Block :=
  ⟨w.getD i 0, w.getD (i + 1) 0, w.getD (i + 2) 0, w.getD (i + 3) 0⟩

variable {words : Array UInt32} {i left : Nat}

theorem encryptFrom_zero (x : Block) :
    encryptFrom words i x.c0 x.c1 x.c2 x.c3 0 = x.shift.xor (roundKey words i) := by
  simp only [encryptFrom, Block.xor, Block.shift, roundKey, lastColumn, UInt32.xor_zero]

theorem encryptFrom_succ (x : Block) :
    encryptFrom words i x.c0 x.c1 x.c2 x.c3 (left + 1) =
      let next := (x.shift.map mixWord).xor (roundKey words i)
      encryptFrom words (i + 4) next.c0 next.c1 next.c2 next.c3 left := by
  rw [encryptFrom, column_mixing, column_mixing, column_mixing, column_mixing]
  rfl

theorem decryptFrom_zero (x : Block) :
    decryptFrom words i x.c0 x.c1 x.c2 x.c3 0 = x.unshift.xor (roundKey words i) := by
  simp only [decryptFrom, Block.xor, Block.unshift, roundKey, lastColumn, UInt32.xor_zero]

theorem decryptFrom_succ (x : Block) :
    decryptFrom words i x.c0 x.c1 x.c2 x.c3 (left + 1) =
      let next := (x.unshift.map unmixWord).xor (roundKey words i)
      decryptFrom words (i + 4) next.c0 next.c1 next.c2 next.c3 left := by
  rw [decryptFrom, column_unmixing, column_unmixing, column_unmixing, column_unmixing]
  rfl

/-! ### Keys -/

/-- The words for the decryption are those for the encryption backwards, round by round; those of
the rounds that mix are unmixed. -/
structure Key.Mirrored (k : Key) : Prop where
  first : roundKey k.decryption 0 = roundKey k.encryption (4 * k.rounds)
  last : roundKey k.decryption (4 * k.rounds) = roundKey k.encryption 0
  between : ∀ i j, 0 < i → 0 < j → i + j = k.rounds →
    roundKey k.decryption (4 * i) = (roundKey k.encryption (4 * j)).map unmixWord

theorem size_expandWords {n : Nat} {power : UInt8} {words : Array UInt32} {left : Nat} :
    (expand n power words left).size = words.size + left := by
  induction left generalizing power words with
  | zero => rfl
  | succ left ih =>
      rw [expand]
      dsimp only
      split
      · rw [ih, Array.size_push]
        omega
      · split
        all_goals
          rw [ih, Array.size_push]
          omega

theorem getD_range_map (f : Nat → UInt32) {i size : Nat} (h : i < size) :
    ((Array.range size).map f).getD i 0 = f i := by
  simp [Array.getD, h]

namespace Key

/-- What becomes of a word for the decryption, by the round that it is for. -/
def mirror (rounds i : Nat) (x : UInt32) : UInt32 :=
  if i = 0 ∨ i = rounds then x else unmixWord x

section OfBytes

variable (bytes : ByteArray)

theorem size_encryption : (ofBytes bytes).encryption.size = 4 * ((ofBytes bytes).rounds + 1) := by
  simp only [ofBytes, size_expandWords, Array.size_map, Array.size_range]
  omega

theorem decryption_eq :
    (ofBytes bytes).decryption = (Array.range (ofBytes bytes).encryption.size).map fun i =>
      let x := (ofBytes bytes).encryption.getD (4 * ((ofBytes bytes).rounds - i / 4) + i % 4) 0
      if i < 4 ∨ 4 * (ofBytes bytes).rounds ≤ i then x else unmixWord x := rfl

theorem getD_decryption {i j r : Nat} (hround : i + j = (ofBytes bytes).rounds) (hr : r < 4) :
    (ofBytes bytes).decryption.getD (4 * i + r) 0 =
      mirror (ofBytes bytes).rounds i ((ofBytes bytes).encryption.getD (4 * j + r) 0) := by
  have hlt : 4 * i + r < (ofBytes bytes).encryption.size := by
    rw [size_encryption]
    omega
  have hi : (4 * i + r) / 4 = i := by omega
  have hword : (4 * i + r) % 4 = r := by omega
  have hj : (ofBytes bytes).rounds - i = j := by omega
  have hends : (4 * i + r < 4 ∨ 4 * (ofBytes bytes).rounds ≤ 4 * i + r) ↔
      (i = 0 ∨ i = (ofBytes bytes).rounds) := by omega
  rw [decryption_eq, getD_range_map _ hlt]
  dsimp only
  rw [hi, hword, hj]
  exact if_congr hends rfl rfl

theorem roundKey_decryption {i j : Nat} (hround : i + j = (ofBytes bytes).rounds) :
    roundKey (ofBytes bytes).decryption (4 * i) =
      (roundKey (ofBytes bytes).encryption (4 * j)).map (mirror (ofBytes bytes).rounds i) := by
  have hfirst := getD_decryption bytes hround (r := 0) (by omega)
  rw [Nat.add_zero, Nat.add_zero] at hfirst
  rw [roundKey, hfirst, getD_decryption bytes hround (by omega),
    getD_decryption bytes hround (by omega), getD_decryption bytes hround (by omega)]
  rfl

theorem mirrored_ofBytes : (ofBytes bytes).Mirrored := by
  constructor
  case first =>
    have hsame : mirror (ofBytes bytes).rounds 0 = id := funext fun _ => if_pos (.inl rfl)
    rw [← Nat.mul_zero 4, roundKey_decryption bytes (Nat.zero_add _), hsame]
    rfl
  case last =>
    have hsame : mirror (ofBytes bytes).rounds (ofBytes bytes).rounds = id :=
      funext fun _ => if_pos (.inr rfl)
    rw [roundKey_decryption bytes (Nat.add_zero _), hsame]
    rfl
  case between =>
    intro i j hi hj h
    have hunmixed : mirror (ofBytes bytes).rounds i = unmixWord :=
      funext fun _ => if_neg (by omega)
    rw [roundKey_decryption bytes h, hunmixed]

theorem rounds_ofBytes : 0 < (ofBytes bytes).rounds := Nat.succ_pos _

end OfBytes

/-! ### Blocks -/

variable {k : Key}

/-- Behind the rounds that undo the last rounds of an encryption stands what they were given,
substituted and shifted. -/
theorem Mirrored.decryptFrom (h : k.Mirrored) (done left : Nat) (x : Block)
    (hrounds : done + 1 + left = k.rounds) :
    let last := (encryptFrom k.encryption (4 * (done + 1)) x.c0 x.c1 x.c2 x.c3 left).xor
      (roundKey k.decryption 0)
    Aes.decryptFrom k.decryption 4 last.c0 last.c1 last.c2 last.c3 (done + left) =
      Aes.decryptFrom k.decryption (4 * (left + 1)) x.shift.c0 x.shift.c1 x.shift.c2 x.shift.c3
        done := by
  induction left generalizing done x with
  | zero =>
      rw [encryptFrom_zero, h.first, ← hrounds]
      dsimp only
      rw [Block.xor_xor]
      rfl
  | succ left ih =>
      -- one more round is encrypted first, so it is undone last
      rw [encryptFrom_succ]
      have hnext := ih (done + 1)
        ((x.shift.map mixWord).xor (roundKey k.encryption (4 * (done + 1)))) (by omega)
      have hkey := h.between (left + 1) (done + 1) (by omega) (by omega) (by omega)
      rw [show done + (left + 1) = done + 1 + left by omega]
      refine hnext.trans ?_
      rw [decryptFrom_succ, Block.unshift_shift, hkey, Block.unmix_mix_xor]
      rfl

/-- What is encrypted under a key is decrypted under it. -/
theorem Mirrored.decrypt_encrypt (h : k.Mirrored) (hrounds : 0 < k.rounds) (x : Block) :
    k.decrypt (k.encrypt x) = x := by
  have hundone := h.decryptFrom 0 (k.rounds - 1) (x.xor (roundKey k.encryption 0)) (by omega)
  rw [Nat.zero_add, Nat.zero_add, decryptFrom_zero, Block.unshift_shift,
    Nat.sub_add_cancel hrounds, h.last, Block.xor_xor] at hundone
  exact hundone

end Key

end SealedToken.Aes
