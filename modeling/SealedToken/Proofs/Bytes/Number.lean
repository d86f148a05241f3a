import Mathlib.Data.List.Induction
import SealedToken.Bytes.Number

/-!
Byte strings and the numbers they spell. With a width each determines the other; without
one, a number is spelled by its shortest bytes and by the same bytes behind any zeros.
-/

namespace SealedToken.Bytes

variable {b : UInt8} {bytes : List UInt8} {n size : Nat}

/-- The number that bytes spell, the most significant one first. -/
def spelled (bytes : List UInt8) : Nat :=
  bytes.foldl (fun n b => n * 256 + b.toNat) 0

theorem toNat_eq_spelled (bytes : ByteArray) : toNat bytes = spelled bytes.data.toList :=
  (Array.foldl_toList ..).symm

@[simp] theorem spelled_nil : spelled [] = 0 := rfl

theorem spelled_concat : spelled (bytes ++ [b]) = spelled bytes * 256 + b.toNat := by
  simp [spelled]

theorem spelled_cons : spelled (b :: bytes) = b.toNat * 256 ^ bytes.length + spelled bytes := by
  induction bytes using List.reverseRecOn with
  | nil => simp [spelled]
  | append_singleton bytes c ih =>
      rw [← List.cons_append, spelled_concat, spelled_concat, ih, List.length_append,
        List.length_singleton, Nat.pow_succ]
      rw [Nat.add_mul, Nat.mul_assoc, Nat.add_assoc]

theorem spelled_append (as bs : List UInt8) :
    spelled (as ++ bs) = spelled as * 256 ^ bs.length + spelled bs := by
  induction as with
  | nil => simp
  | cons a as ih =>
      rw [List.cons_append, spelled_cons, ih, spelled_cons, List.length_append, Nat.pow_add,
        Nat.add_mul, Nat.mul_assoc, Nat.add_assoc]

theorem toNat_append (a b : ByteArray) : toNat (a ++ b) = toNat a * 256 ^ b.size + toNat b := by
  rw [toNat_eq_spelled, toNat_eq_spelled, toNat_eq_spelled, ByteArray.toList_data_append]
  exact spelled_append ..

@[simp] theorem toNat_zeros (count : Nat) : toNat (zeros count) = 0 := by
  rw [toNat_eq_spelled, zeros, Array.toList_replicate]
  induction count with
  | zero => rfl
  | succ count ih =>
      rw [List.replicate_succ, spelled_cons, ih]
      simp

/-! ### A given width -/

theorem spelled_lt : spelled bytes < 256 ^ bytes.length := by
  induction bytes using List.reverseRecOn with
  | nil => simp
  | append_singleton bytes c ih =>
      rw [spelled_concat, List.length_append, List.length_singleton, Nat.pow_succ]
      have hc := c.toNat_lt
      omega

theorem digits_spelled : (digits (spelled bytes) bytes.length).reverse = bytes := by
  induction bytes using List.reverseRecOn with
  | nil => rfl
  | append_singleton bytes c ih =>
      have hc := c.toNat_lt
      have hlow : UInt8.ofNat (spelled bytes * 256 + c.toNat) = c := by
        apply UInt8.toNat_inj.1
        rw [UInt8.toNat_ofNat']
        omega
      have hhigh : (spelled bytes * 256 + c.toNat) / 256 = spelled bytes := by omega
      rw [spelled_concat, List.length_append, List.length_singleton, digits, hlow, hhigh,
        List.reverse_cons, ih]

theorem spelled_digits : spelled (digits n size).reverse = n % 256 ^ size := by
  induction size generalizing n with
  | zero => simp [digits, Nat.mod_one]
  | succ size ih =>
      have hpow : 256 ^ (size + 1) = 256 * 256 ^ size := by rw [Nat.pow_succ, Nat.mul_comm]
      rw [digits, List.reverse_cons, spelled_concat, ih, UInt8.toNat_ofNat', hpow, Nat.mod_mul]
      omega

@[simp] theorem toNat_ofNat : toNat (ofNat size n) = n % 256 ^ size := by
  rw [toNat_eq_spelled, ofNat]
  exact spelled_digits

theorem toNat_lt (bytes : ByteArray) : toNat bytes < 256 ^ bytes.size := by
  rw [toNat_eq_spelled]
  exact spelled_lt

/-- Bytes are told by their number and their width. -/
theorem ofNat_toNat {bytes : ByteArray} (h : bytes.size = size) :
    ofNat size (toNat bytes) = bytes := by
  have hsize : size = bytes.data.toList.length := h.symm
  rw [toNat_eq_spelled, ofNat, hsize, digits_spelled]

theorem beq_self (bytes : ByteArray) : (bytes == bytes) = true := beq_self_eq_true bytes.data

theorem ext_toNat {a b : ByteArray} (hsize : a.size = b.size) (h : toNat a = toNat b) : a = b := by
  rw [← ofNat_toNat hsize, h, ofNat_toNat rfl]

/-! ### Bytes combined in pairs -/

/-- Bytes that are combined with the same bytes twice are the bytes again. -/
theorem xor_xor {a b : ByteArray} (h : a.size ≤ b.size) : xor (xor a b) b = a := by
  have hsize : (xor (xor a b) b).size = a.size := by
    rw [size_xor, size_xor, Nat.min_eq_left h, Nat.min_eq_left h]
  apply ByteArray.ext
  apply Array.ext
  · exact hsize
  · intro i _ _
    simp only [xor, Array.getElem_zipWith]
    rw [UInt8.xor_assoc, UInt8.xor_self, UInt8.xor_zero]

/-- Numbers in two parts are combined part by part. -/
theorem mul_two_pow_add_xor {x y a b i : Nat} (ha : a < 2 ^ i) (hb : b < 2 ^ i) :
    (x * 2 ^ i + a) ^^^ (y * 2 ^ i + b) = (x ^^^ y) * 2 ^ i + (a ^^^ b) := by
  have hab : a ^^^ b < 2 ^ i := Nat.xor_lt_two_pow ha hb
  apply Nat.eq_of_testBit_eq
  intro j
  rw [Nat.mul_comm x, Nat.mul_comm y, Nat.mul_comm (x ^^^ y), Nat.testBit_xor,
    Nat.testBit_two_pow_mul_add x ha, Nat.testBit_two_pow_mul_add y hb,
    Nat.testBit_two_pow_mul_add (x ^^^ y) hab]
  split <;> simp

theorem spelled_zipWith_xor {as bs : List UInt8} (h : as.length = bs.length) :
    spelled (List.zipWith (· ^^^ ·) as bs) = spelled as ^^^ spelled bs := by
  induction as generalizing bs with
  | nil =>
      cases bs with
      | nil => rfl
      | cons b bs => simp at h
  | cons a as ih =>
      cases bs with
      | nil => simp at h
      | cons b bs =>
          have hlength : as.length = bs.length := by simpa using h
          have ha := @spelled_lt as
          have hb := @spelled_lt bs
          rw [← hlength] at hb
          rw [List.zipWith_cons_cons, spelled_cons, spelled_cons, spelled_cons, ih hlength,
            List.length_zipWith, ← hlength, Nat.min_self, UInt8.toNat_xor]
          rw [show (256 : Nat) = 2 ^ 8 from rfl, ← Nat.pow_mul] at ha hb ⊢
          rw [mul_two_pow_add_xor ha hb]

theorem toNat_xor {a b : ByteArray} (h : a.size = b.size) :
    toNat (xor a b) = toNat a ^^^ toNat b := by
  rw [toNat_eq_spelled, toNat_eq_spelled, toNat_eq_spelled, xor, Array.toList_zipWith]
  exact spelled_zipWith_xor h

/-! ### The shortest bytes -/

theorem lt_pow_byteLength : n < 256 ^ byteLength n := by
  rw [byteLength]
  split
  · next h => simp [h]
  · have hlog := Nat.lt_log2_self (n := n)
    have hpow : (2 : Nat) ^ (n.log2 + 1) ≤ 2 ^ (8 * (n.log2 / 8 + 1)) :=
      Nat.pow_le_pow_right (by decide) (by omega)
    rw [show (256 : Nat) = 2 ^ 8 from rfl, ← Nat.pow_mul]
    omega

theorem byteLength_le (h : n < 256 ^ size) : byteLength n ≤ size := by
  rw [byteLength]
  split
  · exact Nat.zero_le _
  · next hne =>
      rw [show (256 : Nat) = 2 ^ 8 from rfl, ← Nat.pow_mul] at h
      have hlog := (Nat.log2_lt hne).2 h
      omega

theorem byteLength_pos (h : n ≠ 0) : 0 < byteLength n := by
  rw [byteLength, if_neg h]
  exact Nat.succ_pos _

theorem toNat_minimal : toNat (minimal n) = n := by
  rw [minimal, toNat_ofNat, Nat.mod_eq_of_lt lt_pow_byteLength]

/-- A number takes as many bytes as it is spelled with, if they do not begin with zero. -/
theorem byteLength_spelled (hb : b ≠ 0) : byteLength (spelled (b :: bytes)) = bytes.length + 1 := by
  have hpos : 0 < b.toNat := Nat.pos_of_ne_zero fun h => hb (UInt8.toNat_inj.1 h)
  have hlow : 256 ^ bytes.length ≤ spelled (b :: bytes) := by
    rw [spelled_cons]
    exact Nat.le_add_right_of_le (Nat.le_mul_of_pos_left _ hpos)
  have hhigh : spelled (b :: bytes) < 256 ^ (bytes.length + 1) := spelled_lt
  have hne : spelled (b :: bytes) ≠ 0 := by
    have hpow := Nat.pow_pos (n := bytes.length) (show 0 < 256 by decide)
    omega
  rw [show (256 : Nat) = 2 ^ 8 from rfl, ← Nat.pow_mul] at hlow hhigh
  rw [byteLength, if_neg hne]
  have hlower := (Nat.le_log2 hne).2 hlow
  have hupper := (Nat.log2_lt hne).2 hhigh
  omega

theorem spelled_dropZeros : spelled (bytes.dropWhile (· == 0)) = spelled bytes := by
  induction bytes with
  | nil => rfl
  | cons b rest ih =>
      rw [List.dropWhile_cons]
      split
      · next h =>
          obtain rfl : b = 0 := by simpa using h
          rw [ih, spelled_cons]
          simp
      · rfl

/-- Zeros in front are all that bytes have beside the shortest ones of their number. -/
theorem minimal_spelled : (minimal (spelled bytes)).data.toList = bytes.dropWhile (· == 0) := by
  rw [← spelled_dropZeros]
  cases hdrop : bytes.dropWhile (· == 0) with
  | nil => rfl
  | cons b rest =>
      have hb : b ≠ 0 := by
        have hhead := List.head?_dropWhile_not (· == 0) bytes
        simpa [hdrop] using hhead
      rw [minimal, byteLength_spelled hb, ofNat]
      exact digits_spelled

theorem minimal_toNat_of_head {bytes : ByteArray} (h : bytes.data.toList.head? ≠ some 0) :
    minimal (toNat bytes) = bytes := by
  refine ByteArray.ext (Array.toList_inj.1 ?_)
  rw [toNat_eq_spelled, minimal_spelled]
  cases hbytes : bytes.data.toList with
  | nil => rfl
  | cons b rest =>
      have hb : b ≠ 0 := by simpa [hbytes] using h
      rw [List.dropWhile_cons_of_neg (by simpa using hb)]

/-- The shortest bytes of a number do not begin with zero. -/
theorem minimal_eq_cons (h : n ≠ 0) :
    ∃ b bytes, (minimal n).data.toList = b :: bytes ∧ b ≠ 0 := by
  have hdrop := @minimal_spelled (minimal n).data.toList
  rw [← toNat_eq_spelled, toNat_minimal] at hdrop
  cases hbytes : (minimal n).data.toList with
  | nil =>
      have hvalue := toNat_eq_spelled (minimal n)
      rw [toNat_minimal, hbytes] at hvalue
      exact absurd hvalue h
  | cons b bytes =>
      refine ⟨b, bytes, rfl, ?_⟩
      rintro rfl
      rw [hbytes, List.dropWhile_cons_of_pos (by simp)] at hdrop
      have hlength := (List.dropWhile_sublist (l := bytes) (· == (0 : UInt8))).length_le
      rw [← hdrop, List.length_cons] at hlength
      omega

end SealedToken.Bytes
