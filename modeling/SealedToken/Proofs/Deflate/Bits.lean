import Mathlib.Tactic.Common
import SealedToken.Deflate.Bits
import SealedToken.Proofs.Outcome

/-!
Bits are read as they were written. What is written or read is told as a list of bits, the low
bits of each number and of each byte first.
-/

namespace SealedToken.Deflate

/-- The low bits of a number, the lowest first. -/
def lowBits (n : Nat) : (count : Nat) → List Nat
  | 0 => []
  | count + 1 => n % 2 :: lowBits (n / 2) count

variable {n m count : Nat} {bits bits' : List Nat}

@[simp] theorem length_lowBits : (lowBits n count).length = count := by
  induction count generalizing n with
  | zero => rfl
  | succ count ih => rw [lowBits, List.length_cons, ih]

theorem lowBits_add {more : Nat} :
    lowBits n (count + more) = lowBits n count ++ lowBits (n / 2 ^ count) more := by
  induction count generalizing n with
  | zero => simp [lowBits]
  | succ count ih =>
      rw [Nat.succ_add, lowBits, ih, Nat.div_div_eq_div_mul, ← Nat.pow_succ', lowBits,
        List.cons_append]

/-- The bits above do not count. -/
theorem lowBits_add_mul : lowBits (n + 2 ^ count * m) count = lowBits n count := by
  induction count generalizing n m with
  | zero => rfl
  | succ count ih =>
      have hlow : (n + 2 ^ (count + 1) * m) % 2 = n % 2 := by
        rw [Nat.pow_succ', Nat.mul_assoc, Nat.add_mul_mod_self_left]
      have hhigh : (n + 2 ^ (count + 1) * m) / 2 = n / 2 + 2 ^ count * m := by
        rw [Nat.pow_succ', Nat.mul_assoc, Nat.add_mul_div_left _ _ (by decide)]
      rw [lowBits, lowBits, hlow, hhigh, ih]

theorem lowBits_mod : lowBits (n % 2 ^ count) count = lowBits n count := by
  conv_rhs => rw [← Nat.mod_add_div n (2 ^ count)]
  rw [lowBits_add_mul]

/-- Bits above other bits. -/
theorem lowBits_append {more : Nat} (h : n < 2 ^ count) :
    lowBits (n + m * 2 ^ count) (count + more) = lowBits n count ++ lowBits m more := by
  rw [lowBits_add, Nat.mul_comm, lowBits_add_mul, Nat.add_mul_div_left _ _ (Nat.two_pow_pos _),
    Nat.div_eq_of_lt h, Nat.zero_add]

theorem getElem?_lowBits {i : Nat} (h : i < count) : (lowBits n count)[i]? = some (n / 2 ^ i % 2) := by
  induction count generalizing n i with
  | zero => omega
  | succ count ih =>
      cases i with
      | zero => simp [lowBits]
      | succ i =>
          rw [lowBits, List.getElem?_cons_succ, ih (by omega), Nat.div_div_eq_div_mul,
            ← Nat.pow_succ']

/-! ### Bits of bytes -/

def byteBits (bytes : List UInt8) : List Nat := bytes.flatMap fun byte => lowBits byte.toNat 8

def bitsOf (bytes : ByteArray) : List Nat := byteBits bytes.data.toList

theorem bitsOf_push (bytes : ByteArray) (byte : UInt8) :
    bitsOf (bytes.push byte) = bitsOf bytes ++ lowBits byte.toNat 8 := by
  simp [bitsOf, byteBits, ByteArray.data_push]

theorem length_bitsOf (bytes : ByteArray) : (bitsOf bytes).length = 8 * bytes.size := by
  have hlist (l : List UInt8) : (byteBits l).length = 8 * l.length := by
    induction l with
    | nil => rfl
    | cons byte l ih =>
        rw [byteBits, List.flatMap_cons, List.length_append, length_lowBits, ← byteBits, ih,
          List.length_cons]
        omega
  exact hlist _

theorem getElem?_byteBits (l : List UInt8) (i : Nat) :
    (byteBits l)[i]? = l[i / 8]?.map fun byte => byte.toNat / 2 ^ (i % 8) % 2 := by
  induction l generalizing i with
  | nil => simp [byteBits]
  | cons byte l ih =>
      rw [byteBits, List.flatMap_cons, ← byteBits]
      by_cases hlt : i < 8
      · rw [List.getElem?_append_left (by simpa using hlt), getElem?_lowBits hlt,
          Nat.div_eq_of_lt hlt, Nat.mod_eq_of_lt hlt]
        rfl
      · have hdiv : i / 8 = (i - 8) / 8 + 1 := by omega
        have hmod : i % 8 = (i - 8) % 8 := by omega
        rw [List.getElem?_append_right (by simpa using hlt), length_lowBits, ih, hdiv, hmod,
          List.getElem?_cons_succ]

/-! ### Writing -/

namespace BitWriter

variable {w : BitWriter}

/-- All bits that are written. -/
def written (w : BitWriter) : List Nat := bitsOf w.bytes ++ lowBits w.rest w.count

/-- There is nothing above the bits of the rest. -/
def Tidy (w : BitWriter) : Prop := w.rest < 2 ^ w.count

theorem written_flush (h : w.Tidy) : w.flush.written = w.written ∧ w.flush.Tidy := by
  induction w using flush.induct with
  | case1 w hlt => rw [flush, if_pos hlt]; exact ⟨rfl, h⟩
  | case2 w hle ih =>
      have hcount : w.count = 8 + (w.count - 8) := by omega
      have htidy : Tidy ⟨w.bytes.push (UInt8.ofNat w.rest), w.rest / 256, w.count - 8⟩ := by
        rw [Tidy, hcount, Nat.pow_add] at h
        exact Nat.div_lt_of_lt_mul h
      rw [flush, if_neg hle]
      refine ⟨(ih htidy).1.trans ?_, (ih htidy).2⟩
      have hlow : lowBits (UInt8.ofNat w.rest).toNat 8 = lowBits w.rest 8 := by
        rw [UInt8.toNat_ofNat']
        exact lowBits_mod
      rw [written, written, bitsOf_push, hlow, List.append_assoc]
      conv_rhs => rw [hcount, lowBits_add]
      rfl

theorem written_bits (h : w.Tidy) :
    (w.bits n count).written = w.written ++ lowBits n count ∧ (w.bits n count).Tidy := by
  have htidy : Tidy ⟨w.bytes, w.rest + n % 2 ^ count * 2 ^ w.count, w.count + count⟩ :=
    calc w.rest + n % 2 ^ count * 2 ^ w.count
        < 2 ^ w.count + n % 2 ^ count * 2 ^ w.count := Nat.add_lt_add_right h _
      _ = (n % 2 ^ count + 1) * 2 ^ w.count := by rw [Nat.succ_mul, Nat.add_comm]
      _ ≤ 2 ^ count * 2 ^ w.count :=
          Nat.mul_le_mul_right _ (Nat.mod_lt _ (Nat.two_pow_pos _))
      _ = 2 ^ (w.count + count) := by rw [Nat.pow_add, Nat.mul_comm]
  refine ⟨(written_flush htidy).1.trans ?_, (written_flush htidy).2⟩
  rw [written, written, lowBits_append h, lowBits_mod, List.append_assoc]

/-- The last byte is filled up. -/
theorem bitsOf_finish (hcount : w.count < 8) :
    ∃ filling : List Nat, filling.length < 8 ∧ bitsOf w.finish = w.written ++ filling := by
  unfold finish
  split
  · next hzero => exact ⟨[], by simp, by simp [written, hzero, lowBits]⟩
  · next hsome =>
      refine ⟨lowBits (w.rest / 2 ^ w.count) (8 - w.count), by rw [length_lowBits]; omega, ?_⟩
      rw [bitsOf_push, written, List.append_assoc, ← lowBits_add, Nat.add_sub_cancel' (by omega),
        UInt8.toNat_ofNat']
      exact congrArg _ lowBits_mod

end BitWriter

/-! ### Reading -/

namespace BitReader

variable {r r' : BitReader}

/-- These are the next bits, and the reader behind them. -/
def Gives (r : BitReader) : List Nat → BitReader → Prop
  | [], r' => r' = r
  | b :: bits, r' => ∃ next, r.bit = .ok (b, next) ∧ next.Gives bits r'

theorem gives_append : r.Gives (bits ++ bits') r' ↔ ∃ next, r.Gives bits next ∧ next.Gives bits' r' := by
  induction bits generalizing r with
  | nil => simp [Gives]
  | cons b bits ih =>
      simp only [List.cons_append, Gives, ih]
      constructor
      · rintro ⟨first, hbit, next, hnext, hrest⟩
        exact ⟨next, ⟨first, hbit, hnext⟩, hrest⟩
      · rintro ⟨next, ⟨first, hbit, hnext⟩, hrest⟩
        exact ⟨first, hbit, next, hnext, hrest⟩

theorem bit_of_getElem? {b : Nat} (h : (bitsOf r.bytes)[r.pos]? = some b) :
    r.bit = .ok (b, { r with pos := r.pos + 1 }) := by
  rw [bitsOf, getElem?_byteBits, Option.map_eq_some_iff] at h
  obtain ⟨byte, hbyte, rfl⟩ := h
  obtain ⟨hlt, hbyte⟩ := List.getElem?_eq_some_iff.1 hbyte
  have hsize : r.pos / 8 < r.bytes.size := hlt
  rw [bit, if_pos hsize, byteAt, dif_pos hsize, ← hbyte]
  rfl

theorem gives_of_bitsOf {bytes : ByteArray} {pos : Nat} {rest : List Nat}
    (h : (bitsOf bytes).drop pos = bits ++ rest) :
    Gives ⟨bytes, pos⟩ bits ⟨bytes, pos + bits.length⟩ := by
  induction bits generalizing pos with
  | nil => rfl
  | cons b bits ih =>
      have hbit : (bitsOf bytes)[pos]? = some b := by
        rw [← Nat.add_zero pos, ← List.getElem?_drop, h]
        rfl
      have hrest : (bitsOf bytes).drop (pos + 1) = bits ++ rest := by
        rw [← List.drop_drop, h]
        rfl
      refine ⟨_, bit_of_getElem? hbit, ?_⟩
      have hgives := ih hrest
      rwa [Nat.add_assoc, Nat.add_comm 1] at hgives

theorem bits_of_gives (h : r.Gives (lowBits n count) r') : r.bits count = .ok (n % 2 ^ count, r') := by
  induction count generalizing r n with
  | zero =>
      obtain rfl := h
      rw [BitReader.bits, Nat.pow_zero, Nat.mod_one]
  | succ count ih =>
      obtain ⟨next, hbit, hnext⟩ := h
      rw [BitReader.bits, hbit, ok_bind]
      dsimp only
      rw [ih hnext, ok_bind, Nat.pow_succ', Nat.mod_mul]

end BitReader

end SealedToken.Deflate
