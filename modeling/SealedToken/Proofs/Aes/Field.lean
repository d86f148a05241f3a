import SealedToken.Aes.Block
import SealedToken.Proofs.Bytes.Number

/-!
The field of 256 elements. Multiplication is linear on both sides, so what it does to bytes
with a single bit tells what it does to all of them: it is commutative and associative, and the
power of 256 of a byte is the byte. Hence inversion undoes itself, and substitution is undone.
-/

namespace SealedToken.Aes

/-! ### Bytes and bits -/

/-- What holds of zero, of the bytes with a single bit and of every sum of bytes that it holds
of, holds of all bytes. -/
theorem byte_induction {P : UInt8 → Prop} (zero : P 0) (single : ∀ bit < 8, P (.ofNat (2 ^ bit)))
    (xor : ∀ a b, P a → P b → P (a ^^^ b)) (a : UInt8) : P a := by
  have hbits (count : Nat) (hcount : count ≤ 8) : ∀ n < 2 ^ count, P (.ofNat n) := by
    induction count with
    | zero =>
        intro n hn
        obtain rfl : n = 0 := by omega
        exact zero
    | succ count ih =>
        intro n hn
        by_cases hlow : n < 2 ^ count
        · exact ih (by omega) n hlow
        · have hrest : n - 2 ^ count < 2 ^ count := by omega
          have hsum : n = 2 ^ count ^^^ (n - 2 ^ count) := by
            have h := Bytes.mul_two_pow_add_xor (x := 1) (y := 0) (Nat.two_pow_pos count) hrest
            simp only [Nat.one_mul, Nat.zero_mul, Nat.zero_add, Nat.add_zero, Nat.xor_zero,
              Nat.zero_xor] at h
            omega
          rw [hsum, UInt8.ofNat_xor]
          exact xor _ _ (single count (by omega)) (ih (by omega) _ hrest)
  have h := hbits 8 (Nat.le_refl _) a.toNat a.toNat_lt
  rwa [UInt8.ofNat_toNat] at h

/-! ### Linearity -/

/-- A byte or nothing, by a bit. -/
def picked (bit a : UInt8) : UInt8 := if bit = 1 then a else 0

theorem picked_xor_left {x y : UInt8} (hx : x = 0 ∨ x = 1) (hy : y = 0 ∨ y = 1) (a : UInt8) :
    picked (x ^^^ y) a = picked x a ^^^ picked y a := by
  rcases hx with rfl | rfl <;> rcases hy with rfl | rfl
  · exact UInt8.xor_self.symm
  · exact UInt8.zero_xor.symm
  · exact UInt8.xor_zero.symm
  · exact UInt8.xor_self.symm

theorem picked_xor_right (x a b : UInt8) : picked x (a ^^^ b) = picked x a ^^^ picked x b := by
  unfold picked
  split <;> rfl

theorem toNat_shiftRight_seven (a : UInt8) : (a >>> 7).toNat = a.toNat / 128 := by
  rw [UInt8.toNat_shiftRight, Nat.shiftRight_eq_div_pow]
  rfl

theorem shiftRight_seven (a : UInt8) : a >>> 7 = 0 ∨ a >>> 7 = 1 := by
  have ha := a.toNat_lt
  rw [← UInt8.toNat_inj, ← UInt8.toNat_inj, toNat_shiftRight_seven]
  change a.toNat / 128 = 0 ∨ a.toNat / 128 = 1
  omega

theorem shiftRight_seven_eq_one (a : UInt8) : a >>> 7 = 1 ↔ ¬ a < 0x80 := by
  have ha := a.toNat_lt
  rw [← UInt8.toNat_inj, toNat_shiftRight_seven]
  change a.toNat / 128 = 1 ↔ ¬ a.toNat < 128
  omega

theorem double_eq (a : UInt8) : double a = a <<< 1 ^^^ picked (a >>> 7) 0x1b := by
  rw [double, picked]
  simp only [shiftRight_seven_eq_one, ite_not]
  split
  · rw [UInt8.xor_zero]
  · rfl

theorem double_xor (a b : UInt8) : double (a ^^^ b) = double a ^^^ double b := by
  rw [double_eq, double_eq, double_eq, UInt8.shiftLeft_xor, UInt8.shiftRight_xor,
    picked_xor_left (shiftRight_seven a) (shiftRight_seven b)]
  ac_rfl

theorem and_one (a : UInt8) : a &&& 1 = 0 ∨ a &&& 1 = 1 := by
  rw [← UInt8.toNat_inj, ← UInt8.toNat_inj, UInt8.toNat_and]
  change a.toNat &&& 1 = 0 ∨ a.toNat &&& 1 = 1
  rw [Nat.and_one_is_mod]
  omega

theorem xor_and_one (a b : UInt8) : (a ^^^ b) &&& 1 = (a &&& 1) ^^^ (b &&& 1) := by
  apply UInt8.toNat_inj.1
  rw [UInt8.toNat_and, UInt8.toNat_xor, Nat.and_xor_distrib_right, UInt8.toNat_xor,
    UInt8.toNat_and, UInt8.toNat_and]

theorem mulFrom_succ (sum a b : UInt8) (count : Nat) :
    mulFrom sum a b (count + 1) =
      mulFrom (sum ^^^ picked (b &&& 1) a) (double a) (b >>> 1) count := by
  rw [mulFrom, picked]
  split
  · rfl
  · rw [UInt8.xor_zero]

theorem mulFrom_xor_left (s t a b c : UInt8) (count : Nat) :
    mulFrom (s ^^^ t) (a ^^^ b) c count = mulFrom s a c count ^^^ mulFrom t b c count := by
  induction count generalizing s t a b c with
  | zero => rfl
  | succ count ih =>
      rw [mulFrom_succ, mulFrom_succ, mulFrom_succ, double_xor, ← ih, picked_xor_right]
      congr 1
      ac_rfl

theorem mulFrom_xor_right (s t a b c : UInt8) (count : Nat) :
    mulFrom (s ^^^ t) a (b ^^^ c) count = mulFrom s a b count ^^^ mulFrom t a c count := by
  induction count generalizing s t a b c with
  | zero => rfl
  | succ count ih =>
      rw [mulFrom_succ, mulFrom_succ, mulFrom_succ, UInt8.shiftRight_xor, ← ih, xor_and_one,
        picked_xor_left (and_one b) (and_one c)]
      congr 1
      ac_rfl

theorem xor_mul (a b c : UInt8) : mul (a ^^^ b) c = mul a c ^^^ mul b c :=
  mulFrom_xor_left 0 0 a b c 8

theorem mul_xor (a b c : UInt8) : mul a (b ^^^ c) = mul a b ^^^ mul a c :=
  mulFrom_xor_right 0 0 a b c 8

theorem mul_zero_left (a : UInt8) : mul 0 a = 0 := by
  have h := xor_mul 0 0 a
  rwa [UInt8.xor_self, UInt8.xor_self] at h

theorem mul_zero_right (a : UInt8) : mul a 0 = 0 := by
  have h := mul_xor a 0 0
  rwa [UInt8.xor_self, UInt8.xor_self] at h

/-- What is left to check of the multiplication, for single bits. -/
theorem mul_single :
    ∀ i < 8, mul 1 (.ofNat (2 ^ i)) = .ofNat (2 ^ i) ∧
      ∀ j < 8, mul (.ofNat (2 ^ i)) (.ofNat (2 ^ j)) = mul (.ofNat (2 ^ j)) (.ofNat (2 ^ i)) ∧
        ∀ k < 8, mul (mul (.ofNat (2 ^ i)) (.ofNat (2 ^ j))) (.ofNat (2 ^ k)) =
          mul (.ofNat (2 ^ i)) (mul (.ofNat (2 ^ j)) (.ofNat (2 ^ k))) := by
  decide +kernel

theorem mul_one_left (a : UInt8) : mul 1 a = a := by
  induction a using byte_induction with
  | zero => exact mul_zero_right 1
  | xor a a' ha ha' => rw [mul_xor, ha, ha']
  | single i hi => exact (mul_single i hi).1

theorem mul_commutes (a b : UInt8) : mul a b = mul b a := by
  induction a using byte_induction with
  | zero => rw [mul_zero_left, mul_zero_right]
  | xor a a' ha ha' => rw [xor_mul, mul_xor, ha, ha']
  | single i hi =>
      induction b using byte_induction with
      | zero => rw [mul_zero_left, mul_zero_right]
      | xor b b' hb hb' => rw [xor_mul, mul_xor, hb, hb']
      | single j hj => exact ((mul_single i hi).2 j hj).1

theorem mul_associates (a b c : UInt8) : mul (mul a b) c = mul a (mul b c) := by
  induction a using byte_induction with
  | zero => rw [mul_zero_left, mul_zero_left, mul_zero_left]
  | xor a a' ha ha' => rw [xor_mul, xor_mul, xor_mul, ha, ha']
  | single i hi =>
      induction b using byte_induction with
      | zero => rw [mul_zero_right, mul_zero_left, mul_zero_right]
      | xor b b' hb hb' => rw [mul_xor, xor_mul, xor_mul, mul_xor, hb, hb']
      | single j hj =>
          induction c using byte_induction with
          | zero => rw [mul_zero_right, mul_zero_right, mul_zero_right]
          | xor c c' hc hc' => rw [mul_xor, mul_xor, mul_xor, hc, hc']
          | single k hk => exact ((mul_single i hi).2 j hj).2 k hk

/-! ### Powers -/

def power (a : UInt8) : Nat → UInt8
  | 0 => 1
  | count + 1 => mul (power a count) a

theorem power_add (a : UInt8) (m n : Nat) : mul (power a m) (power a n) = power a (m + n) := by
  induction n with
  | zero => exact (mul_commutes _ _).trans (mul_one_left _)
  | succ n ih =>
      change mul (power a m) (mul (power a n) a) = mul (power a (m + n)) a
      rw [← mul_associates, ih]

theorem power_power (a : UInt8) (m n : Nat) : power (power a m) n = power a (m * n) := by
  induction n with
  | zero => rfl
  | succ n ih =>
      change mul (power (power a m) n) (power a m) = power a (m * n + m)
      rw [ih, power_add]

theorem power_two_xor (a b : UInt8) : power (a ^^^ b) 2 = power a 2 ^^^ power b 2 := by
  have hsquare : ∀ c, power c 2 = mul c c := fun c => congrArg (mul · c) (mul_one_left c)
  calc power (a ^^^ b) 2
    _ = mul a a ^^^ mul b b ^^^ (mul a b ^^^ mul a b) := by
        rw [hsquare, mul_xor, xor_mul, xor_mul, mul_commutes b a]
        ac_rfl
    _ = power a 2 ^^^ power b 2 := by rw [UInt8.xor_self, UInt8.xor_zero, hsquare, hsquare]

theorem power_two_pow_xor (a b : UInt8) (count : Nat) :
    power (a ^^^ b) (2 ^ count) = power a (2 ^ count) ^^^ power b (2 ^ count) := by
  induction count with
  | zero => rw [Nat.pow_zero, power, power, power, power, power, power, mul_xor]
  | succ count ih =>
      rw [Nat.pow_succ, ← power_power, ih, power_two_xor, power_power, power_power]

/-- Squared eight times, a byte is itself. -/
theorem power_256 (a : UInt8) : power a 256 = a := by
  have hsize : 256 = 2 ^ 8 := rfl
  induction a using byte_induction with
  | zero => exact mul_zero_right _
  | xor a b ha hb =>
      rw [hsize] at ha hb ⊢
      rw [power_two_pow_xor, ha, hb]
  | single i hi =>
      have h : ∀ i < 8, power (power (.ofNat (2 ^ i)) 16) 16 = .ofNat (2 ^ i) := by
        decide +kernel
      exact (power_power _ 16 16).symm.trans (h i hi)

theorem inverse_eq_power (a : UInt8) : inverse a = power a 254 := by
  have h : inverse (power a 1) = power a 254 := by
    simp only [inverse, power_add, Nat.reduceAdd]
  rwa [power, power, mul_one_left] at h

theorem inverse_inverse (a : UInt8) : inverse (inverse a) = a := by
  calc inverse (inverse a)
    _ = power a (254 * 254) := by rw [inverse_eq_power, inverse_eq_power, power_power]
    _ = mul (power (power a 256) 252) (power a 4) := by rw [power_power, power_add]
    _ = mul (power a 252) (power a 4) := by rw [power_256]
    _ = power a 256 := power_add a 252 4
    _ = a := power_256 a

/-! ### Substitution -/

/-- The affine map of the substitution. -/
def affine (b : UInt8) : UInt8 :=
  b ^^^ rotl8 b 1 ^^^ rotl8 b 2 ^^^ rotl8 b 3 ^^^ rotl8 b 4 ^^^ 0x63

def unaffine (a : UInt8) : UInt8 := rotl8 a 1 ^^^ rotl8 a 3 ^^^ rotl8 a 6 ^^^ 0x05

theorem unaffine_affine (a : UInt8) : unaffine (affine a) = a := by
  have h : ∀ i < 256, unaffine (affine (.ofNat i)) = .ofNat i := by decide +kernel
  have ha := h a.toNat a.toNat_lt
  rwa [UInt8.ofNat_toNat] at ha

theorem unsubstitute_substitute (a : UInt8) : unsubstitute (substitute a) = a := by
  change inverse (unaffine (affine (inverse a))) = a
  rw [unaffine_affine, inverse_inverse]

end SealedToken.Aes
