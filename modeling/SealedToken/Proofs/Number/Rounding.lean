import SealedToken.Proofs.Number.Shortest

/-!
What is rounded is normal: the exponent that is taken gives the mantissa 53 bits, unless it
is the least one. So every number that is read of a decimal is normal.
-/

namespace SealedToken.Binary64

variable {x y z : Binary64} {num den : Nat} {negative : Bool}

/-! ### The exponent of a ratio -/

theorem shiftRatio_div_lt (h : 0 < den) (e : Int) (k : Nat) :
    (shiftRatio num den e).1 / (shiftRatio num den e).2 < k ↔ (num : ℚ) / den * 2 ^ e < k := by
  obtain ⟨hpos, hvalue⟩ := shiftRatio_spec num h e
  have hpos' : (0 : ℚ) < (shiftRatio num den e).2 := by exact_mod_cast hpos
  rw [← hvalue, Nat.div_lt_iff_lt_mul hpos, div_lt_iff₀ hpos']
  exact_mod_cast Iff.rfl

/-- The exponent from which the fitting one is found: a ratio over it has 53 or 54 bits. -/
theorem ratio_bounds (hnum : num ≠ 0) (hden : 0 < den) :
    (2 ^ 52 : ℚ) < num / den * 2 ^ (-((num.log2 : Int) - den.log2 - 53)) ∧
      (num : ℚ) / den * 2 ^ (-((num.log2 : Int) - den.log2 - 53)) < 2 ^ 54 := by
  have hpower : (2 : ℚ) ^ (-((num.log2 : Int) - den.log2 - 53)) =
      2 ^ 53 * 2 ^ den.log2 / 2 ^ num.log2 := by
    rw [show -((num.log2 : Int) - den.log2 - 53) = 53 + den.log2 - num.log2 by ring,
      zpow_sub₀ (by norm_num), zpow_add₀ (by norm_num), zpow_natCast, zpow_natCast]
    rfl
  have hden' : (0 : ℚ) < den := by exact_mod_cast hden
  have hnumLow : (2 ^ num.log2 : ℚ) ≤ num := by exact_mod_cast Nat.log2_self_le hnum
  have hnumHigh : (num : ℚ) < 2 * 2 ^ num.log2 := by
    exact_mod_cast (Nat.pow_succ' ▸ Nat.lt_log2_self : num < 2 * 2 ^ num.log2)
  have hdenLow : (2 ^ den.log2 : ℚ) ≤ den := by exact_mod_cast Nat.log2_self_le hden.ne'
  have hdenHigh : (den : ℚ) < 2 * 2 ^ den.log2 := by
    exact_mod_cast (Nat.pow_succ' ▸ Nat.lt_log2_self : den < 2 * 2 ^ den.log2)
  have hpos : (0 : ℚ) < 2 ^ num.log2 := by positivity
  have hpos' : (0 : ℚ) < 2 ^ den.log2 := by positivity
  rw [hpower]
  generalize (2 ^ num.log2 : ℚ) = a at *
  generalize (2 ^ den.log2 : ℚ) = b at *
  rw [div_mul_div_comm]
  constructor
  · rw [lt_div_iff₀ (by positivity)]
    nlinarith
  · rw [div_lt_iff₀ (by positivity)]
    nlinarith

/-- The exponent that gives a ratio 53 bits. -/
def fitting (num den : Nat) : Int :=
  let low : Int := (num.log2 : Int) - den.log2 - 53
  let shifted := shiftRatio num den (-low)
  if shifted.1 / shifted.2 < 2 ^ 53 then low else low + 1

theorem fitting_bounds (hnum : num ≠ 0) (hden : 0 < den) :
    (2 ^ 52 : ℚ) ≤ num / den * 2 ^ (-fitting num den) ∧
      (num : ℚ) / den * 2 ^ (-fitting num den) < 2 ^ 53 := by
  obtain ⟨hlow, hhigh⟩ := ratio_bounds hnum hden
  unfold fitting
  simp only [shiftRatio_div_lt hden]
  push_cast
  split
  · next h => exact ⟨hlow.le, h⟩
  · next h =>
      rw [neg_add, zpow_add₀ (by norm_num), ← mul_assoc]
      norm_num at h hhigh ⊢
      constructor <;> linarith

/-! ### The mantissa -/

/-- The mantissa and the exponent that a ratio is rounded to. A mantissa that has outgrown its
bits is halved. -/
def rounded (num den : Nat) : Nat × Int :=
  let exponent := max (fitting num den) leastExponent
  let shifted := shiftRatio num den (-exponent)
  let mantissa := nearest shifted.1 shifted.2
  if mantissa = 2 ^ 53 then (2 ^ 52, exponent + 1) else (mantissa, exponent)

theorem round_eq (hnum : num ≠ 0) :
    round negative num den =
      if (rounded num den).1 = 0 then some ⟨negative, 0, 0⟩
      else if greatestExponent < (rounded num den).2 then none
      else some ⟨negative, (rounded num den).1, (rounded num den).2⟩ := by
  rw [round, if_neg hnum]
  rfl

theorem le_nearest (num den : Nat) : num / den ≤ nearest num den := by
  unfold nearest
  dsimp only
  split <;> [exact le_rfl; (split <;> omega)]

theorem nearest_le (num den : Nat) : nearest num den ≤ num / den + 1 := by
  unfold nearest
  dsimp only
  split <;> [omega; (split <;> omega)]

/-- The mantissa of a ratio has at most 53 bits or is the next power of two, and it has them
all if the exponent is not the least. -/
theorem nearest_bounds (hnum : num ≠ 0) (hden : 0 < den) {e : Int}
    (he : e = max (fitting num den) leastExponent) :
    nearest (shiftRatio num den (-e)).1 (shiftRatio num den (-e)).2 ≤ 2 ^ 53 ∧
      (leastExponent < e →
        2 ^ 52 ≤ nearest (shiftRatio num den (-e)).1 (shiftRatio num den (-e)).2) := by
  obtain ⟨hlow, hhigh⟩ := fitting_bounds hnum hden
  constructor
  · have hshifted : (num : ℚ) / den * 2 ^ (-e) < (2 ^ 53 : Nat) := by
      refine lt_of_le_of_lt ?_ (by exact_mod_cast hhigh)
      refine mul_le_mul_of_nonneg_left (zpow_le_zpow_right₀ (by norm_num) ?_) (by positivity)
      exact neg_le_neg (he ▸ le_max_left _ _)
    have hfloor := (shiftRatio_div_lt hden (-e) _).2 hshifted
    exact (nearest_le _ _).trans hfloor
  · intro hleast
    obtain rfl : e = fitting num den := by omega
    refine le_trans ?_ (le_nearest _ _)
    rw [← not_lt, shiftRatio_div_lt hden, not_lt]
    exact_mod_cast hlow

/-! ### Results -/

theorem normal_zero (negative : Bool) : Normal ⟨negative, 0, 0⟩ where
  mantissa_lt := by norm_num
  least := by norm_num [leastExponent]
  greatest := by norm_num [greatestExponent]
  full h := absurd rfl h
  zero _ := rfl

theorem normal_rounded (hnum : num ≠ 0) (hden : 0 < den) (hne : (rounded num den).1 ≠ 0)
    (hgreatest : (rounded num den).2 ≤ greatestExponent) :
    Normal ⟨negative, (rounded num den).1, (rounded num den).2⟩ := by
  obtain ⟨hhigh, hfull⟩ := nearest_bounds hnum hden rfl
  have hleast := le_max_right (fitting num den) leastExponent
  unfold rounded at hne hgreatest ⊢
  dsimp only at hne hgreatest ⊢
  generalize max (fitting num den) leastExponent = e at *
  generalize nearest (shiftRatio num den (-e)).1 (shiftRatio num den (-e)).2 = m at *
  split at hne
  · next hm =>
      rw [if_pos hm] at hgreatest ⊢
      exact ⟨by norm_num, by dsimp only; omega, hgreatest, fun _ _ => le_rfl, (absurd · hne)⟩
  · next hm =>
      rw [if_neg hm] at hgreatest ⊢
      exact ⟨by dsimp only; omega, hleast, hgreatest, fun _ => hfull, (absurd · hne)⟩

theorem normal_of_round (hden : 0 < den) (h : round negative num den = some x) : x.Normal := by
  by_cases hnum : num = 0
  · rw [round, if_pos hnum] at h
    obtain rfl := Option.some.inj h
    exact normal_zero negative
  · rw [round_eq hnum] at h
    split at h
    · obtain rfl := Option.some.inj h
      exact normal_zero negative
    · next hne =>
        split at h
        · simp at h
        · next hgreatest =>
            obtain rfl := Option.some.inj h
            exact normal_rounded hnum hden hne (not_lt.1 hgreatest)

/-! ### Decimals -/

theorem ratio_pos (x : Binary64) : 0 < x.ratio.2 := (shiftRatio_spec _ Nat.one_pos _).1

theorem Normal.neg (h : x.Normal) : x.neg.Normal := ⟨h.1, h.2, h.3, h.4, h.5⟩

theorem normal_of_ofNat? {n : Nat} (h : ofNat? n = some x) : x.Normal :=
  normal_of_round Nat.one_pos h

theorem normal_of_mul? (h : x.mul? y = some z) : z.Normal :=
  normal_of_round (Nat.mul_pos x.ratio_pos y.ratio_pos) h

theorem normal_of_div? (h : x.div? y = some z) : z.Normal := by
  simp only [div?] at h
  split at h
  · simp at h
  · next hne => exact normal_of_round (Nat.mul_pos x.ratio_pos (Nat.pos_of_ne_zero hne)) h

theorem Normal.scaleDown {tens steps : Nat} (hx : x.Normal)
    (h : x.scaleDown tens steps = some y) : y.Normal := by
  induction steps generalizing x tens with
  | zero => exact Option.some.inj h ▸ hx
  | succ steps ih =>
      rw [Binary64.scaleDown] at h
      split at h
      · obtain ⟨ten, -, h⟩ := Option.bind_eq_some_iff.1 h
        exact normal_of_div? h
      · obtain ⟨z, hz, h⟩ := Option.bind_eq_some_iff.1 h
        obtain ⟨ten, -, hz⟩ := Option.bind_eq_some_iff.1 hz
        split at h
        · exact Option.some.inj h ▸ normal_of_div? hz
        · exact ih (normal_of_div? hz) h

/-- The number that a decimal stands for is one of the numbers there are. -/
theorem normal_of_ofDecimal? {significand : Nat} {exponent : Int}
    (h : ofDecimal? significand exponent = some x) : x.Normal := by
  obtain ⟨y, hy, h⟩ := Option.bind_eq_some_iff.1 h
  have hnormal := normal_of_ofNat? hy
  split at h
  · exact Option.some.inj h ▸ hnormal
  · split at h
    · split at h
      · obtain ⟨ten, -, h⟩ := Option.bind_eq_some_iff.1 h
        exact normal_of_mul? h
      · simp at h
    · exact hnormal.scaleDown h

end SealedToken.Binary64
