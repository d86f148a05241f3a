import Mathlib.Algebra.Order.Field.Power
import Mathlib.Data.Rat.Cast.Order
import Mathlib.Tactic.FieldSimp
import Mathlib.Tactic.Linarith
import Mathlib.Tactic.NormNum
import Mathlib.Tactic.Positivity
import Mathlib.Tactic.Ring
import SealedToken.Number.Shortest

/-!
A number is told by its shortest decimal. The decimal lies among the reals that round to the
number, because the last grid that is tried is finer than half a unit in the last place of
any number, and no real rounds to two numbers.
-/

namespace SealedToken.Binary64

variable {x y : Binary64} {r : ℚ}

/-- The numbers there are: the mantissa has 53 bits unless the exponent is the least, and
zero has the exponent zero. -/
structure Normal (x : Binary64) : Prop where
  mantissa_lt : x.mantissa < 2 ^ 53
  least : leastExponent ≤ x.exponent
  greatest : x.exponent ≤ greatestExponent
  full : x.mantissa ≠ 0 → leastExponent < x.exponent → 2 ^ 52 ≤ x.mantissa
  zero : x.mantissa = 0 → x.exponent = 0

/-! ### Ratios and decimals as rationals -/

theorem shiftRatio_spec (num : Nat) {den : Nat} (h : 0 < den) (e : Int) :
    0 < (shiftRatio num den e).2 ∧
      ((shiftRatio num den e).1 : ℚ) / (shiftRatio num den e).2 = num / den * 2 ^ e := by
  unfold shiftRatio
  split
  · next he =>
      obtain ⟨n, rfl⟩ := Int.eq_ofNat_of_zero_le he
      refine ⟨h, ?_⟩
      simp only [Int.toNat_natCast, Nat.shiftLeft_eq, zpow_natCast]
      push_cast
      ring
  · next he =>
      obtain ⟨n, rfl⟩ : ∃ n : Nat, e = -n := ⟨(-e).toNat, by omega⟩
      simp only [neg_neg, Int.toNat_natCast, Nat.shiftLeft_eq, zpow_neg, zpow_natCast]
      refine ⟨by positivity, ?_⟩
      push_cast
      rw [div_mul_eq_div_div, div_eq_mul_inv (_ / _)]

/-- The rational that a decimal stands for. -/
def Decimal.value (d : Decimal) : ℚ := d.digits * 10 ^ d.exponent

theorem Decimal.value_trim (d : Decimal) (fuel : Nat) : (d.trim fuel).value = d.value := by
  induction fuel generalizing d with
  | zero => rfl
  | succ fuel ih =>
      rw [trim]
      split
      · next h =>
          have hdigits : (d.digits : ℚ) = (d.digits / 10 : Nat) * 10 := by
            exact_mod_cast (Nat.div_mul_cancel (Nat.dvd_of_mod_eq_zero h.2)).symm
          rw [ih, value, value, hdigits, zpow_add_one₀ (by norm_num)]
          ring
      · rfl

/-! ### The interval -/

/-- A rational that lies in the interval. -/
def Interval.Holds (i : Interval) (r : ℚ) : Prop :=
  if i.closed then (i.low : ℚ) / i.denominator ≤ r ∧ r ≤ i.high / i.denominator
  else (i.low : ℚ) / i.denominator < r ∧ r < i.high / i.denominator

theorem Interval.Holds.of_lt {i : Interval} (hlow : (i.low : ℚ) / i.denominator < r)
    (hhigh : r < i.high / i.denominator) : i.Holds r := by
  unfold Holds
  split
  · exact ⟨hlow.le, hhigh.le⟩
  · exact ⟨hlow, hhigh⟩

theorem Interval.contains_iff {i : Interval} {num den : Nat} (hi : 0 < i.denominator)
    (hden : 0 < den) : i.contains num den = true ↔ i.Holds (num / den) := by
  have hi' : (0 : ℚ) < i.denominator := by exact_mod_cast hi
  have hden' : (0 : ℚ) < den := by exact_mod_cast hden
  have hlow : (i.low : ℚ) / i.denominator ≤ num / den ↔ i.low * den ≤ num * i.denominator := by
    rw [div_le_div_iff₀ hi' hden']
    exact_mod_cast Iff.rfl
  have hhigh : (num : ℚ) / den ≤ i.high / i.denominator ↔
      num * i.denominator ≤ i.high * den := by
    rw [div_le_div_iff₀ hden' hi']
    exact_mod_cast Iff.rfl
  have hlow' : (i.low : ℚ) / i.denominator < num / den ↔ i.low * den < num * i.denominator := by
    rw [div_lt_div_iff₀ hi' hden']
    exact_mod_cast Iff.rfl
  have hhigh' : (num : ℚ) / den < i.high / i.denominator ↔
      num * i.denominator < i.high * den := by
    rw [div_lt_div_iff₀ hden' hi']
    exact_mod_cast Iff.rfl
  unfold contains Holds
  split <;> simp [*]

/-- How far below a number its interval reaches, in quarters of the last place. -/
def below (x : Binary64) : Nat :=
  if x.mantissa = 2 ^ 52 ∧ leastExponent < x.exponent then 1 else 2

theorem interval_spec (x : Binary64) :
    0 < x.interval.denominator ∧ x.interval.closed = (x.mantissa % 2 == 0) ∧
      (x.interval.low : ℚ) / x.interval.denominator =
        (4 * x.mantissa - x.below : Nat) * 2 ^ (x.exponent - 2) ∧
      (x.interval.middle : ℚ) / x.interval.denominator = 4 * x.mantissa * 2 ^ (x.exponent - 2) ∧
      (x.interval.high : ℚ) / x.interval.denominator =
        (4 * x.mantissa + 2) * 2 ^ (x.exponent - 2) := by
  obtain ⟨hpos, hscale⟩ := shiftRatio_spec 1 (show 0 < 4 by decide) x.exponent
  have hscale' : ((shiftRatio 1 4 x.exponent).1 : ℚ) / (shiftRatio 1 4 x.exponent).2 =
      2 ^ (x.exponent - 2) := by
    rw [hscale, zpow_sub₀ (by norm_num)]
    norm_num
    ring
  refine ⟨hpos, rfl, ?_, ?_, ?_⟩
  · rw [← hscale', ← mul_div_assoc, ← Nat.cast_mul]
    rfl
  · rw [← hscale', ← mul_div_assoc]
    simp [interval]
  · rw [← hscale', ← mul_div_assoc]
    simp [interval]

/-- A rational that rounds to a number. -/
def Rounds (x : Binary64) (r : ℚ) : Prop := x.interval.Holds r

theorem Rounds.bounds (h : x.Rounds r) :
    (4 * x.mantissa - x.below : Nat) * 2 ^ (x.exponent - 2) ≤ r ∧
      r ≤ (4 * x.mantissa + 2) * 2 ^ (x.exponent - 2) := by
  obtain ⟨-, -, hlow, -, hhigh⟩ := interval_spec x
  rw [← hlow, ← hhigh]
  unfold Rounds Interval.Holds at h
  split at h
  · exact h
  · exact ⟨h.1.le, h.2.le⟩

/-- The ends round to a number only if its mantissa is even. -/
theorem Rounds.strict (h : x.Rounds r) (hodd : x.mantissa % 2 = 1) :
    (4 * x.mantissa - x.below : Nat) * 2 ^ (x.exponent - 2) < r ∧
      r < (4 * x.mantissa + 2) * 2 ^ (x.exponent - 2) := by
  obtain ⟨-, hclosed, hlow, -, hhigh⟩ := interval_spec x
  rw [← hlow, ← hhigh]
  unfold Rounds Interval.Holds at h
  rwa [hclosed, if_neg (by simp [hodd])] at h

/-! ### No real rounds to two numbers -/

theorem two_zpow_pos (e : Int) : (0 : ℚ) < 2 ^ e := by positivity

/-- Of two numbers the interval of the one with the greater exponent lies above that of the
other. -/
theorem Normal.not_exponent_lt (hx : x.Normal) (hy : y.Normal) (hzero : y.mantissa ≠ 0)
    (hxr : x.Rounds r) (hyr : y.Rounds r) : ¬ x.exponent < y.exponent := by
  intro hlt
  obtain ⟨d, hd⟩ : ∃ d : Nat, y.exponent - 2 = x.exponent - 2 + (d + 1 : Nat) :=
    ⟨(y.exponent - x.exponent - 1).toNat, by omega⟩
  have hunit : (2 : ℚ) ^ (y.exponent - 2) = 2 ^ (x.exponent - 2) * (2 ^ (d + 1) : Nat) := by
    rw [hd, zpow_add₀ (by norm_num), zpow_natCast]
    push_cast
    rfl
  have hpos := two_zpow_pos (x.exponent - 2)
  have hlow := hyr.bounds.1
  have hhigh := hxr.bounds.2
  rw [hunit] at hlow
  have hmul : (4 * y.mantissa - y.below) * 2 ^ (d + 1) ≤ 4 * x.mantissa + 2 := by
    have h := hlow.trans hhigh
    rw [mul_comm (2 ^ _) ((_ : Nat) : ℚ), ← mul_assoc, mul_le_mul_iff_left₀ hpos] at h
    exact_mod_cast h
  have hgrow : (4 * y.mantissa - y.below) * 2 ≤ (4 * y.mantissa - y.below) * 2 ^ (d + 1) := by
    refine Nat.mul_le_mul_left _ ?_
    rw [Nat.pow_succ]
    exact Nat.le_mul_of_pos_left 2 (Nat.two_pow_pos d)
  have hleast : leastExponent < y.exponent := lt_of_le_of_lt hx.least hlt
  have hfull := hy.full hzero hleast
  have hbound := hx.mantissa_lt
  have hbelow : y.mantissa = 2 ^ 52 ∧ y.below = 1 ∨ 2 ^ 52 < y.mantissa ∧ y.below ≤ 2 := by
    unfold below
    split <;> omega
  -- the intervals meet in one point, which the lesser one does not hold
  obtain hodd : x.mantissa % 2 = 1 := by omega
  have hstrict := hlow.trans_lt (hxr.strict hodd).2
  rw [mul_comm (2 ^ _) ((_ : Nat) : ℚ), ← mul_assoc, mul_lt_mul_iff_left₀ hpos] at hstrict
  have hstrict' : (4 * y.mantissa - y.below) * 2 ^ (d + 1) < 4 * x.mantissa + 2 := by
    exact_mod_cast hstrict
  omega

/-- Of two numbers with one exponent it is that of the one with the greater mantissa. -/
theorem Rounds.not_mantissa_lt (hexponent : x.exponent = y.exponent)
    (hxr : x.Rounds r) (hyr : y.Rounds r) : ¬ x.mantissa < y.mantissa := by
  intro hlt
  have hpos := two_zpow_pos (x.exponent - 2)
  have hlow := hyr.bounds.1
  rw [← hexponent] at hlow
  have hbelow : y.below ≤ 2 := by
    unfold below
    split <;> omega
  have hle : 4 * y.mantissa - y.below ≤ 4 * x.mantissa + 2 := by
    have h := hlow.trans hxr.bounds.2
    rw [mul_le_mul_iff_left₀ hpos] at h
    exact_mod_cast h
  -- one of the two is odd, and does not hold the point that they would share
  rcases Nat.mod_two_eq_zero_or_one x.mantissa with heven | hodd
  · have hstrict := (hyr.strict (by omega)).1.trans_le hxr.bounds.2
    rw [← hexponent, mul_lt_mul_iff_left₀ hpos] at hstrict
    have hstrict' : 4 * y.mantissa - y.below < 4 * x.mantissa + 2 := by exact_mod_cast hstrict
    omega
  · have hstrict := hlow.trans_lt (hxr.strict hodd).2
    rw [mul_lt_mul_iff_left₀ hpos] at hstrict
    have hstrict' : 4 * y.mantissa - y.below < 4 * x.mantissa + 2 := by exact_mod_cast hstrict
    omega

/-- Two numbers that one rational rounds to have the same magnitude. -/
theorem Normal.eq_of_rounds (hx : x.Normal) (hy : y.Normal) (hxzero : x.mantissa ≠ 0)
    (hyzero : y.mantissa ≠ 0) (hxr : x.Rounds r) (hyr : y.Rounds r) :
    x.mantissa = y.mantissa ∧ x.exponent = y.exponent := by
  have hexponent : x.exponent = y.exponent :=
    le_antisymm (not_lt.1 (hy.not_exponent_lt hx hxzero hyr hxr))
      (not_lt.1 (hx.not_exponent_lt hy hyzero hxr hyr))
  refine ⟨le_antisymm ?_ ?_, hexponent⟩
  · exact not_lt.1 (Rounds.not_mantissa_lt hexponent.symm hyr hxr)
  · exact not_lt.1 (Rounds.not_mantissa_lt hexponent hxr hyr)

/-! ### The grids -/

/-- The step of a grid, as it is computed. -/
theorem gridStep_spec (e : Int) :
    let step := if 0 ≤ e then (10 ^ e.toNat, 1) else (1, 10 ^ (-e).toNat)
    0 < step.1 ∧ 0 < step.2 ∧ ((step.1 : Nat) : ℚ) / (step.2 : Nat) = 10 ^ e := by
  dsimp only
  split
  · next he =>
      obtain ⟨n, rfl⟩ := Int.eq_ofNat_of_zero_le he
      simp
  · next he =>
      obtain ⟨n, rfl⟩ : ∃ n : Nat, e = -n := ⟨(-e).toNat, by omega⟩
      simp

/-- A point of a grid that is chosen lies in the interval. -/
theorem Interval.holds_of_gridPoint? {i : Interval} {e : Int} {d : Decimal}
    (hi : 0 < i.denominator) (h : i.gridPoint? e = some d) : i.Holds d.value := by
  have hstep := gridStep_spec e
  unfold gridPoint? at h
  generalize (if 0 ≤ e then (10 ^ e.toNat, 1) else (1, 10 ^ (-e).toNat)) = step at h hstep
  obtain ⟨stepNum, stepDen⟩ := step
  obtain ⟨-, hden, hvalue⟩ := hstep
  have hholds (n : Nat) (hn : i.contains (n * stepNum) stepDen = true) :
      i.Holds (Decimal.value ⟨n, e⟩) := by
    rwa [contains_iff hi hden, Nat.cast_mul, mul_div_assoc, hvalue] at hn
  dsimp only at h
  split at h
  · next hlower =>
      obtain rfl := Option.some.inj h
      simp only [Bool.and_eq_true] at hlower
      exact hholds _ hlower.1.2
  · split at h
    · next hupper =>
        obtain rfl := Option.some.inj h
        exact hholds _ hupper
    · simp at h

/-- A grid whose step is below half the width of the interval has a point in it. -/
theorem Interval.gridPoint?_isSome {i : Interval} {e : Int} (hi : 0 < i.denominator)
    (hlow : i.low ≤ i.middle)
    (hstep : (i.middle : ℚ) / i.denominator + 10 ^ e < i.high / i.denominator) :
    (i.gridPoint? e).isSome = true := by
  have hgrid := gridStep_spec e
  unfold gridPoint?
  generalize (if 0 ≤ e then (10 ^ e.toNat, 1) else (1, 10 ^ (-e).toNat)) = step at hgrid ⊢
  obtain ⟨stepNum, stepDen⟩ := step
  obtain ⟨hnum, hden, hvalue⟩ := hgrid
  -- the first point above the number
  have hupper :
      i.contains ((i.middle * stepDen / (i.denominator * stepNum) + 1) * stepNum) stepDen =
        true := by
    have hi' : (0 : ℚ) < i.denominator := by exact_mod_cast hi
    have hden' : (0 : ℚ) < stepDen := by exact_mod_cast hden
    have hunit : 0 < i.denominator * stepNum := Nat.mul_pos hi hnum
    generalize hq : i.middle * stepDen / (i.denominator * stepNum) = q
    have hbelow : q * (i.denominator * stepNum) ≤ i.middle * stepDen :=
      hq ▸ Nat.div_mul_le_self _ _
    have habove : i.middle * stepDen < (q + 1) * (i.denominator * stepNum) :=
      (Nat.div_lt_iff_lt_mul hunit).1 (hq ▸ Nat.lt_succ_self _)
    rw [contains_iff hi hden]
    refine .of_lt ?_ (lt_of_le_of_lt ?_ hstep)
    · calc (i.low : ℚ) / i.denominator ≤ i.middle / i.denominator := by gcongr
        _ < ((q + 1) * stepNum : Nat) / stepDen := by
          rw [div_lt_div_iff₀ hi' hden']
          exact_mod_cast (by rwa [mul_assoc, mul_comm stepNum] :
            i.middle * stepDen < (q + 1) * stepNum * i.denominator)
    · rw [← hvalue, div_add_div _ _ hi'.ne' hden'.ne', div_le_div_iff₀ hden' (by positivity)]
      have hbelow' : (q : ℚ) * (i.denominator * stepNum) ≤ i.middle * stepDen := by
        exact_mod_cast hbelow
      push_cast
      nlinarith
  dsimp only
  rw [hupper]
  split
  · rfl
  · rfl

/-- The search ends with a point that lies in the interval, if some grid that is tried has
one. -/
theorem Interval.holds_search {i : Interval} {e : Int} {tries k : Nat} (hi : 0 < i.denominator)
    (hk : k < tries) (h : (i.gridPoint? (e - k)).isSome = true) :
    i.Holds (i.search e tries).value := by
  induction tries generalizing e k with
  | zero => omega
  | succ tries ih =>
      rw [search]
      split
      · next d hd => exact holds_of_gridPoint? hi hd
      · next hnone =>
          cases k with
          | zero => simp [hnone] at h
          | succ k =>
              refine ih (k := k) (by omega) ?_
              rwa [show e - 1 - (k : Int) = e - (k + 1 : Nat) by push_cast; ring]

/-! ### The last grid -/

/-- The estimate of a logarithm from above: `10 ^ 3` is less than `2 ^ 10`. -/
theorem ten_zpow_lt_of_nonneg {k e : Int} (hk : 0 ≤ k) (h : 10 * k < 3 * e) :
    (10 : ℚ) ^ k < 2 ^ e := by
  refine lt_of_pow_lt_pow_left₀ 3 (two_zpow_pos e).le ?_
  calc ((10 : ℚ) ^ k) ^ 3 = (1000 : ℚ) ^ k := by
        rw [← zpow_natCast, ← zpow_mul, mul_comm, zpow_mul]
        norm_num
    _ ≤ (1024 : ℚ) ^ k := zpow_le_zpow_left₀ hk (by norm_num) (by norm_num)
    _ = 2 ^ (10 * k) := by
        rw [zpow_mul]
        norm_num
    _ < 2 ^ (3 * e) := zpow_lt_zpow_right₀ (by norm_num) h
    _ = ((2 : ℚ) ^ e) ^ 3 := by rw [← zpow_natCast, ← zpow_mul, mul_comm]; rfl

/-- The estimate from below: `2 ^ 33` is less than `10 ^ 10`. -/
theorem ten_zpow_lt_of_neg {k e : Int} (hk : k < 0) (h : 33 * k < 10 * e) :
    (10 : ℚ) ^ k < 2 ^ e := by
  obtain ⟨n, rfl⟩ : ∃ n : Nat, k = -n := ⟨(-k).toNat, by omega⟩
  refine lt_of_pow_lt_pow_left₀ 10 (two_zpow_pos e).le ?_
  calc ((10 : ℚ) ^ (-n : Int)) ^ 10 = ((10 ^ 10 : ℚ) ^ n)⁻¹ := by
        rw [zpow_neg, zpow_natCast, inv_pow, ← pow_mul, mul_comm, pow_mul]
    _ ≤ ((2 ^ 33 : ℚ) ^ n)⁻¹ := by
        refine inv_anti₀ (by positivity) (pow_le_pow_left₀ (by norm_num) (by norm_num) n)
    _ = 2 ^ (33 * -(n : Int)) := by
        rw [mul_neg, zpow_neg, ← pow_mul, ← zpow_natCast]
        rfl
    _ < 2 ^ (10 * e) := zpow_lt_zpow_right₀ (by norm_num) h
    _ = ((2 : ℚ) ^ e) ^ 10 := by rw [← zpow_natCast, ← zpow_mul, mul_comm]; rfl

/-- The step of the last grid is less than half a unit in the last place. -/
theorem Normal.lastStep_lt (hx : x.Normal) (hzero : x.mantissa ≠ 0) :
    (10 : ℚ) ^ (x.tenExponentBound - 23) < 2 ^ (x.exponent - 1) := by
  have hlog : x.mantissa.log2 < 53 := (Nat.log2_lt hzero).2 hx.mantissa_lt
  have hleast : -1074 ≤ x.exponent := hx.least
  have hgreatest : x.exponent ≤ 971 := hx.greatest
  by_cases hk : 0 ≤ x.tenExponentBound - 23
  · refine ten_zpow_lt_of_nonneg hk ?_
    unfold tenExponentBound
    dsimp only
    split <;> omega
  · refine ten_zpow_lt_of_neg (not_le.1 hk) ?_
    unfold tenExponentBound
    dsimp only
    split <;> omega

/-! ### The shortest decimal -/

/-- The shortest decimal of a number rounds to the number. -/
theorem Normal.rounds_shortest (hx : x.Normal) (hzero : x.mantissa ≠ 0) :
    x.Rounds x.shortest.value := by
  obtain ⟨hpos, -, -, hmiddle, hhigh⟩ := interval_spec x
  rw [shortest, if_neg (by simpa [isZero] using hzero), Decimal.value_trim]
  refine Interval.holds_search (k := 23) hpos (by decide) (Interval.gridPoint?_isSome hpos ?_ ?_)
  · exact Nat.mul_le_mul_right _ (Nat.sub_le _ _)
  · rw [hmiddle, hhigh, add_mul]
    refine (add_lt_add_iff_left _).2 ?_
    calc (10 : ℚ) ^ (x.tenExponentBound - (23 : Nat)) < 2 ^ (x.exponent - 1) :=
          hx.lastStep_lt hzero
      _ = 2 * 2 ^ (x.exponent - 2) := by
          rw [show x.exponent - 1 = 1 + (x.exponent - 2) by ring, zpow_add₀ (by norm_num),
            zpow_one]

/-- Only zero has zero for its shortest decimal. -/
theorem Normal.shortest_value_eq_zero (hx : x.Normal) : x.shortest.value = 0 ↔ x.mantissa = 0 := by
  constructor
  · intro h
    by_contra hzero
    have hlow := (hx.rounds_shortest hzero).bounds.1
    have hbelow : x.below ≤ 2 := by
      unfold below
      split <;> omega
    have hpos : (0 : ℚ) < (4 * x.mantissa - x.below : Nat) * 2 ^ (x.exponent - 2) := by
      refine mul_pos ?_ (two_zpow_pos _)
      exact_mod_cast (by omega : 0 < 4 * x.mantissa - x.below)
    rw [h] at hlow
    exact absurd hpos hlow.not_gt
  · intro hzero
    rw [shortest, if_pos (by simpa [isZero] using hzero)]
    simp [Decimal.value]

/-- A number is told by its sign and its shortest decimal. -/
theorem Normal.eq_of_shortest (hx : x.Normal) (hy : y.Normal) (hnegative : x.negative = y.negative)
    (h : x.shortest.value = y.shortest.value) : x = y := by
  have hmagnitude : x.mantissa = y.mantissa ∧ x.exponent = y.exponent := by
    by_cases hzero : x.mantissa = 0
    · have hyzero : y.mantissa = 0 := by
        rwa [← hy.shortest_value_eq_zero, ← h, hx.shortest_value_eq_zero]
      exact ⟨hzero.trans hyzero.symm, (hx.zero hzero).trans (hy.zero hyzero).symm⟩
    · have hyzero : y.mantissa ≠ 0 := by
        rwa [ne_eq, ← hy.shortest_value_eq_zero, ← h, hx.shortest_value_eq_zero]
      exact hx.eq_of_rounds hy hzero hyzero (hx.rounds_shortest hzero)
        (h ▸ hy.rounds_shortest hyzero)
  obtain ⟨negative, mantissa, exponent⟩ := x
  obtain ⟨hmantissa, hexponent⟩ := hmagnitude
  dsimp only at hnegative hmantissa hexponent
  rw [hnegative, hmantissa, hexponent]

end SealedToken.Binary64
