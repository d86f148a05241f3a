import SealedToken.Proofs.Json.Number
import SealedToken.Proofs.Number.Shortest

/-!
The text of a number tells the number. A float is written with a fraction or an exponent, so
it is told from an integer, and the parts of its text have the value of its shortest decimal.
-/

namespace SealedToken

open NumberText

/-- A number that is written with neither a fraction nor an exponent. -/
def NumberText.IsWhole (t : NumberText) : Prop := t.fraction = none ∧ t.exponent = none

/-! ### The text of a decimal -/

/-- The text of a decimal in its parts. -/
def FloatFormat.text (f : FloatFormat) (negative : Bool) (d : Binary64.Decimal) : NumberText :=
  let digits := Nat.toDigits 10 d.digits
  let leading : Int := (digits.length : Int) - 1 + d.exponent
  if f.leastPositional ≤ leading ∧ leading ≤ f.greatestPositional then
    if 0 ≤ d.exponent then
      ⟨negative, digits ++ List.replicate d.exponent.toNat '0', some ['0'], none⟩
    else if 0 ≤ leading then
      ⟨negative, digits.take (leading + 1).toNat, some (digits.drop (leading + 1).toNat), none⟩
    else
      ⟨negative, ['0'], some (List.replicate (-leading - 1).toNat '0' ++ digits), none⟩
  else
    ⟨negative, digits.take 1, if digits.length ≤ 1 then none else some (digits.drop 1),
      some (decide (leading < 0), Nat.toDigits 10 leading.natAbs)⟩

theorem FloatFormat.chars_text (f : FloatFormat) (negative : Bool) (d : Binary64.Decimal) :
    (f.text negative d).chars = (if negative then ['-'] else []) ++ f.chars d := by
  rw [NumberText.chars]
  unfold FloatFormat.text FloatFormat.chars
  dsimp only
  split
  · split
    · simp [fractionChars, exponentChars]
    · split
      · simp [fractionChars, exponentChars]
      · simp [fractionChars, exponentChars]
  · split <;> simp [fractionChars, exponentChars]

/-- The shapes of the text of a decimal with these digits and this exponent: a whole number, a
point among the digits or in front of them, and one digit in front of the others and the
exponent of that digit. -/
inductive DecimalShape (negative : Bool) (digits : List Char) (exponent : Int) : NumberText → Prop
  | whole {n : Nat} (h : exponent = n) :
      DecimalShape negative digits exponent
        ⟨negative, digits ++ List.replicate n '0', some ['0'], none⟩
  | among {n : Nat} (hpos : 0 < n) (hlt : n < digits.length) (h : exponent = n - digits.length) :
      DecimalShape negative digits exponent ⟨negative, digits.take n, some (digits.drop n), none⟩
  | front {n : Nat} (h : exponent = -(n + digits.length)) :
      DecimalShape negative digits exponent
        ⟨negative, ['0'], some (List.replicate n '0' ++ digits), none⟩
  | single {leading : Int} (hlength : digits.length = 1) (h : leading = exponent) :
      DecimalShape negative digits exponent
        ⟨negative, digits, none, some (decide (leading < 0), Nat.toDigits 10 leading.natAbs)⟩
  | leading {leading : Int} (hlength : 1 < digits.length)
      (h : leading = digits.length - 1 + exponent) :
      DecimalShape negative digits exponent
        ⟨negative, digits.take 1, some (digits.drop 1),
          some (decide (leading < 0), Nat.toDigits 10 leading.natAbs)⟩

theorem FloatFormat.shape_text (f : FloatFormat) (negative : Bool) (d : Binary64.Decimal) :
    DecimalShape negative (Nat.toDigits 10 d.digits) d.exponent (f.text negative d) := by
  have hlength : 0 < (Nat.toDigits 10 d.digits).length :=
    List.length_pos_iff.2 (allDigits_toDigits d.digits).1
  unfold FloatFormat.text
  generalize Nat.toDigits 10 d.digits = digits at *
  dsimp only
  split
  · split
    · exact .whole (by omega)
    · split
      · exact .among (by omega) (by omega) (by omega)
      · exact .front (by omega)
  · split
    · next hsingle =>
        rw [List.take_of_length_le hsingle]
        exact .single (by omega) (by omega)
    · exact .leading (by omega) rfl

namespace DecimalShape

variable {negative : Bool} {digits : List Char} {exponent : Int} {t : NumberText}

theorem negative_eq (h : DecimalShape negative digits exponent t) : t.negative = negative := by
  cases h <;> rfl

/-- A decimal is not written like an integer. -/
theorem not_isWhole (h : DecimalShape negative digits exponent t) : ¬ t.IsWhole := by
  cases h <;> simp [IsWhole]

/-- The parts are those of a number, if the first digit is none that could not stand there. -/
theorem wellFormed (h : DecimalShape negative digits exponent t) (hdigits : AllDigits digits)
    (hhead : digits.head? ≠ some '0') : t.WellFormed := by
  cases h with
  | whole _ =>
      exact {
        whole := hdigits.append_left (isDigit_replicate_zero _)
        leading := .inr (by rwa [List.head?_append_of_ne_nil _ hdigits.1])
        fraction := by simp [allDigits_zero]
        exponent := by simp }
  | among hpos hlt _ =>
      exact {
        whole := hdigits.take hpos
        leading := .inr (by rwa [List.head?_take, if_neg hpos.ne'])
        fraction := by simp [hdigits.drop hlt]
        exponent := by simp }
  | front _ =>
      exact {
        whole := allDigits_zero
        leading := .inl rfl
        fraction := by simp [hdigits.append_right (isDigit_replicate_zero _)]
        exponent := by simp }
  | single _ _ =>
      exact {
        whole := hdigits
        leading := .inr hhead
        fraction := by simp
        exponent := by simp [allDigits_toDigits] }
  | leading hlength _ =>
      exact {
        whole := hdigits.take (by decide)
        leading := .inr (by rwa [List.head?_take, if_neg (by decide)])
        fraction := by
          simp only [Option.some.injEq, forall_eq']
          exact hdigits.drop hlength
        exponent := by simp [allDigits_toDigits] }

end DecimalShape

/-! ### The value of a text -/

namespace NumberText

/-- The exponent that is written, zero if none is. -/
def exponentValue (t : NumberText) : Int :=
  match t.exponent with
  | none => 0
  | some (negative, digits) =>
      if negative then -(Nat.ofDigitChars 10 digits 0 : Int) else Nat.ofDigitChars 10 digits 0

/-- The rational of which a text gives the digits and the exponent. -/
def magnitude (t : NumberText) : ℚ :=
  Nat.ofDigitChars 10 (t.whole ++ t.fraction.getD []) 0 *
    10 ^ (t.exponentValue - (t.fraction.getD []).length)

theorem exponentValue_toDigits {negative : Bool} {whole : List Char}
    {fraction : Option (List Char)} (e : Int) :
    exponentValue ⟨negative, whole, fraction, some (decide (e < 0), Nat.toDigits 10 e.natAbs)⟩ =
      e := by
  simp only [exponentValue, Nat.ofDigitChars_ten_toDigits, decide_eq_true_eq]
  split <;> omega

theorem ofDigitChars_zeros_append (n : Nat) (digits : List Char) :
    Nat.ofDigitChars 10 (List.replicate n '0' ++ digits) 0 = Nat.ofDigitChars 10 digits 0 := by
  rw [Nat.ofDigitChars_append, Nat.ofDigitChars_replicate_zero, Nat.mul_zero]

theorem ofDigitChars_append_zeros (digits : List Char) (n : Nat) :
    Nat.ofDigitChars 10 (digits ++ List.replicate n '0') 0 =
      10 ^ n * Nat.ofDigitChars 10 digits 0 := by
  rw [Nat.ofDigitChars_append, Nat.ofDigitChars_replicate_zero]

end NumberText

/-- In each shape the text has the value of the digits with the exponent. -/
theorem DecimalShape.magnitude_eq {negative : Bool} {digits : List Char} {exponent : Int}
    {t : NumberText} (h : DecimalShape negative digits exponent t) :
    t.magnitude = Nat.ofDigitChars 10 digits 0 * 10 ^ exponent := by
  cases h with
  | @whole n h =>
      have hzeros : digits ++ List.replicate n '0' ++ ['0'] =
          digits ++ List.replicate (n + 1) '0' := by
        rw [List.replicate_succ', List.append_assoc]
      subst h
      simp only [magnitude, exponentValue, Option.getD_some, hzeros, ofDigitChars_append_zeros,
        List.length_singleton]
      push_cast
      rw [zpow_natCast, pow_succ]
      norm_num
      ring
  | among _ hlt h =>
      simp only [magnitude, exponentValue, Option.getD_some, List.take_append_drop,
        List.length_drop]
      congr 2
      omega
  | front h =>
      simp only [magnitude, exponentValue, Option.getD_some, ← List.cons_append,
        List.singleton_append, ← List.replicate_succ, ofDigitChars_zeros_append,
        List.length_append, List.length_replicate]
      congr 2
      omega
  | single _ h =>
      simp only [magnitude, exponentValue_toDigits, Option.getD_none, List.append_nil, h,
        List.length_nil, Int.natCast_zero, Int.sub_zero]
  | leading hlength h =>
      simp only [magnitude, exponentValue_toDigits, Option.getD_some, List.take_append_drop,
        List.length_drop]
      congr 2
      omega

/-! ### The text of a number -/

namespace Number

/-- The text of a number in its parts. -/
def text : Number → NumberText
  | .int value => .ofInt value
  | .float x => Json.floatFormat.text x.negative x.shortest

/-- The numbers there are: integers that fit 64 bits, signed or unsigned, and floats. -/
inductive Proper : Number → Prop
  | int {value : Int} (hlow : -2 ^ 63 ≤ value) (hhigh : value < 2 ^ 64) : Proper (int value)
  | float {x : Binary64} (h : x.Normal) : Proper (float x)

theorem chars_text (n : Number) : n.text.chars = n.chars := by
  cases n with
  | int value => exact chars_ofInt value
  | float x =>
      rw [text, FloatFormat.chars_text, Number.chars]
      cases x.negative <;> rfl

theorem Proper.wellFormed {n : Number} (h : n.Proper) : n.text.WellFormed := by
  cases h with
  | int _ _ => exact wellFormed_ofInt _
  | @float x h =>
      by_cases hzero : x.mantissa = 0
      · have hshortest : x.shortest = ⟨0, 0⟩ := by
          simp [Binary64.shortest, Binary64.isZero, hzero]
        rw [text, hshortest]
        exact {
          whole := allDigits_zero
          leading := .inl rfl
          fraction := by
            intro digits h
            obtain rfl : ['0'] = digits := Option.some.inj h
            exact allDigits_zero
          exponent := by
            intro _ _ h
            exact absurd h (by simp [FloatFormat.text, Json.floatFormat]) }
      · refine (FloatFormat.shape_text _ _ _).wellFormed (allDigits_toDigits _)
          (head_toDigits fun hdigits => hzero (h.shortest_value_eq_zero.1 ?_))
        simp [Binary64.Decimal.value, hdigits]

theorem isWhole_text_int (value : Int) : (int value).text.IsWhole := ⟨rfl, rfl⟩

theorem shape_text_float (x : Binary64) :
    DecimalShape x.negative (Nat.toDigits 10 x.shortest.digits) x.shortest.exponent
      (float x).text :=
  FloatFormat.shape_text _ _ _

theorem magnitude_text_float (x : Binary64) : (float x).text.magnitude = x.shortest.value := by
  rw [(shape_text_float x).magnitude_eq, Nat.ofDigitChars_ten_toDigits, Binary64.Decimal.value]

theorem Proper.chars_eq_cons {n : Number} (h : n.Proper) :
    ∃ c cs, n.chars = c :: cs ∧ Begins c := by
  have hread := read?_chars h.wellFormed ends_nil
  rw [List.append_nil, chars_text] at hread
  cases hchars : n.chars with
  | nil => simp [hchars, read?, readWhole?] at hread
  | cons c cs => exact ⟨c, cs, rfl, begins_of_read? (hchars ▸ hread)⟩

/-- The parts in which a number is written tell the number. -/
theorem Proper.eq_of_text {m n : Number} (hm : m.Proper) (hn : n.Proper)
    (h : m.text = n.text) : m = n := by
  cases hm with
  | @int a _ _ =>
      cases hn with
      | @int b _ _ =>
          have hnegative : decide (a < 0) = decide (b < 0) := congrArg NumberText.negative h
          have hdigits : Nat.toDigits 10 a.natAbs = Nat.toDigits 10 b.natAbs :=
            congrArg NumberText.whole h
          have habs := congrArg (Nat.ofDigitChars 10 · 0) hdigits
          simp only [Nat.ofDigitChars_ten_toDigits] at habs
          rw [decide_eq_decide] at hnegative
          congr 1
          omega
      | @float y _ => exact absurd (h ▸ isWhole_text_int a) (shape_text_float y).not_isWhole
  | @float x hx =>
      cases hn with
      | @int b _ _ => exact absurd (h ▸ isWhole_text_int b) (shape_text_float x).not_isWhole
      | @float y hy =>
          have hnegative := congrArg NumberText.negative h
          have hmagnitude := congrArg NumberText.magnitude h
          rw [(shape_text_float x).negative_eq, (shape_text_float y).negative_eq] at hnegative
          rw [magnitude_text_float, magnitude_text_float] at hmagnitude
          rw [hx.eq_of_shortest hy hnegative hmagnitude]

/-- A number is told by its text, whatever stands behind it. -/
theorem Proper.chars_append_inj {m n : Number} {r s : List Char} (hm : m.Proper) (hn : n.Proper)
    (hr : Ends r) (hs : Ends s) (h : m.chars ++ r = n.chars ++ s) : m = n ∧ r = s := by
  have hread := read?_chars hm.wellFormed hr
  rw [chars_text, h, ← chars_text, read?_chars hn.wellFormed hs] at hread
  obtain ⟨htext, rfl⟩ := Prod.mk.inj (Option.some.inj hread)
  exact ⟨hm.eq_of_text hn htext.symm, rfl⟩

/-- The number that the text of a number is read as. The text of an integer is read as the
integer. -/
def reread : Number → Number
  | .int value => .int value
  | .float x => ((read? (float x).chars).bind (·.1.value?)).getD (.float x)

/-- It is the number that the text stands for, if there is one. -/
theorem Proper.reread_eq {m n : Number} (h : n.Proper) (hm : n.text.value? = some m) :
    n.reread = m := by
  cases h with
  | int hlow hhigh => exact Option.some.inj ((value?_ofInt hlow hhigh).symm.trans hm)
  | float h =>
      have hread := read?_chars (Proper.float h).wellFormed ends_nil
      rw [List.append_nil, chars_text] at hread
      rw [reread, hread, Option.bind_some, hm, Option.getD_some]

end Number

end SealedToken
