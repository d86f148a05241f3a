import Mathlib.Data.List.TakeWhile
import SealedToken.Json.Printer
import SealedToken.Proofs.Json.NumberText

/-!
The text of a number is read as the number again, whatever stands behind it, as long as
that could not be a part of the number.
-/

namespace SealedToken

namespace NumberText

variable {cs rest left : List Char}

theorem Ends.spanDigits (h : Ends rest) : NumberText.spanDigits rest = ([], rest) := by
  cases rest with
  | nil => rfl
  | cons c rest => simp [NumberText.spanDigits, (h c rfl).1]

theorem spanDigits_append (h : Ends rest) :
    spanDigits (cs ++ rest) = ((spanDigits cs).1, (spanDigits cs).2 ++ rest) := by
  induction cs with
  | nil => simpa [spanDigits] using h.spanDigits
  | cons c cs ih =>
      simp only [spanDigits, Prod.mk.injEq] at ih ⊢
      cases hc : c.isDigit <;> simp [hc, ih]

/-! ### The parts of a number -/

theorem readWhole?_append {whole : List Char} (hrest : Ends rest)
    (h : readWhole? cs = some (whole, left)) :
    readWhole? (cs ++ rest) = some (whole, left ++ rest) := by
  unfold readWhole? at h
  split at h
  · next tail =>
      obtain ⟨rfl, rfl⟩ := Prod.mk.inj (Option.some.inj h)
      rfl
  · next c tail hzero =>
      obtain ⟨hdigit, h⟩ := Option.ite_none_right_eq_some.1 h
      have hspan : spanDigits (c :: (tail ++ rest)) = (whole, left ++ rest) := by
        rw [← List.cons_append, spanDigits_append hrest, Option.some.inj h]
      rw [List.cons_append, readWhole?, if_pos hdigit, hspan]
      exact hzero
  · simp at h

theorem readDigits?_append {digits : List Char} (hrest : Ends rest)
    (h : readDigits? cs = some (digits, left)) :
    readDigits? (cs ++ rest) = some (digits, left ++ rest) := by
  rw [readDigits?] at h ⊢
  rw [spanDigits_append hrest]
  generalize spanDigits cs = found at h
  obtain ⟨_ | ⟨d, ds⟩, tail⟩ := found
  · simp at h
  · obtain ⟨rfl, rfl⟩ := Prod.mk.inj (Option.some.inj h)
    rfl

/-- Digits of which something is made. -/
theorem map_readDigits?_append {α : Type} {f : List Char → α} {a : α} (hrest : Ends rest)
    (h : (readDigits? cs).map (fun (ds, rest) => (f ds, rest)) = some (a, left)) :
    (readDigits? (cs ++ rest)).map (fun (ds, rest) => (f ds, rest)) = some (a, left ++ rest) := by
  obtain ⟨⟨digits, left⟩, hdigits, heq⟩ := Option.map_eq_some_iff.1 h
  obtain ⟨rfl, rfl⟩ := Prod.mk.inj heq
  rw [readDigits?_append hrest hdigits]
  rfl

theorem readFraction?_append {fraction : Option (List Char)} (hrest : Ends rest)
    (h : readFraction? cs = some (fraction, left)) :
    readFraction? (cs ++ rest) = some (fraction, left ++ rest) := by
  unfold readFraction? at h
  split at h
  · next tail =>
      rw [List.cons_append, readFraction?]
      exact map_readDigits?_append hrest h
  · next hpoint =>
      obtain ⟨rfl, rfl⟩ := Prod.mk.inj (Option.some.inj h)
      rw [readFraction?]
      intro tail heq
      cases cs with
      | nil =>
          rw [List.nil_append] at heq
          exact (hrest '.' (by rw [heq]; rfl)).2.1 rfl
      | cons c cs =>
          obtain ⟨rfl, -⟩ := List.cons.inj heq
          exact hpoint cs rfl

/-- An exponent without a sign. -/
theorem readExponent?_unsigned {c d : Char} (hc : c = 'e' ∨ c = 'E') (hplus : d ≠ '+')
    (hminus : d ≠ '-') :
    readExponent? (c :: d :: cs) =
      (readDigits? (d :: cs)).map fun (ds, rest) => (some (false, ds), rest) := by
  simp [readExponent?, hc, hplus, hminus]

theorem readExponent?_append {exponent : Option (Bool × List Char)} (hrest : Ends rest)
    (h : readExponent? cs = some (exponent, left)) :
    readExponent? (cs ++ rest) = some (exponent, left ++ rest) := by
  cases cs with
  | nil =>
      obtain ⟨rfl, rfl⟩ := Prod.mk.inj (Option.some.inj h)
      cases rest with
      | nil => rfl
      | cons c rest =>
          have hc : ¬ (c = 'e' ∨ c = 'E') := by
            simpa using (hrest c rfl).2.2
          simp [readExponent?, hc]
  | cons c tail =>
      by_cases hc : c = 'e' ∨ c = 'E'
      · cases tail with
        | nil => simp [readExponent?, hc, readDigits?, spanDigits] at h
        | cons d tail =>
            by_cases hplus : d = '+'
            · subst hplus
              simp only [readExponent?, if_pos hc, List.cons_append] at h ⊢
              exact map_readDigits?_append (f := fun ds => some (_, ds)) hrest h
            · by_cases hminus : d = '-'
              · subst hminus
                simp only [readExponent?, if_pos hc, List.cons_append] at h ⊢
                exact map_readDigits?_append (f := fun ds => some (_, ds)) hrest h
              · rw [readExponent?_unsigned hc hplus hminus] at h
                rw [List.cons_append, List.cons_append,
                  readExponent?_unsigned hc hplus hminus]
                exact map_readDigits?_append (f := fun ds => some (_, ds)) hrest h
      · rw [List.cons_append]
        simp only [readExponent?, if_neg hc] at h ⊢
        obtain ⟨rfl, rfl⟩ := Prod.mk.inj (Option.some.inj h)
        rfl

theorem readBehind?_append {negative : Bool} {text : NumberText} (hrest : Ends rest)
    (h : readBehind? negative cs = some (text, left)) :
    readBehind? negative (cs ++ rest) = some (text, left ++ rest) := by
  simp only [readBehind?, Option.bind_eq_bind, Option.bind_eq_some_iff] at h ⊢
  obtain ⟨⟨whole, _⟩, hwhole, ⟨fraction, _⟩, hfraction, ⟨exponent, _⟩, hexponent, h⟩ := h
  obtain ⟨rfl, rfl⟩ := Prod.mk.inj (Option.some.inj h)
  exact ⟨_, readWhole?_append hrest hwhole, _, readFraction?_append hrest hfraction, _,
    readExponent?_append hrest hexponent, rfl⟩

/-- What stands behind a number is left over. -/
theorem read?_append {text : NumberText} (hrest : Ends rest)
    (h : read? cs = some (text, left)) : read? (cs ++ rest) = some (text, left ++ rest) := by
  cases cs with
  | nil => simp [read?, readWhole?] at h
  | cons c cs =>
      by_cases hminus : c = '-'
      · subst hminus
        rw [read?_minus] at h
        rw [List.cons_append, read?_minus, readBehind?_append hrest h]
      · rw [read?_unsigned hminus] at h
        rw [List.cons_append, read?_unsigned hminus, ← List.cons_append,
          readBehind?_append hrest h]

theorem begins_of_read? {c : Char} {found : NumberText × List Char}
    (h : read? (c :: cs) = some found) : Begins c := by
  by_contra hc
  obtain ⟨hminus, hdigit⟩ := not_or.1 hc
  have hwhole : readWhole? (c :: cs) = none := by
    rw [readWhole?, if_neg hdigit]
    rintro rfl
    exact hdigit (by decide)
  simp [read?_unsigned hminus, readBehind?, hwhole] at h

/-! ### Whole numbers -/

theorem le_ofDigitChars (digits : List Char) (n : Nat) : n ≤ Nat.ofDigitChars 10 digits n := by
  induction digits generalizing n with
  | nil => exact Nat.le_refl n
  | cons d ds ih =>
      rw [Nat.ofDigitChars_cons]
      exact Nat.le_trans (by omega) (ih _)

/-- Digits that fit are all collected. -/
theorem collect_eq (digits : List Char) (n : Nat) (h : Nat.ofDigitChars 10 digits n < 2 ^ 64) :
    collect n digits = ⟨Nat.ofDigitChars 10 digits n, 0⟩ := by
  induction digits generalizing n with
  | nil => rfl
  | cons d ds ih =>
      rw [Nat.ofDigitChars_cons] at h ⊢
      have hnext : n * 10 + (d.toNat - 48) < 2 ^ 64 := by
        have hle := le_ofDigitChars ds (10 * n + (d.toNat - '0'.toNat))
        rw [Nat.mul_comm]
        exact Nat.lt_of_le_of_lt hle h
      rw [← ih _ h, collect, List.foldl_cons, collect, Collected.add, if_pos ⟨rfl, hnext⟩,
        Nat.mul_comm]
      rfl

end NumberText

namespace NumberText

/-- The text of an integer in its parts. -/
def ofInt (value : Int) : NumberText :=
  ⟨decide (value < 0), Nat.toDigits 10 value.natAbs, none, none⟩

theorem chars_ofInt (value : Int) : (ofInt value).chars = (Number.int value).chars := by
  unfold ofInt chars Number.chars
  by_cases h : value < 0 <;> simp [h, fractionChars, exponentChars]

theorem wellFormed_ofInt (value : Int) : (ofInt value).WellFormed where
  whole := allDigits_toDigits _
  leading := by
    by_cases h : value.natAbs = 0
    · exact .inl (by rw [ofInt, h]; rfl)
    · exact .inr (head_toDigits h)
  fraction := by simp [ofInt]
  exponent := by simp [ofInt]

/-- Integers that fit 64 bits, signed or unsigned, are the values of their texts. -/
theorem value?_ofInt {value : Int} (hlow : -2 ^ 63 ≤ value) (hhigh : value < 2 ^ 64) :
    (ofInt value).value? = some (.int value) := by
  have hcollect : collect 0 (Nat.toDigits 10 value.natAbs) = ⟨value.natAbs, 0⟩ := by
    rw [collect_eq, Nat.ofDigitChars_ten_toDigits]
    rw [Nat.ofDigitChars_ten_toDigits]
    omega
  by_cases hneg : value < 0
  · have hfits : ¬ (value.natAbs = 0 ∨ 2 ^ 63 < value.natAbs) := by omega
    have habs : -(value.natAbs : Int) = value := by omega
    simp only [value?, ofInt, hcollect, decide_eq_true hneg, if_neg hfits, habs]
    rfl
  · have habs : (value.natAbs : Int) = value := by omega
    simp [value?, ofInt, hcollect, hneg, habs]

end NumberText

namespace Number

/-- The text of a number stands for the number. -/
def ReadsBack (n : Number) : Prop :=
  ∃ text, NumberText.read? n.chars = some (text, []) ∧ text.value? = some n

theorem readsBack_int {value : Int} (hlow : -2 ^ 63 ≤ value) (hhigh : value < 2 ^ 64) :
    (int value).ReadsBack := by
  have hread := NumberText.read?_chars (NumberText.wellFormed_ofInt value) NumberText.ends_nil
  rw [List.append_nil, NumberText.chars_ofInt] at hread
  exact ⟨_, hread, NumberText.value?_ofInt hlow hhigh⟩

end Number

end SealedToken
