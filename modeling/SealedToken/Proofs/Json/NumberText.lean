import SealedToken.Json.Reader

/-!
How a number is written: in parts, each of which is read as it stands.
-/

namespace SealedToken.NumberText

variable {cs rest digits more : List Char}

/-! ### What begins and what ends a number -/

/-- A number begins with its sign or with a digit. -/
def Begins (c : Char) : Prop := c = '-' ∨ c.isDigit = true

theorem Begins.ne {c d : Char} (h : Begins c) (hd : d ≠ '-') (hdigit : d.isDigit = false) :
    c ≠ d := by
  rintro rfl
  simp [Begins, hd, hdigit] at h

/-- What stands here is not a part of a number that stands before it. -/
def Ends (rest : List Char) : Prop :=
  ∀ c, rest.head? = some c → c.isDigit = false ∧ c ≠ '.' ∧ c ≠ 'e' ∧ c ≠ 'E'

@[simp] theorem ends_nil : Ends [] := by simp [Ends]

/-- Digits end here. -/
def NoDigit (rest : List Char) : Prop :=
  ∀ c, rest.head? = some c → c.isDigit = false

theorem Ends.noDigit (h : Ends rest) : NoDigit rest := fun c hc => (h c hc).1

/-! ### Digits -/

/-- At least one digit, and nothing else. -/
def AllDigits (digits : List Char) : Prop :=
  digits ≠ [] ∧ ∀ c ∈ digits, c.isDigit = true

theorem AllDigits.append_left (h : AllDigits digits) (hmore : ∀ c ∈ more, c.isDigit = true) :
    AllDigits (digits ++ more) :=
  ⟨by simp [h.1], List.forall_mem_append.2 ⟨h.2, hmore⟩⟩

theorem AllDigits.append_right (h : AllDigits digits) (hmore : ∀ c ∈ more, c.isDigit = true) :
    AllDigits (more ++ digits) :=
  ⟨by simp [h.1], List.forall_mem_append.2 ⟨hmore, h.2⟩⟩

theorem AllDigits.take {n : Nat} (h : AllDigits digits) (hn : 0 < n) : AllDigits (digits.take n) :=
  ⟨by simp [h.1, Nat.ne_of_gt hn], fun c hc => h.2 c (List.mem_of_mem_take hc)⟩

theorem AllDigits.drop {n : Nat} (h : AllDigits digits) (hn : n < digits.length) :
    AllDigits (digits.drop n) :=
  ⟨by simpa using hn, fun c hc => h.2 c (List.mem_of_mem_drop hc)⟩

theorem isDigit_replicate_zero (n : Nat) : ∀ c ∈ List.replicate n '0', c.isDigit = true := by
  intro c hc
  obtain rfl := List.eq_of_mem_replicate hc
  decide

theorem allDigits_zero : AllDigits ['0'] :=
  ⟨by simp, List.forall_mem_singleton.2 (by decide)⟩

/-! ### The digits of a natural number -/

/-- Only zero is written with a zero in front. -/
theorem eq_zero_of_toDigits {n : Nat} {digits : List Char}
    (h : Nat.toDigits 10 n = '0' :: digits) : n = 0 := by
  induction n using Nat.strongRecOn generalizing digits with
  | ind n ih =>
      rw [Nat.toDigits_eq_if (by decide)] at h
      split at h
      · next hlt =>
          have hdigits : ∀ m < 10, m.digitChar = '0' → m = 0 := by decide
          exact hdigits n hlt (List.cons.inj h).1
      · next hle =>
          obtain ⟨d, ds, hds⟩ := List.exists_cons_of_ne_nil
            (Nat.toDigits_ne_nil (n := n / 10) (b := 10))
          rw [hds] at h
          obtain ⟨rfl, -⟩ := List.cons.inj h
          have hzero := ih (n / 10) (by omega) hds
          omega

theorem allDigits_toDigits (n : Nat) : AllDigits (Nat.toDigits 10 n) :=
  ⟨Nat.toDigits_ne_nil, fun _ hc => Nat.isDigit_of_mem_toDigits (by decide) (by decide) hc⟩

theorem head_toDigits {n : Nat} (h : n ≠ 0) : (Nat.toDigits 10 n).head? ≠ some '0' := by
  intro hhead
  obtain ⟨d, ds, hds⟩ := List.exists_cons_of_ne_nil (Nat.toDigits_ne_nil (n := n) (b := 10))
  rw [hds] at hhead
  obtain rfl : d = '0' := Option.some.inj hhead
  exact h (eq_zero_of_toDigits hds)

/-! ### The characters of the parts -/

def fractionChars : Option (List Char) → List Char
  | none => []
  | some digits => '.' :: digits

def exponentChars : Option (Bool × List Char) → List Char
  | none => []
  | some (negative, digits) => 'e' :: (if negative then '-' else '+') :: digits

/-- A number put together of its parts. -/
def chars (t : NumberText) : List Char :=
  (if t.negative then ['-'] else []) ++
    (t.whole ++ (fractionChars t.fraction ++ exponentChars t.exponent))

/-- The parts of which a number can consist. -/
structure WellFormed (t : NumberText) : Prop where
  whole : AllDigits t.whole
  /-- A zero in front stands alone. -/
  leading : t.whole = ['0'] ∨ t.whole.head? ≠ some '0'
  fraction : ∀ digits, t.fraction = some digits → AllDigits digits
  exponent : ∀ negative digits, t.exponent = some (negative, digits) → AllDigits digits

/-! ### Reading the parts -/

theorem spanDigits_digits (h : ∀ c ∈ digits, c.isDigit = true)
    (hrest : NoDigit rest) : spanDigits (digits ++ rest) = (digits, rest) := by
  induction digits with
  | nil =>
      cases rest with
      | nil => rfl
      | cons c rest => simp [spanDigits, hrest c rfl]
  | cons d ds ih =>
      have hds := ih fun c hc => h c (by simp [hc])
      simp only [spanDigits, Prod.mk.injEq] at hds
      simp [spanDigits, h d (by simp), hds]

theorem readDigits?_digits (h : AllDigits digits) (hrest : NoDigit rest) :
    readDigits? (digits ++ rest) = some (digits, rest) := by
  rw [readDigits?, spanDigits_digits h.2 hrest]
  cases digits with
  | nil => exact absurd rfl h.1
  | cons d ds => rfl

theorem readWhole?_digits (h : AllDigits digits)
    (hleading : digits = ['0'] ∨ digits.head? ≠ some '0') (hrest : NoDigit rest) :
    readWhole? (digits ++ rest) = some (digits, rest) := by
  rcases hleading with rfl | hleading
  · rfl
  · cases digits with
    | nil => exact absurd rfl h.1
    | cons d ds =>
        have hzero : d ≠ '0' := by simpa using hleading
        rw [List.cons_append, readWhole?, if_pos (h.2 d (by simp)), ← List.cons_append,
          spanDigits_digits h.2 hrest]
        exact hzero

theorem noDigit_exponentChars (exponent : Option (Bool × List Char)) (h : Ends rest) :
    NoDigit (exponentChars exponent ++ rest) := by
  cases exponent with
  | none => exact h.noDigit
  | some e =>
      intro c hc
      obtain rfl : 'e' = c := Option.some.inj hc
      decide

theorem noDigit_fractionChars (fraction : Option (List Char)) (h : NoDigit rest) :
    NoDigit (fractionChars fraction ++ rest) := by
  cases fraction with
  | none => exact h
  | some digits =>
      intro c hc
      obtain rfl : '.' = c := Option.some.inj hc
      decide

theorem readExponent?_chars {exponent : Option (Bool × List Char)}
    (h : ∀ negative digits, exponent = some (negative, digits) → AllDigits digits)
    (hrest : Ends rest) :
    readExponent? (exponentChars exponent ++ rest) = some (exponent, rest) := by
  cases exponent with
  | none =>
      cases rest with
      | nil => rfl
      | cons c rest =>
          have hc : ¬ (c = 'e' ∨ c = 'E') := by simpa using (hrest c rfl).2.2
          simp [exponentChars, readExponent?, hc]
  | some e =>
      obtain ⟨negative, digits⟩ := e
      have hdigits := readDigits?_digits (h negative digits rfl) hrest.noDigit
      cases negative <;> simp [exponentChars, readExponent?, hdigits]

theorem readFraction?_chars {fraction : Option (List Char)}
    (h : ∀ digits, fraction = some digits → AllDigits digits) (hrest : NoDigit rest)
    (hpoint : rest.head? ≠ some '.') :
    readFraction? (fractionChars fraction ++ rest) = some (fraction, rest) := by
  cases fraction with
  | none =>
      rw [fractionChars, List.nil_append, readFraction?]
      rintro tail rfl
      exact hpoint rfl
  | some digits =>
      rw [fractionChars, List.cons_append, readFraction?, readDigits?_digits (h digits rfl) hrest]
      rfl

/-- A number behind its sign. -/
def readBehind? (negative : Bool) (cs : List Char) : Option (NumberText × List Char) := do
  let (whole, cs) ← readWhole? cs
  let (fraction, cs) ← readFraction? cs
  let (exponent, cs) ← readExponent? cs
  some (⟨negative, whole, fraction, exponent⟩, cs)

theorem read?_minus : read? ('-' :: cs) = readBehind? true cs := rfl

theorem read?_unsigned {c : Char} (h : c ≠ '-') :
    read? (c :: cs) = readBehind? false (c :: cs) := by
  simp [read?, readBehind?, h]

/-- A number is read in the parts of which it was put together. -/
theorem read?_chars {t : NumberText} (h : t.WellFormed) (hrest : Ends rest) :
    read? (t.chars ++ rest) = some (t, rest) := by
  obtain ⟨negative, whole, fraction, exponent⟩ := t
  have hexponent := noDigit_exponentChars exponent hrest
  have hpoint : (exponentChars exponent ++ rest).head? ≠ some '.' := by
    cases exponent with
    | none => exact fun hhead => (hrest '.' hhead).2.1 rfl
    | some e => simp [exponentChars]
  have hbehind : readBehind? negative
      (whole ++ (fractionChars fraction ++ (exponentChars exponent ++ rest))) =
      some (⟨negative, whole, fraction, exponent⟩, rest) := by
    simp [readBehind?,
      readWhole?_digits h.whole h.leading (noDigit_fractionChars fraction hexponent),
      readFraction?_chars h.fraction hexponent hpoint, readExponent?_chars h.exponent hrest]
  simp only [chars, List.append_assoc]
  cases negative with
  | true => exact hbehind
  | false =>
      obtain ⟨hne, hdigits⟩ := h.whole
      cases whole with
      | nil => exact absurd rfl hne
      | cons d ds =>
          refine (read?_unsigned fun hminus => ?_).trans hbehind
          have hdigit : d.isDigit = true := hdigits d (by simp)
          rw [hminus] at hdigit
          exact absurd hdigit (by decide)

end SealedToken.NumberText
