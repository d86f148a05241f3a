import SealedToken.Jwt.Claims
import SealedToken.Proofs.Header

/-!
What the checks of claims ask for: the times between which claims hold, and what
each entry of a table of expected claims wants of the claim of its name.
-/

namespace SealedToken.Claims

variable {claims : Object} {now leeway : Int} {name : String} {actual expected : Json}

/-! ### Times -/

theorem date?_eq_ok {found : Option Int} :
    date? claims name = .ok found ↔
      claims.find? name = none ∧ found = none ∨
      ∃ value date, claims.find? name = some value ∧ Seconds.truncated? value = some date ∧
        found = some date := by
  unfold date?
  split
  · next hnone => simp [hnone, eq_comm]
  · next value hsome =>
      split
      · next date hdate => simp [hsome, hdate, eq_comm]
      · next hdate => simp [hsome, hdate]

/-- The claims hold at a time, as far as they say when they hold. -/
structure ValidAt (claims : Object) (now leeway : Int) : Prop where
  unexpired : ∀ value, claims.find? "exp" = some value →
    ∃ date, Seconds.truncated? value = some date ∧ now ≤ Seconds.add date leeway
  begun : ∀ value, claims.find? "nbf" = some value →
    ∃ date, Seconds.truncated? value = some date ∧ Seconds.sub date leeway ≤ now

/-- A date that must not be late passes when it is absent, or a number that is not. -/
theorem date?_passes (claims : Object) (name : String) (late : Int → Bool) :
    (∃ found, date? claims name = .ok found ∧ found.any late = false) ↔
      ∀ value, claims.find? name = some value →
        ∃ date, Seconds.truncated? value = some date ∧ late date = false := by
  constructor
  · rintro ⟨found, hfound, hlate⟩ value hvalue
    obtain ⟨hnone, -⟩ | ⟨value', date, hvalue', hdate, rfl⟩ := date?_eq_ok.1 hfound
    · simp [hvalue] at hnone
    · obtain rfl : value' = value := Option.some.inj (hvalue'.symm.trans hvalue)
      exact ⟨date, hdate, hlate⟩
  · intro h
    cases hvalue : claims.find? name with
    | none => exact ⟨none, date?_eq_ok.2 (.inl ⟨hvalue, rfl⟩), rfl⟩
    | some value =>
        obtain ⟨date, hdate, hlate⟩ := h value hvalue
        exact ⟨some date, date?_eq_ok.2 (.inr ⟨value, date, hvalue, hdate, rfl⟩), hlate⟩

theorem checkValidity_eq_ok :
    checkValidity claims now leeway = .ok () ↔ ValidAt claims now leeway := by
  -- both dates pass by the same rule, each with its own side of the time
  have hexp := date?_passes claims "exp" fun date => Seconds.add date leeway < now
  have hnbf := date?_passes claims "nbf" fun date => now < Seconds.sub date leeway
  simp only [decide_eq_false_iff_not, Int.not_lt] at hexp hnbf
  simp only [checkValidity, bind_eq_ok, throw_eq_error, error_bind, ite_error_eq_ok,
    Bool.not_eq_true, pure_eq_ok, and_true]
  constructor
  · rintro ⟨exp, hexp', hunexpired, nbf, hnbf', hbegun⟩
    exact ⟨hexp.1 ⟨exp, hexp', hunexpired⟩, hnbf.1 ⟨nbf, hnbf', hbegun⟩⟩
  · rintro ⟨hunexpired, hbegun⟩
    obtain ⟨exp, hexp', hunexpired⟩ := hexp.2 hunexpired
    obtain ⟨nbf, hnbf', hbegun⟩ := hnbf.2 hbegun
    exact ⟨exp, hexp', hunexpired, nbf, hnbf', hbegun⟩

/-! ### Expected claims -/

/-- The time that an entry has a date compared with. -/
def RefersTo (expected : Json) (now reference : Int) : Prop :=
  expected = .null ∧ reference = now ∨ Seconds.ofJson? expected = some reference

/-- What an entry of a table asks for: the claim has to be there, and unless the entry
is null it has to agree with it. Dates are on the right side of a reference, audiences
have a member in common, all else is equal. -/
def Satisfies (claims : Object) (now leeway : Int) (name : String) (expected : Json) : Prop :=
  ∃ actual, claims.find? name = some actual ∧
    if name ∈ dateNames then
      ∃ reference date, RefersTo expected now reference ∧ Seconds.truncated? actual = some date ∧
        if name = "exp" then reference ≤ Seconds.add date leeway
        else Seconds.sub date leeway ≤ reference
    else if name = "aud" then
      expected = .null ∨ ∃ a b, Audience.ofJson? actual = some a ∧
        Audience.ofJson? expected = some b ∧ a.meets b = true
    else expected = .null ∨ actual.same expected = true

theorem isNull_iff {value : Json} : value.isNull = true ↔ value = .null := by
  cases value <;> simp [Json.isNull]

theorem reference_eq_ok {time : Int} :
    reference name expected now = .ok time ↔ RefersTo expected now time := by
  unfold reference RefersTo
  split
  · next hnull =>
      obtain rfl := isNull_iff.1 hnull
      simp [Seconds.ofJson?, eq_comm]
  · next hnull =>
      have hne : expected ≠ .null := fun h => hnull (isNull_iff.2 h)
      split <;> simp_all

theorem checkAudience_eq_ok :
    checkAudience actual expected = .ok () ↔
      expected = .null ∨ ∃ a b, Audience.ofJson? actual = some a ∧
        Audience.ofJson? expected = some b ∧ a.meets b = true := by
  unfold checkAudience
  split
  · next hnull => simp [isNull_iff.1 hnull]
  · next hnull =>
      have hne : expected ≠ .null := fun h => hnull (isNull_iff.2 h)
      split
      · next a b ha hb => simp [hne, ha, hb]
      · next hnot =>
          simp only [reduceCtorEq, hne, false_or, false_iff]
          rintro ⟨a, b, ha, hb, -⟩
          exact hnot a b ha hb

theorem checkDate_eq_ok (hactual : claims.find? name = some actual) :
    checkDate claims name expected now leeway = .ok () ↔
      ∃ reference date, RefersTo expected now reference ∧ Seconds.truncated? actual = some date ∧
        if name = "exp" then reference ≤ Seconds.add date leeway
        else Seconds.sub date leeway ≤ reference := by
  simp only [checkDate, bind_eq_ok, reference_eq_ok, date?_eq_ok, hactual, reduceCtorEq,
    Option.some.injEq, false_and, false_or, throw_eq_error, pure_eq_ok]
  constructor
  · rintro ⟨reference, hreference, _, ⟨_, date, rfl, hdate, rfl⟩, h⟩
    refine ⟨reference, date, hreference, hdate, ?_⟩
    split at h
    · next hexp => simpa [hexp] using h
    · next hexp =>
        rw [if_neg hexp]
        split at h
        · -- too late a beginning and too late an issue differ in the error only
          split at h <;> simp at h
        · next hlate => exact Int.not_lt.1 hlate
  · rintro ⟨reference, date, hreference, hdate, h⟩
    refine ⟨reference, hreference, some date, ⟨actual, date, rfl, hdate, rfl⟩, ?_⟩
    split at h
    · next hexp => simpa [hexp] using h
    · next hexp => simpa [hexp] using h

theorem checkEntry_eq_ok :
    checkEntry claims now leeway name expected = .ok () ↔
      Satisfies claims now leeway name expected := by
  unfold checkEntry Satisfies
  cases hactual : claims.find? name with
  | none => simp
  | some actual =>
      simp only [Option.some.injEq, exists_eq_left', List.contains_iff_mem]
      split
      · exact checkDate_eq_ok hactual
      · split
        · exact checkAudience_eq_ok
        · rw [← isNull_iff]
          cases expected.isNull <;> simp

theorem checkEntries_eq_ok {entries : List (String × Json)} :
    checkEntries claims now leeway entries = .ok () ↔
      ∀ entry ∈ entries, Satisfies claims now leeway entry.1 entry.2 := by
  induction entries with
  | nil => simp [checkEntries]
  | cons entry rest ih =>
      rw [checkEntries, seq_eq_ok, checkEntry_eq_ok, ih, List.forall_mem_cons]

/-- A table of expected claims is met entry by entry. -/
theorem checkExpected_eq_ok {table : Object} :
    checkExpected claims table now leeway = .ok () ↔
      ∀ entry ∈ table.members, Satisfies claims now leeway entry.1 entry.2 :=
  checkEntries_eq_ok

end SealedToken.Claims
