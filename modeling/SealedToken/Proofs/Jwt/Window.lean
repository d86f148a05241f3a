import SealedToken.Proofs.Jwt.Checks
import SealedToken.Proofs.Object

/-!
The times at which claims hold, in exact arithmetic. Sums and differences of seconds stop
at the ends of 64 bits, and a date and the leeway can reach either end; as long as the
clock reads neither of the ends, that never shows.
-/

namespace SealedToken

/-! ### Seconds at the ends of their range -/

namespace Seconds

variable {n now : Int} {value : Json} {date : Int}

theorem clamp_lt_iff (hleast : least < now) (hgreatest : now < greatest) :
    clamp n < now ↔ n < now := by
  unfold clamp
  unfold least greatest at *
  omega

theorem lt_clamp_iff (hleast : least < now) (hgreatest : now < greatest) :
    now < clamp n ↔ now < n := by
  unfold clamp
  unfold least greatest at *
  omega

theorem clamp_of_inRange (h : inRange n = true) : clamp n = n := by
  simp only [inRange, Bool.and_eq_true, decide_eq_true_eq] at h
  unfold clamp
  omega

/-- An integer in range is read as it stands, with its fraction cut off or not. -/
theorem ofJson?_eq_some (h : ofJson? value = some date) :
    value = Json.int date ∧ truncated? value = some date := by
  unfold ofJson? at h
  split at h
  · next n =>
      split at h
      · next hrange =>
          obtain rfl := Option.some.inj h
          exact ⟨rfl, by rw [truncated?, clamp_of_inRange hrange]⟩
      · simp at h
  · simp at h

end Seconds

namespace Claims

variable {claims : Object} {now leeway : Int} {name : String} {value : Json}

/-! ### The window -/

/-- A date is an integer in range where it occurs. -/
def Whole (claims : Object) (name : String) : Prop :=
  ∀ value, claims.find? name = some value → ∃ date, Seconds.ofJson? value = some date

theorem whole_of_int {date : Int} (h : claims.find? name = some (.int date))
    (hdate : Seconds.inRange date = true) : Whole claims name := by
  intro value hvalue
  obtain rfl := Option.some.inj (h.symm.trans hvalue)
  exact ⟨date, if_pos hdate⟩

/-- The expiry, if there is one, is not over by more than the leeway. -/
def Unexpired (claims : Object) (now leeway : Int) : Prop :=
  ∀ exp, claims.find? "exp" = some (.int exp) → now ≤ exp + leeway

/-- The beginning, if there is one, is not ahead by more than the leeway. -/
def Started (claims : Object) (now leeway : Int) : Prop :=
  ∀ nbf, claims.find? "nbf" = some (.int nbf) → nbf - leeway ≤ now

theorem Unexpired.mono {more : Int} (hmore : leeway ≤ more) (h : Unexpired claims now leeway) :
    Unexpired claims now more := by
  intro exp hexp
  have hnow := h exp hexp
  omega

theorem Started.mono {more : Int} (hmore : leeway ≤ more) (h : Started claims now leeway) :
    Started claims now more := by
  intro nbf hnbf
  have hnow := h nbf hnbf
  omega

/-- What is read of a date that is an integer. -/
theorem date?_of_whole (h : Whole claims name) :
    ∃ found, date? claims name = .ok found ∧
      ∀ date, found = some date ↔ claims.find? name = some (.int date) := by
  cases hvalue : claims.find? name with
  | none => exact ⟨none, date?_eq_ok.2 (.inl ⟨hvalue, rfl⟩), by simp⟩
  | some value =>
      obtain ⟨date, hdate⟩ := h value hvalue
      obtain ⟨rfl, htruncated⟩ := Seconds.ofJson?_eq_some hdate
      refine ⟨some date, date?_eq_ok.2 (.inr ⟨_, date, hvalue, htruncated, rfl⟩), fun other => ?_⟩
      simp [Json.int]

/-- The check once the dates are read. -/
theorem checkValidity_of_dates {exp nbf : Option Int} (hexp : date? claims "exp" = .ok exp)
    (hnbf : date? claims "nbf" = .ok nbf) :
    checkValidity claims now leeway =
      if exp.any fun date => Seconds.add date leeway < now then .error .expired
      else if nbf.any fun date => now < Seconds.sub date leeway then .error .notYetValid
      else .ok () := by
  rw [checkValidity, hexp, ok_bind]
  split
  · rfl
  · rw [hnbf, ok_bind]
    rfl

/-- The three outcomes for dates that are integers. -/
theorem checkValidity_of_whole (hexp : Whole claims "exp") (hnbf : Whole claims "nbf")
    (hnow : Seconds.least < now ∧ now < Seconds.greatest) (leeway : Int) :
    (checkValidity claims now leeway = .ok () ↔
      Unexpired claims now leeway ∧ Started claims now leeway) ∧
    (checkValidity claims now leeway = .error .expired ↔ ¬ Unexpired claims now leeway) ∧
    (checkValidity claims now leeway = .error .notYetValid ↔
      Unexpired claims now leeway ∧ ¬ Started claims now leeway) := by
  obtain ⟨exp, hexp, hexp_iff⟩ := date?_of_whole hexp
  obtain ⟨nbf, hnbf, hnbf_iff⟩ := date?_of_whole hnbf
  obtain ⟨hleast, hgreatest⟩ := hnow
  -- the saturated comparisons of the check are the exact ones of the window
  have hlate : (exp.any fun date => Seconds.add date leeway < now) = true ↔
      ¬ Unexpired claims now leeway := by
    simp only [Option.any_eq_true, decide_eq_true_eq, Seconds.add,
      Seconds.clamp_lt_iff hleast hgreatest, hexp_iff, Unexpired, not_forall, exists_prop,
      Int.not_le]
  have hearly : (nbf.any fun date => now < Seconds.sub date leeway) = true ↔
      ¬ Started claims now leeway := by
    simp only [Option.any_eq_true, decide_eq_true_eq, Seconds.sub,
      Seconds.lt_clamp_iff hleast hgreatest, hnbf_iff, Started, not_forall, exists_prop,
      Int.not_le]
  rw [checkValidity_of_dates hexp hnbf]
  by_cases hunexpired : Unexpired claims now leeway
  · rw [if_neg fun h => hlate.1 h hunexpired]
    by_cases hstarted : Started claims now leeway
    · rw [if_neg fun h => hearly.1 h hstarted]
      simp [hunexpired, hstarted]
    · rw [if_pos (hearly.2 hstarted)]
      simp [hunexpired, hstarted]
  · rw [if_pos (hlate.2 hunexpired)]
    simp [hunexpired]

/-! ### The same window in a table -/

theorem checkExpected_single (claims : Object) (now leeway : Int) (name : String)
    (expected : Json) :
    checkExpected claims (.ofMembers [(name, expected)]) now leeway =
      checkEntry claims now leeway name expected := by
  change checkEntry claims now leeway name expected >>= (fun _ => .ok ()) = _
  cases checkEntry claims now leeway name expected <;> rfl

/-- A null entry of a table compares an expiry or a beginning with the clock as is done for
the claim by itself, whatever its value is. -/
theorem checkEntry_null (hname : name = "exp" ∨ name = "nbf")
    (hvalue : claims.find? name = some value) :
    checkEntry claims now leeway name .null =
      checkValidity (.ofMembers [(name, value)]) now leeway := by
  have hentry : checkEntry claims now leeway name .null =
      checkDate claims name .null now leeway := by
    rw [checkEntry, hvalue]
    rcases hname with rfl | rfl <;> rfl
  have hdate : date? claims name = date? (.ofMembers [(name, value)]) name := by
    rw [date?, date?, hvalue, Object.find?_ofMembers (by simp)]
    simp
  rw [hentry, checkDate, hdate]
  cases hread : date? (.ofMembers [(name, value)]) name with
  | error error => rcases hname with rfl | rfl <;> simp [checkValidity, hread, reference] <;> rfl
  | ok found =>
      obtain ⟨hnone, -⟩ | ⟨_, date, -, -, rfl⟩ := date?_eq_ok.1 hread
      · simp [Object.find?_ofMembers] at hnone
      · -- the other date is absent
        rcases hname with rfl | rfl
        · rw [checkValidity_of_dates hread rfl]
          simp [reference, Json.isNull]
        · rw [checkValidity_of_dates rfl hread]
          simp [reference, Json.isNull]

/-- The window in which claims hold is exact. For dates that are integers in range, any
leeway, and a clock that reads neither end of the range, the check accepts just when the
expiry with the leeway is not over and the beginning without it is reached; it complains of
the expiry first. So more leeway never refuses what less accepts, and an entry of a table
that is null has the verdict that the claim has by itself. -/
theorem validity_window (claims : Object) (now leeway : Int) (hexp : Whole claims "exp")
    (hnbf : Whole claims "nbf") (hnow : Seconds.least < now ∧ now < Seconds.greatest) :
    (checkValidity claims now leeway = .ok () ↔
      Unexpired claims now leeway ∧ Started claims now leeway) ∧
    (checkValidity claims now leeway = .error .expired ↔ ¬ Unexpired claims now leeway) ∧
    (checkValidity claims now leeway = .error .notYetValid ↔
      Unexpired claims now leeway ∧ ¬ Started claims now leeway) ∧
    (∀ more, leeway ≤ more → checkValidity claims now leeway = .ok () →
      checkValidity claims now more = .ok ()) ∧
    ∀ name value, name = "exp" ∨ name = "nbf" → claims.find? name = some value →
      checkExpected claims (.ofMembers [(name, .null)]) now leeway =
        checkValidity (.ofMembers [(name, value)]) now leeway := by
  have houtcomes := checkValidity_of_whole hexp hnbf hnow
  obtain ⟨hok, hexpired, hahead⟩ := houtcomes leeway
  refine ⟨hok, hexpired, hahead, fun more hmore h => ?_, fun name value hname hvalue => ?_⟩
  · obtain ⟨hunexpired, hstarted⟩ := hok.1 h
    exact (houtcomes more).1.2 ⟨hunexpired.mono hmore, hstarted.mono hmore⟩
  · rw [checkExpected_single, checkEntry_null hname hvalue]

/-- Claims that hold as long as seconds can be counted. -/
def lasting : Object :=
  .ofMembers [("exp", .int Seconds.greatest), ("nbf", .int Seconds.least)]

/-- Just before the end of time a minute of leeway goes past the end, and a leeway of less
than nothing ends the claims. -/
theorem lasting_window :
    checkValidity lasting (Seconds.greatest - 1) 60 = .ok () ∧
      checkValidity lasting (Seconds.greatest - 1) (-2) = .error .expired ∧
      checkExpected lasting (.ofMembers [("nbf", .null)]) (Seconds.greatest - 1) 60 =
        checkValidity (.ofMembers [("nbf", .int Seconds.least)]) (Seconds.greatest - 1) 60 := by
  have hexp : lasting.find? "exp" = some (.int Seconds.greatest) := rfl
  have hnbf : lasting.find? "nbf" = some (.int Seconds.least) := rfl
  have hwindow (leeway : Int) := validity_window lasting (Seconds.greatest - 1) leeway
    (whole_of_int hexp (by decide)) (whole_of_int hnbf (by decide)) (by decide)
  refine ⟨(hwindow 60).1.2 ⟨fun exp h => ?_, fun nbf h => ?_⟩, (hwindow (-2)).2.1.2 fun h => ?_,
    (hwindow 60).2.2.2.2 "nbf" _ (.inr rfl) hnbf⟩
  · obtain rfl : Seconds.greatest = exp := by simpa [Json.int] using hexp.symm.trans h
    decide
  · obtain rfl : Seconds.least = nbf := by simpa [Json.int] using hnbf.symm.trans h
    decide
  · exact absurd (h Seconds.greatest hexp) (by decide)

end Claims

end SealedToken
