import SealedToken.Proofs.Jwt.Checks
import SealedToken.Proofs.Object

/-!
What a table of expected claims asks for as a whole. Every entry is checked by itself and
looks at no claim but the one of its name, so tables can be taken apart and put together,
and the first entry in the order of the names that is not satisfied has its say.
-/

namespace SealedToken.Claims

variable {claims others table other : Object} {now leeway time : Int} {name : String}
  {actual expected : Json} {error : Error}

/-! ### What is told of one entry -/

/-- Both times of an entry can be read: the one that it refers to, and the date. -/
def Timed (actual expected : Json) : Prop :=
  (expected = .null ∨ (Seconds.ofJson? expected).isSome = true) ∧
    (Seconds.truncated? actual).isSome = true

instance : Decidable (Timed actual expected) := inferInstanceAs (Decidable (_ ∧ _))

/-- What is told of an entry that is not satisfied. Of two times in the wrong order it is
told which of them it is; all else is a claim that is missing or has not the right value. -/
def complaint (claims : Object) (name : String) (expected : Json) : Error :=
  match claims.find? name with
  | none => .missingClaim name
  | some actual =>
      if name = "exp" ∧ Timed actual expected then .expired
      else if name = "nbf" ∧ Timed actual expected then .notYetValid
      else .invalidClaimValue name

theorem RefersTo.readable (h : RefersTo expected now time) :
    expected = .null ∨ (Seconds.ofJson? expected).isSome = true := by
  obtain ⟨rfl, -⟩ | h := h
  · exact .inl rfl
  · exact .inr (by rw [h]; rfl)

theorem reference_eq_error (h : reference name expected now = .error error) :
    error = .invalidClaimValue name ∧ ∀ actual, ¬ Timed actual expected := by
  unfold reference at h
  split at h
  · simp at h
  · next hnull =>
      split at h
      · simp at h
      · next hnone =>
          refine ⟨(Except.error.inj h).symm, fun actual htimed => ?_⟩
          rcases htimed.1 with rfl | hsome
          · exact hnull rfl
          · simp [hnone] at hsome

theorem eq_complaint_of_checkDate (hactual : claims.find? name = some actual)
    (h : checkDate claims name expected now leeway = .error error) :
    error = complaint claims name expected := by
  rw [complaint, hactual]
  dsimp only
  cases htime : reference name expected now with
  | error other =>
      obtain ⟨rfl, huntimed⟩ := reference_eq_error htime
      rw [checkDate, htime] at h
      simpa [huntimed] using h.symm
  | ok time =>
      have hreadable := (reference_eq_ok.1 htime).readable
      rw [checkDate, htime, ok_bind, date?, hactual] at h
      dsimp only at h
      cases hdate : Seconds.truncated? actual with
      | none =>
          have huntimed : ¬ Timed actual expected := fun htimed => by simp [Timed, hdate] at htimed
          simpa [hdate, huntimed] using h.symm
      | some date =>
          have htimed : Timed actual expected := ⟨hreadable, by rw [hdate]; rfl⟩
          simp only [hdate, ok_bind, Option.getD_some, throw_eq_error, pure_eq_ok] at h
          split at h
          · next hexp =>
              rw [if_pos ⟨hexp, htimed⟩]
              split at h
              · exact (Except.error.inj h).symm
              · simp at h
          · next hexp =>
              rw [if_neg fun h => hexp h.1]
              split at h
              · split at h
                · next hnbf =>
                    rw [if_pos ⟨hnbf, htimed⟩]
                    exact (Except.error.inj h).symm
                · next hnbf =>
                    rw [if_neg fun h => hnbf h.1]
                    exact (Except.error.inj h).symm
              · simp at h

theorem eq_of_checkAudience (h : checkAudience actual expected = .error error) :
    error = .invalidClaimValue "aud" := by
  unfold checkAudience at h
  split at h
  · simp at h
  · split at h
    · split at h
      · simp at h
      · exact (Except.error.inj h).symm
    · exact (Except.error.inj h).symm

theorem eq_complaint_of_checkEntry (h : checkEntry claims now leeway name expected = .error error) :
    error = complaint claims name expected := by
  unfold checkEntry at h
  split at h
  · next hnone =>
      rw [complaint, hnone]
      exact (Except.error.inj h).symm
  · next actual hactual =>
      split at h
      · exact eq_complaint_of_checkDate hactual h
      · next hdate =>
          have hvalue : complaint claims name expected = .invalidClaimValue name := by
            have hexp : name ≠ "exp" := by rintro rfl; exact hdate rfl
            have hnbf : name ≠ "nbf" := by rintro rfl; exact hdate rfl
            simp [complaint, hactual, hexp, hnbf]
          rw [hvalue]
          split at h
          · next haud =>
              subst haud
              exact eq_of_checkAudience h
          · split at h
            · simp at h
            · exact (Except.error.inj h).symm

/-- An entry is refused just when it is not satisfied, with what is told of it. -/
theorem checkEntry_eq_error :
    checkEntry claims now leeway name expected = .error error ↔
      ¬ Satisfies claims now leeway name expected ∧ error = complaint claims name expected := by
  rw [← checkEntry_eq_ok]
  constructor
  · intro h
    exact ⟨by simp [h], eq_complaint_of_checkEntry h⟩
  · rintro ⟨hrefused, rfl⟩
    cases hcheck : checkEntry claims now leeway name expected with
    | ok _ => exact absurd hcheck hrefused
    | error error => rw [eq_complaint_of_checkEntry hcheck]

/-! ### Entries in a row -/

/-- The first entry that is not satisfied is the one that is told of. -/
theorem checkEntries_eq_error {entries : List (String × Json)} :
    checkEntries claims now leeway entries = .error error ↔
      ∃ entry, FirstWith (fun entry => ¬ Satisfies claims now leeway entry.1 entry.2) entries entry ∧
        error = complaint claims entry.1 entry.2 := by
  induction entries with
  | nil => simp [checkEntries]
  | cons entry rest ih =>
      rw [checkEntries]
      cases hcheck : checkEntry claims now leeway entry.1 entry.2 with
      | ok _ =>
          have hsatisfied := checkEntry_eq_ok.1 hcheck
          simp [firstWith_cons, hsatisfied, ih]
      | error found =>
          obtain ⟨hrefused, rfl⟩ := checkEntry_eq_error.1 hcheck
          simp [firstWith_cons, hrefused, eq_comm]

/-- An entry looks at no claim but the one of its name. -/
theorem checkEntry_congr (h : others.find? name = claims.find? name) :
    checkEntry others now leeway name expected = checkEntry claims now leeway name expected := by
  rw [checkEntry, checkEntry, h]
  cases claims.find? name with
  | none => rfl
  | some actual => rw [checkDate, checkDate, date?, date?, h]

theorem checkEntries_congr {entries : List (String × Json)}
    (h : ∀ entry ∈ entries, others.find? entry.1 = claims.find? entry.1) :
    checkEntries others now leeway entries = checkEntries claims now leeway entries := by
  induction entries with
  | nil => rfl
  | cons entry rest ih =>
      rw [checkEntries, checkEntries, checkEntry_congr (h entry (by simp)),
        ih fun entry hentry => h entry (by simp [hentry])]

/-! ### Tables -/

/-- Every entry of a table is satisfied. -/
def SatisfiesAll (claims table : Object) (now leeway : Int) : Prop :=
  ∀ name expected, table.find? name = some expected → Satisfies claims now leeway name expected

/-- Two tables expect the same of a claim that both name. -/
def Compatible (table other : Object) : Prop :=
  ∀ name a b, table.find? name = some a → other.find? name = some b → a = b

theorem checkExpected_eq_ok_iff :
    checkExpected claims table now leeway = .ok () ↔ SatisfiesAll claims table now leeway := by
  simp only [checkExpected_eq_ok, Prod.forall, Object.mem_members_iff]
  rfl

theorem Compatible.find?_union_left {v : Json} (h : Compatible table other)
    (hfound : table.find? name = some v) : (table.union other).find? name = some v := by
  rw [Object.find?_union]
  cases hother : other.find? name with
  | none => simpa using hfound
  | some w => rw [h name v w hfound hother, Option.some_or]

theorem satisfiesAll_union (h : Compatible table other) :
    SatisfiesAll claims (table.union other) now leeway ↔
      SatisfiesAll claims table now leeway ∧ SatisfiesAll claims other now leeway := by
  constructor
  · intro hall
    refine ⟨fun name expected hfound => hall name expected (h.find?_union_left hfound),
      fun name expected hfound => hall name expected ?_⟩
    rw [Object.find?_union, hfound, Option.some_or]
  · rintro ⟨htable, hother⟩ name expected hfound
    rw [Object.find?_union, Option.or_eq_some_iff] at hfound
    rcases hfound with hfound | ⟨-, hfound⟩
    · exact hother name expected hfound
    · exact htable name expected hfound

/-- Claims for two audiences, but of no issuer. -/
def audienceClaims : Object :=
  .ofMembers [("aud", .arr [.str "a", .str "b"]), ("exp", .int 100)]

def audienceTable : Object := .ofMembers [("aud", .str "b"), ("exp", .null)]

def issuerTable : Object := .ofMembers [("exp", .null), ("iss", .null)]

end SealedToken.Claims
