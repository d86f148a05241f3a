import SealedToken.Proofs.Jwt.Registered
import SealedToken.Proofs.Jwt.Window

/-!
The dates of claims, as a check reads them and as the record of the claims has them. The check
is content with any number and cuts off a fraction, the record only takes integers. So claims
that hold have a record just when their dates are integers, and then the record has the dates
that were compared with the clock.
-/

namespace SealedToken.Claims

variable {claims : Object} {now leeway : Int} {name : String} {value : Json}

/-! ### Dates of the record -/

/-- All claims with a fixed meaning but expiry and beginning are absent or of their types. -/
structure WellTyped (claims : Object) : Prop where
  texts : ∀ name ∈ ["iss", "sub", "jti"], ∃ text : Option String,
    claims.find? name = text.map .str
  aud : ∃ audience : Option Audience, claims.find? "aud" = audience.map Audience.toJson
  iat : Whole claims "iat"

/-- The claim of a name is a date that is counted in 64 bits, or absent as the date is. -/
structure HasDate (claims : Object) (name : String) (date : Option Int) : Prop where
  find?_eq : claims.find? name = date.map Json.int
  inRange : ∀ n, date = some n → Seconds.inRange n = true

theorem whole_iff : Whole claims name ↔ ∃ date, HasDate claims name date := by
  constructor
  · intro h
    cases hfound : claims.find? name with
    | none => exact ⟨none, hfound, by simp⟩
    | some value =>
        obtain ⟨n, hn⟩ := h value hfound
        obtain ⟨rfl, hrange⟩ := (Json.readsWritten_seconds.read_iff value n).1 hn
        exact ⟨some n, hfound, by simpa using hrange⟩
  · rintro ⟨_ | n, hfound, hrange⟩
    · simp [Whole, hfound]
    · exact whole_of_int hfound (hrange n rfl)

/-- Such a date is what the check reads. -/
theorem HasDate.date?_eq {date : Option Int} (h : HasDate claims name date) :
    date? claims name = .ok date := by
  cases date with
  | none => exact date?_eq_ok.2 (.inl ⟨h.find?_eq, rfl⟩)
  | some n =>
      have htruncated : Seconds.truncated? (.int n) = some n :=
        congrArg some (Seconds.clamp_of_inRange (h.inRange n rfl))
      exact date?_eq_ok.2 (.inr ⟨_, n, h.find?_eq, htruncated, rfl⟩)

/-- When the dates are integers too there is a record. -/
theorem WellTyped.exists_holds (h : WellTyped claims) (hexp : Whole claims "exp")
    (hnbf : Whole claims "nbf") : ∃ r, RegisteredClaims.Holds claims r := by
  obtain ⟨iss, hiss⟩ := h.texts "iss" (by simp)
  obtain ⟨sub, hsub⟩ := h.texts "sub" (by simp)
  obtain ⟨jti, hjti⟩ := h.texts "jti" (by simp)
  obtain ⟨aud, haud⟩ := h.aud
  obtain ⟨exp, hexp⟩ := whole_iff.1 hexp
  obtain ⟨nbf, hnbf⟩ := whole_iff.1 hnbf
  obtain ⟨iat, hiat⟩ := whole_iff.1 h.iat
  refine ⟨⟨iss, sub, aud, exp, nbf, iat, jti,
    claims.filter fun name _ => ! RegisteredClaims.registeredNames.contains name⟩, ?_,
    ⟨hexp.inRange, hnbf.inRange, hiat.inRange⟩, rfl⟩
  simp [RegisteredClaims.registeredNames, RegisteredClaims.registeredMembers, hiss, hsub, haud,
    hexp.find?_eq, hnbf.find?_eq, hiat.find?_eq, hjti, Json.readsWritten_text.present_map,
    Json.readsWritten_audience.present_map, Json.readsWritten_seconds.present_map]

/-- A date that the check can read is among the claims as it stands in a record of them. -/
theorem hasDate_of_present {date : Option Int}
    (hnumber : ∀ value, claims.find? name = some value →
      ∃ n, Seconds.truncated? value = some n)
    (hdate : Json.present (claims.find? name) = date.map Json.int)
    (hrange : ∀ n, date = some n → Seconds.inRange n = true) : HasDate claims name date := by
  refine ⟨?_, hrange⟩
  cases hfound : claims.find? name with
  | none => rwa [hfound] at hdate
  | some value =>
      -- null is no number, so it is not what the check has read
      have hne : value ≠ .null := by
        rintro rfl
        obtain ⟨n, hn⟩ := hnumber _ hfound
        simp [Seconds.truncated?] at hn
      rwa [hfound, Json.present_some, if_neg hne] at hdate

theorem ValidAt.hasDates {r : RegisteredClaims} (h : ValidAt claims now leeway)
    (hr : RegisteredClaims.Holds claims r) :
    HasDate claims "exp" r.exp ∧ HasDate claims "nbf" r.nbf := by
  have hexp := (hr.registered "exp" (by decide)).trans RegisteredClaims.find?_exp
  have hnbf := (hr.registered "nbf" (by decide)).trans RegisteredClaims.find?_nbf
  constructor
  · exact hasDate_of_present (fun value hvalue => (h.unexpired value hvalue).imp fun _ => And.left)
      hexp hr.dated.exp
  · exact hasDate_of_present (fun value hvalue => (h.begun value hvalue).imp fun _ => And.left)
      hnbf hr.dated.nbf

/-- A record has the dates that the check compares with the clock, and lacks those that the
claims lack. -/
structure SameDates (claims : Object) (r : RegisteredClaims) : Prop where
  exp : date? claims "exp" = .ok r.exp
  nbf : date? claims "nbf" = .ok r.nbf
  exp_absent : r.exp = none ↔ claims.find? "exp" = none
  nbf_absent : r.nbf = none ↔ claims.find? "nbf" = none

/-- Claims that hold, as a record. Let the claims with a fixed meaning apart from expiry and
beginning be absent or of their types. Then there is a record of them just when both dates are
integers where they occur, though the check is content with any number; and the record has the
dates that the check has compared. -/
theorem record_of_valid_claims (claims : Object) (now leeway : Int) (htyped : WellTyped claims)
    (hvalid : checkValidity claims now leeway = .ok ()) :
    (Whole claims "exp" ∧ Whole claims "nbf" ↔
      ∃ r, (Claims.object claims).registered = .ok r) ∧
    (∀ r, (Claims.object claims).registered = .ok r → SameDates claims r) ∧
    ∀ error, (Claims.object claims).registered = .error error → error = Json.shapeFault := by
  have hvalid := checkValidity_eq_ok.1 hvalid
  refine ⟨⟨fun ⟨hexp, hnbf⟩ => ?_, fun ⟨r, hr⟩ => ?_⟩, fun r hr => ?_,
    fun error => RegisteredClaims.ofObject_eq_error⟩
  · exact (htyped.exists_holds hexp hnbf).imp fun r hr => RegisteredClaims.ofObject_eq_ok.2 hr
  · have hr := RegisteredClaims.ofObject_eq_ok.1 hr
    obtain ⟨hexp, hnbf⟩ := hvalid.hasDates hr
    exact ⟨whole_iff.2 ⟨_, hexp⟩, whole_iff.2 ⟨_, hnbf⟩⟩
  · have hr := RegisteredClaims.ofObject_eq_ok.1 hr
    obtain ⟨hexp, hnbf⟩ := hvalid.hasDates hr
    exact ⟨hexp.date?_eq, hnbf.date?_eq, by simp [hexp.find?_eq], by simp [hnbf.find?_eq]⟩

/-- Claims of which every one with a fixed meaning is there. -/
def fullClaims : Object :=
  .ofMembers [("iss", .str "joe"), ("sub", .str "me"), ("aud", .arr [.str "a"]),
    ("exp", .int 1700000000), ("nbf", .int 1600000000), ("iat", .int 1600000000), ("jti", .str "1")]

theorem wellTyped_fullClaims : WellTyped fullClaims where
  texts := by
    simp only [List.forall_mem_cons]
    exact ⟨⟨some "joe", by decide⟩, ⟨some "me", by decide⟩, ⟨some "1", by decide⟩, by simp⟩
  aud := ⟨some (.many ["a"]), by decide⟩
  iat := whole_iff.2 ⟨some 1600000000, by decide, by decide⟩

/-- They hold until their expiry, and their record has the two dates. -/
theorem full_claims_recorded :
    checkValidity fullClaims 1700000000 0 = .ok () ∧
      ∃ r, (Claims.object fullClaims).registered = .ok r ∧ SameDates fullClaims r := by
  have hvalid : checkValidity fullClaims 1700000000 0 = .ok () := by decide +kernel
  obtain ⟨hwhole, hdates, -⟩ :=
    record_of_valid_claims fullClaims 1700000000 0 wellTyped_fullClaims hvalid
  obtain ⟨r, hr⟩ := hwhole.1 ⟨whole_iff.2 ⟨some 1700000000, by decide, by decide⟩,
    whole_iff.2 ⟨some 1600000000, by decide, by decide⟩⟩
  exact ⟨hvalid, r, hr, hdates r hr⟩

/-- An expiry that is written with an exponent, and so is no integer: 1.5e12. -/
def floatExpiry : Object := .ofMembers [("exp", .num (.float ⟨false, 1500000000000 * 2 ^ 12, -12⟩))]

/-- It is accepted as long as it is not over, but the claims have no record. -/
theorem float_expiry_unrecorded :
    ∃ claims now leeway, WellTyped claims ∧ checkValidity claims now leeway = .ok () ∧
      (Claims.object claims).registered = .error Json.shapeFault := by
  refine ⟨floatExpiry, 1700000000, 0, ⟨?_, ⟨none, by decide⟩, ?_⟩, by decide +kernel,
    by decide +kernel⟩
  · simp only [List.forall_mem_cons]
    exact ⟨⟨none, by decide⟩, ⟨none, by decide⟩, ⟨none, by decide⟩, by simp⟩
  · exact whole_iff.2 ⟨none, by decide, by simp⟩

end SealedToken.Claims
