import SealedToken.Proofs.Jws.Withdrawal
import SealedToken.Proofs.Jwt.Header
import SealedToken.Proofs.Jwt.Release

/-!
What is left of an earlier success when a validation fails. Claims are replaced by a
validation that comes as far as its own claims, which is one that succeeds or fails with an
error about them. One that fails before leaves header and claims of the last that came so
far, although the token that is held has withdrawn what it released.
-/

namespace SealedToken

/-! ### Errors about claims -/

/-- An error that is not about claims. -/
def Error.isForeign (error : Error) : Bool := !error.isClaimsError

/-- Every failure of the operation is an error about claims. -/
abbrev OnlyClaimsErrors {α : Type} (x : Except Error α) : Prop := Avoids Error.isForeign x

namespace Claims

variable {claims : Object} {now leeway : Int} {name : String} {expected actual : Json}

@[simp] theorem onlyClaimsErrors_date? : OnlyClaimsErrors (date? claims name) := by
  unfold date?
  split
  · simp
  · split <;> simp [Error.isForeign, Error.isClaimsError]

theorem onlyClaimsErrors_checkValidity : OnlyClaimsErrors (checkValidity claims now leeway) := by
  simp [checkValidity, Error.isForeign, Error.isClaimsError]

@[simp] theorem onlyClaimsErrors_reference : OnlyClaimsErrors (reference name expected now) := by
  unfold reference
  split
  · simp
  · split <;> simp [Error.isForeign, Error.isClaimsError]

theorem onlyClaimsErrors_checkDate :
    OnlyClaimsErrors (checkDate claims name expected now leeway) := by
  simp [checkDate, Error.isForeign, Error.isClaimsError]

theorem onlyClaimsErrors_checkAudience : OnlyClaimsErrors (checkAudience actual expected) := by
  unfold checkAudience
  split
  · simp
  · split
    · simp [Error.isForeign, Error.isClaimsError]
    · simp [Error.isForeign, Error.isClaimsError]

@[simp] theorem onlyClaimsErrors_checkEntry :
    OnlyClaimsErrors (checkEntry claims now leeway name expected) := by
  unfold checkEntry
  split
  · simp [Error.isForeign, Error.isClaimsError]
  · simp [onlyClaimsErrors_checkDate, onlyClaimsErrors_checkAudience, Error.isForeign,
      Error.isClaimsError]

theorem onlyClaimsErrors_checkEntries {entries : List (String × Json)} :
    OnlyClaimsErrors (checkEntries claims now leeway entries) := by
  induction entries with
  | nil => simp [checkEntries]
  | cons entry rest ih => simp [checkEntries, ih]

end Claims

namespace Jwt

variable {p : Primitives} {t : Jwt} {now : Int}

/-- Once the claims are looked at, they are all that can be wrong. -/
theorem onlyClaimsErrors_checkClaims : OnlyClaimsErrors (t.checkClaims now) := by
  unfold checkClaims
  split
  · simp only [Avoids.bind_iff, Claims.onlyClaimsErrors_checkValidity, true_and]
    intro _ _
    cases t.options.checks with
    | none => simp
    | some expected => exact Claims.onlyClaimsErrors_checkEntries
  · simp [Error.isForeign, Error.isClaimsError]
  · simp

variable {supply : Recipient → Jwk → Entropy} {keys : KeySource} {claims : Claims}

/-! ### One validation -/

namespace Validation

variable {v : Validation}

/-- The validation fails before it looks at claims. -/
def Fails (p : Primitives) (v : Validation) : Prop :=
  ∃ error, (v.result p).1 = .error error ∧ error.isClaimsError = false

/-- The validation comes as far as these claims, whatever it thinks of them. -/
def Settles (p : Primitives) (v : Validation) (claims : Claims) : Prop :=
  ¬ v.Fails p ∧ (v.result p).2.claims = some claims

/-- A validation that fails before it looks at claims leaves those that there were. -/
theorem Fails.kept (h : v.Fails p) :
    (v.result p).2.claims = v.start.claims ∧ (v.result p).2.header = v.start.header := by
  obtain ⟨error, herror, hforeign⟩ := h
  cases hresult : v.result p with
  | mk outcome after =>
      rw [hresult] at herror
      obtain rfl := herror
      cases validates_of_result hresult with
      | refused spared kept same unread configured => exact ⟨kept, unread⟩
      | checked held expected authentic read checks =>
          have hclaims := onlyClaimsErrors_checkClaims error checks
          simp [Error.isForeign, hforeign] at hclaims

theorem claims_result :
    (v.result p).2.claims = some claims ↔
      v.Settles p claims ∨ v.start.claims = some claims ∧ v.Fails p := by
  by_cases h : v.Fails p
  · rw [h.kept.1]
    simp [Settles, h]
  · simp [Settles, h]

end Validation

/-! ### Runs -/

namespace Call

/-- The call makes a validation that comes as far as these claims. -/
def Settles (p : Primitives) (t : Jwt) (c : Call) (claims : Claims) : Prop :=
  ∃ v, c.validation? t = some v ∧ v.Settles p claims

/-- The call leaves the claims that there are: it reads no token, and if it makes a
validation, that fails before it looks at claims. -/
def Spares (p : Primitives) (t : Jwt) (c : Call) : Prop :=
  c.replaces = false ∧ ∀ v, c.validation? t = some v → v.Fails p

/-- One step: claims that can be had after a call are those that its validation came to,
or were there before and are spared. -/
theorem claims_result (c : Call) :
    (c.result p t).2.claims = some claims ↔
      c.Settles p t claims ∨ t.claims = some claims ∧ c.Spares p t := by
  cases c with
  | setOptions options => simp [result, Settles, Spares, validation?, replaces]
  | validate supply now keys =>
      have hresult := @Validation.claims_result p claims ⟨t, supply, now, keys⟩
      simpa [result, Settles, Spares, validation?, replaces, Validation.result] using hresult
  | deserialize supply now raw keys =>
      cases hread : t.readCarrier (Text.trim raw) with
      | error error =>
          have hreplaces : replaces (.deserialize supply now raw keys) = false := by
            rw [replaces, ← isOk_readCarrier (t := t), hread, isOk_error]
          simp [result, Settles, Spares, validation?, hreplaces, Jwt.deserialize, hread]
      | ok token =>
          have hreplaces : replaces (.deserialize supply now raw keys) = true := by
            rw [replaces, ← isOk_readCarrier (t := t), hread, isOk_ok]
          cases keys with
          | none =>
              simp [result, Settles, Spares, validation?, hreplaces, Jwt.deserialize, hread]
          | some keys =>
              have hresult := @Validation.claims_result p claims
                ⟨{ t with token := some token, claims := none }, supply, now, keys⟩
              simpa [result, Settles, Spares, validation?, hreplaces, Jwt.deserialize, hread,
                Validation.result] using hresult

end Call

/-- Among the validations since the last token was read, these are the claims of the last
that came as far as claims. -/
def SettledLast (p : Primitives) (t : Jwt) (calls : List Call) (claims : Claims) : Prop :=
  ∃ before c later, calls = before ++ c :: later ∧ c.Settles p (t.run p before) claims ∧
    ∀ between d rest, later = between ++ d :: rest →
      d.Spares p (t.run p (before ++ c :: between))

theorem claims_run {options : JwtOptions} {calls : List Call} :
    (run p { options } calls).claims = some claims ↔ SettledLast p { options } calls claims := by
  have hstep (t : Jwt) (c : Call) : (c.result p t).2.claims = some claims ↔
      c.Settles p t claims ∨ t.claims = some claims ∧ c.Spares p t := c.claims_result
  have hs : ¬ ({ options } : Jwt).claims = some claims := by simp
  exact Run.holds_iff (P := fun t : Jwt => t.claims = some claims) hstep hs

end Jwt

/-! ### The token that is held -/

/-- What a token releases at present. -/
def Carrier.released : Carrier → Option ByteArray
  | .signed token => token.payload?
  | .encrypted token => token.plaintext

namespace Jwt

variable {p : Primitives} {supply : Recipient → Jwk → Entropy} {keys : KeySource} {token : Carrier}
  {payload : ByteArray} {t : Jwt} {now : Int}

/-- What a token releases after it was to be authenticated, it releases by that. -/
theorem releases_of_released
    (h : (authenticate p supply token keys).2.released = some payload) :
    token.Releases p supply keys payload := by
  cases token with
  | signed token =>
      simp only [authenticate] at h
      split at h
      · next error after hverify =>
          have hnone : after.payload? = none := by cases Jws.fails_of_verify hverify <;> rfl
          simp [Carrier.released, hnone] at h
      · next after hverify => exact .signed hverify h
  | encrypted token =>
      simp only [authenticate] at h
      split at h
      · next error after hdecrypt =>
          simp [Carrier.released, Jwe.decrypt_plaintext_of_error hdecrypt] at h
      · next after hdecrypt => exact .encrypted hdecrypt h

theorem token_validate (p : Primitives) (supply : Recipient → Jwk → Entropy) (now : Int)
    (held : t.token = some token) (expected : t.expectedKind keys = token.kind) :
    (t.validate p supply now keys).2.token = some (authenticate p supply token keys).2 := by
  rw [validate_eq now held expected]
  split <;> rfl

/-! ### Failed validations -/

/-- Let any options be set, any tokens be read and validated, and a validation fail with an
error that is not about claims. Then header and claims are as before: the claims that can
be had are those of the last validation since the last token was read that came as far as
claims, and none if none did. The token that is held, if it was of the expected kind and
is not authentic under these keys, releases nothing all the same. -/
theorem failed_validation_keeps_claims {options : JwtOptions} {calls : List Call} {error : Error}
    {after : Jwt} (hforeign : error.isClaimsError = false)
    (h : (run p { options } calls).validate p supply now keys = (.error error, after)) :
    after.claims = (run p { options } calls).claims ∧
      after.header = (run p { options } calls).header ∧
      (∀ claims, after.claims = some claims ↔ SettledLast p { options } calls claims) ∧
      ∀ token, (run p { options } calls).token = some token →
        (run p { options } calls).expectedKind keys = token.kind →
        (∀ payload, ¬ token.Releases p supply keys payload) →
          ∃ held, after.token = some held ∧ held.released = none := by
  let v : Validation := ⟨run p { options } calls, supply, now, keys⟩
  have hresult : v.result p = (.error error, after) := h
  have hkept := Validation.Fails.kept (v := v) ⟨error, by rw [hresult], hforeign⟩
  rw [hresult] at hkept
  refine ⟨hkept.1, hkept.2, fun claims => ?_, fun token held expected hwithheld => ?_⟩
  · rw [hkept.1]
    exact claims_run
  · have htoken := token_validate p supply now held expected
    rw [h] at htoken
    refine ⟨_, htoken, ?_⟩
    cases hreleased : (authenticate p supply token keys).2.released with
    | none => rfl
    | some payload => exact absurd (releases_of_released hreleased) (hwithheld payload)

/-! ### Claims that outlive a failure -/

/-- A token without a key is read, and found to be authentic. -/
def unsecuredReading : List Call :=
  [.deserialize noEntropy 0 Jws.unsecuredText none,
    .validate noEntropy 0 (.single Jws.emptySecret)]

def unsecuredOptions : JwtOptions := { allowed := some [SigningAlgorithm.unsecured.name] }

/-- A key that the token is refused under. -/
def filledSecret : Jwk := { material := .oct ⟨#[0]⟩ }

/-- The validation that follows, under the other key. -/
def refusedValidation : Except Error Unit × Jwt :=
  (run .standard { options := unsecuredOptions } unsecuredReading).validate .standard noEntropy 0
    (.single filledSecret)

theorem refusedValidation_fails :
    refusedValidation = (.error (.invalidKey .secretNotEmpty), refusedValidation.2) := by
  have hfails : refusedValidation.1 = .error (.invalidKey .secretNotEmpty) := by decide +kernel
  rw [← hfails]

theorem claims_kept_filledSecret :
    refusedValidation.1 = .error (.invalidKey .secretNotEmpty) ∧
      (refusedValidation.2.claims = some (.object .empty) ↔
        SettledLast .standard { options := unsecuredOptions } unsecuredReading (.object .empty)) := by
  obtain ⟨-, -, hclaims, -⟩ := failed_validation_keeps_claims rfl refusedValidation_fails
  exact ⟨congrArg Prod.fst refusedValidation_fails, hclaims _⟩

/-- A validation that fails does not always take the claims of an earlier success, not even
of a token that was read and then only validated. -/
theorem claims_after_failed_validation :
    ¬ ∀ (options : JwtOptions) (raw : String) (calls : List Call) (keys : KeySource)
      (error : Error) (after : Jwt),
      (({ options } : Jwt).deserialize .standard noEntropy 0 raw none).1 = .ok () →
      (∀ c ∈ calls, ∃ supply now keys, c = .validate supply now keys) →
      (run .standard { options } (.deserialize noEntropy 0 raw none :: calls)).validate .standard
        noEntropy 0 keys = (.error error, after) →
      error.isClaimsError = false → after.claims = none := by
  intro h
  have hclaims : refusedValidation.2.claims = some (.object .empty) := by decide +kernel
  have hread : (({ options := unsecuredOptions } : Jwt).deserialize .standard noEntropy 0
      Jws.unsecuredText none).1 = .ok () := by decide +kernel
  have hnone := h unsecuredOptions Jws.unsecuredText
    [.validate noEntropy 0 (.single Jws.emptySecret)] _ _ _ hread
    (fun c hc => ⟨_, _, _, List.mem_singleton.1 hc⟩) refusedValidation_fails rfl
  simp [hnone] at hclaims

end Jwt

end SealedToken
