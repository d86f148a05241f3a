import SealedToken.Proofs.Jws.Release
import SealedToken.Proofs.Jwt.Validation

/-!
When claims can be had from a token that reads others. Tokens may be read one after
the other and validated any number of times: the claims that can be had were always
released by a successful verification or decryption of the token that is held.
-/

namespace SealedToken.Jwt

variable {p : Primitives} {t : Jwt} {claims : Claims}

/-! ### Validations -/

/-- A validation: the token that it starts from, and what it is given. -/
structure Validation where
  start : Jwt
  supply : Recipient → Jwk → Entropy
  now : Int
  keys : KeySource

namespace Validation

variable {v : Validation}

/-- The outcome of a validation and the token after it. -/
def result (p : Primitives) (v : Validation) : Except Error Unit × Jwt :=
  v.start.validate p v.supply v.now v.keys

/-- The token that the validation finds is authenticated with its keys, which
releases a payload. -/
def Authenticates (p : Primitives) (v : Validation) (payload : ByteArray) : Prop :=
  ∃ token, v.start.token = some token ∧ token.Releases p v.supply v.keys payload

/-- What a validation that succeeds has found: a token of the expected kind, and
claims that are accepted at its time. -/
structure Holds (p : Primitives) (v : Validation) : Prop where
  expected : ∃ token, v.start.token = some token ∧ v.start.expectedKind v.keys = token.kind
  accepted : ∃ claims, (v.result p).2.claims = some claims ∧ Accepted v.start.options claims v.now

theorem validates_of_result {outcome : Except Error Unit} {after : Jwt}
    (h : v.result p = (outcome, after)) :
    Validates p v.supply v.now v.start v.keys outcome after := by
  have hvalidates := validates p v.supply v.now v.start v.keys
  rwa [← result, h] at hvalidates

theorem holds {after : Jwt} (h : v.result p = (.ok (), after)) : v.Holds p := by
  cases validates_of_result h with
  | checked held expected authentic read checks =>
      have haccepted := (checkClaims_eq_ok rfl).1 checks
      exact ⟨⟨_, held, expected⟩, _, by rw [h]; rfl, haccepted⟩

/-- Only once the token has been authenticated can its claims be found wrong. -/
theorem authenticates_of_claimsError {error : Error} {after : Jwt}
    (h : v.result p = (.error error, after)) (hclaims : error.isClaimsError = true) :
    ∃ payload, v.Authenticates p payload := by
  cases validates_of_result h with
  | refused spared kept same _ _ => simp [spared] at hclaims
  | checked held expected authentic read checks =>
      exact ⟨_, _, held, releases_of_authenticate authentic⟩

/-- Claims that can be had after a validation could be had before, or are those of a
payload that it released. -/
theorem claims_of_result {outcome : Except Error Unit} {after : Jwt}
    (h : v.result p = (outcome, after)) (hclaims : after.claims = some claims) :
    v.start.claims = some claims ∨
      ∃ payload, v.Authenticates p payload ∧ Claims.ofPayload payload = .ok claims := by
  cases validates_of_result h with
  | refused spared kept same _ _ => exact .inl (kept.symm.trans hclaims)
  | checked held expected authentic read checks =>
      obtain rfl := Option.some.inj hclaims
      exact .inr ⟨_, ⟨_, held, releases_of_authenticate authentic⟩, read⟩

/-- A validation leaves the token that is held. -/
theorem current_of_result {outcome : Except Error Unit} {after : Jwt}
    (h : v.result p = (outcome, after)) : after.current = v.start.current := by
  cases validates_of_result h with
  | refused spared kept same _ _ => exact same
  | checked held expected authentic read checks => exact current_eq held authentic

end Validation

/-! ### Runs -/

/-- A call on an object that reads tokens. -/
inductive Call
  | setOptions (options : JwtOptions)
  | deserialize (supply : Recipient → Jwk → Entropy) (now : Int) (raw : String)
      (keys : Option KeySource)
  | validate (supply : Recipient → Jwk → Entropy) (now : Int) (keys : KeySource)

namespace Call

/-- The outcome of a call and the token after it. -/
def result (p : Primitives) (t : Jwt) : Call → Except Error Unit × Jwt
  | setOptions options => (.ok (), { t with options })
  | deserialize supply now raw keys => t.deserialize p supply now raw keys
  | validate supply now keys => t.validate p supply now keys

/-- The validation that a call makes: its own, or that of the token it has read. -/
def validation? (t : Jwt) : Call → Option Validation
  | setOptions _ => none
  | deserialize supply now raw keys =>
      match t.readCarrier (Text.trim raw) with
      | .error _ => none
      | .ok token =>
          keys.map fun keys => ⟨{ t with token := some token, claims := none }, supply, now, keys⟩
  | validate supply now keys => some ⟨t, supply, now, keys⟩

/-- Does the call read a token, whatever the options are? -/
def replaces : Call → Bool
  | deserialize _ _ raw _ => (({} : Jwt).readCarrier (Text.trim raw)).isOk
  | _ => false

end Call

/-- Whether a token can be read does not depend on who reads it. -/
theorem isOk_readCarrier {text : String} :
    (t.readCarrier text).isOk = (({} : Jwt).readCarrier text).isOk := by
  unfold readCarrier
  cases kindOfText text with
  | error error => simp
  | ok kind =>
      cases kind with
      | signed => cases Jws.deserialize text <;> simp
      | encrypted => cases Jwe.deserialize text <;> simp

/-- A call that makes a validation ends as that does. -/
theorem Call.result_of_validation {c : Call} {v : Validation} (h : c.validation? t = some v) :
    c.result p t = v.result p := by
  cases c with
  | setOptions options => simp [validation?] at h
  | deserialize supply now raw keys =>
      simp only [validation?] at h
      split at h
      · simp at h
      · next token hread =>
          obtain ⟨keys, rfl, rfl⟩ := Option.map_eq_some_iff.1 h
          simp [result, Jwt.deserialize, hread, Validation.result]
  | validate supply now keys =>
      obtain rfl := Option.some.inj h
      rfl

/-- The validation that reading a token makes starts from no claims. -/
theorem Call.claims_of_validation {c : Call} {v : Validation} (h : c.validation? t = some v)
    (hclaims : v.start.claims = some claims) :
    v.start = t ∧ c.replaces = false := by
  cases c with
  | setOptions options => simp [validation?] at h
  | deserialize supply now raw keys =>
      simp only [validation?] at h
      split at h
      · simp at h
      · obtain ⟨keys, -, rfl⟩ := Option.map_eq_some_iff.1 h
        simp at hclaims
  | validate supply now keys =>
      obtain rfl := Option.some.inj h
      exact ⟨rfl, rfl⟩

/-- A call that makes no validation leaves no claims, or leaves the claims with their
token. -/
theorem Call.claims_of_no_validation {c : Call} {after : Jwt} {outcome : Except Error Unit}
    (hv : c.validation? t = none) (h : c.result p t = (outcome, after))
    (hclaims : after.claims = some claims) :
    t.claims = some claims ∧ after.current = t.current ∧ c.replaces = false := by
  cases c with
  | setOptions options =>
      obtain ⟨-, rfl⟩ := Prod.mk.inj h
      exact ⟨hclaims, rfl, rfl⟩
  | deserialize supply now raw keys =>
      simp only [result, Jwt.deserialize] at h
      split at h
      · next error hread =>
          obtain ⟨-, rfl⟩ := Prod.mk.inj h
          -- what cannot be read by this object could not be read by another
          refine ⟨hclaims, rfl, ?_⟩
          rw [replaces, ← isOk_readCarrier (t := t), hread]
          rfl
      · next token hread =>
          cases keys with
          | none =>
              obtain ⟨-, rfl⟩ := Prod.mk.inj h
              simp at hclaims
          | some keys => simp [validation?, hread] at hv
  | validate supply now keys => simp [validation?] at hv

/-- One step: claims that can be had after a call are released by its validation, or
could be had before, and then no token was read. -/
theorem Call.origin_of_claims {c : Call} {after : Jwt} {outcome : Except Error Unit}
    (h : c.result p t = (outcome, after)) (hclaims : after.claims = some claims) :
    (∃ v payload, c.validation? t = some v ∧ v.start.current = after.current ∧
      v.Authenticates p payload ∧ Claims.ofPayload payload = .ok claims) ∨
    t.claims = some claims ∧ t.current = after.current ∧ c.replaces = false := by
  cases hv : c.validation? t with
  | none =>
      obtain ⟨hbefore, hcurrent, hreplaces⟩ := claims_of_no_validation hv h hclaims
      exact .inr ⟨hbefore, hcurrent.symm, hreplaces⟩
  | some v =>
      rw [result_of_validation hv] at h
      have hcurrent := Validation.current_of_result h
      rcases Validation.claims_of_result h hclaims with hstart | ⟨payload, hauth, hread⟩
      · obtain ⟨rfl, hreplaces⟩ := claims_of_validation hv hstart
        exact .inr ⟨hstart, hcurrent.symm, hreplaces⟩
      · exact .inl ⟨v, payload, rfl, hcurrent.symm, hauth, hread⟩

/-- The object after a sequence of calls. -/
def run (p : Primitives) (t : Jwt) (calls : List Call) : Jwt :=
  calls.foldl (fun t c => (c.result p t).2) t

/-- Claims were released by a validation that some call made of the token that is
held at the end; no token was read after it. -/
def ReleasedBy (p : Primitives) (t : Jwt) (calls : List Call) (claims : Claims) : Prop :=
  ∃ before c after v payload, calls = before ++ c :: after ∧
    c.validation? (t.run p before) = some v ∧ v.start.current = (t.run p calls).current ∧
    (∀ d ∈ after, d.replaces = false) ∧
    v.Authenticates p payload ∧ Claims.ofPayload payload = .ok claims

/-- Let any options be set, any tokens be read and validated. If claims can be had
then, a validation of the token that is held has released them. A further call that
makes a validation succeeds only with a token of the expected kind and with claims
that are accepted at that time, and it fails with an error about claims only after it
has authenticated the token itself. -/
theorem claims_released_by_authentication (p : Primitives) (options : JwtOptions)
    (calls : List Call) :
    (∀ claims, (run p { options } calls).claims = some claims →
      ReleasedBy p { options } calls claims) ∧
    ∀ (c : Call) (v : Validation), c.validation? (run p { options } calls) = some v →
      ((c.result p (run p { options } calls)).1 = .ok () → v.Holds p) ∧
      ∀ error, (c.result p (run p { options } calls)).1 = .error error →
        error.isClaimsError = true → ∃ payload, v.Authenticates p payload := by
  constructor
  · intro claims h
    -- the token that is held at the end is fixed, and traced back with the claims
    let held := (run p { options } calls).current
    let Had (t : Jwt) : Prop := t.claims = some claims ∧ t.current = held
    let Releases (t : Jwt) (c : Call) : Prop := ∃ v payload, c.validation? t = some v ∧
      v.start.current = held ∧ v.Authenticates p payload ∧ Claims.ofPayload payload = .ok claims
    have hstep (t : Jwt) (c : Call) (hc : Had (c.result p t).2) :
        Releases t c ∨ Had t ∧ c.replaces = false := by
      obtain ⟨hclaims, hheld⟩ := hc
      rcases Call.origin_of_claims (Prod.ext rfl rfl) hclaims with
        ⟨v, payload, hv, hcurrent, hauth, hread⟩ | ⟨hbefore, hcurrent, hreplaces⟩
      · exact .inl ⟨v, payload, hv, hcurrent.trans hheld, hauth, hread⟩
      · exact .inr ⟨⟨hbefore, hcurrent.trans hheld⟩, hreplaces⟩
    have hs : ¬ Had { options } := fun hnone => by simp [Had] at hnone
    obtain ⟨before, c, after, hcalls, ⟨v, payload, hv, hcurrent, hauth, hread⟩, hafter⟩ :=
      Run.exists_origin hstep hs ⟨h, rfl⟩
    exact ⟨before, c, after, v, payload, hcalls, hv, hcurrent, hafter, hauth, hread⟩
  · intro c v hv
    rw [Call.result_of_validation hv]
    exact ⟨fun h => Validation.holds (Prod.ext h rfl),
      fun error h => Validation.authenticates_of_claimsError (Prod.ext h rfl)⟩

/-- A text that cannot be read, then a token without a key that is validated and
validated again. -/
def unsecuredCalls : List Call :=
  [.deserialize (fun _ _ => .ofSeed .empty) 0 "." none,
    .deserialize (fun _ _ => .ofSeed .empty) 0 Jws.unsecuredText (some (.single Jws.emptySecret)),
    .setOptions {},
    .validate (fun _ _ => .ofSeed .empty) 0 (.single Jws.emptySecret)]

theorem unsecured_claims_released :
    ReleasedBy .standard { options := { allowed := some [SigningAlgorithm.unsecured.name] } }
      unsecuredCalls (.object .empty) :=
  (claims_released_by_authentication .standard _ unsecuredCalls).1 _ (by decide +kernel)

end SealedToken.Jwt
