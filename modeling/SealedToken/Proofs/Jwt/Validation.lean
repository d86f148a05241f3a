import SealedToken.Proofs.Jwt.Authentication
import SealedToken.Proofs.Jwt.Checks

/-!
One validation. Either it is refused before the claims are looked at, which leaves
the claims that were there, or the token is authentic and the outcome is that of the
checks of its claims.
-/

namespace SealedToken.Jwt

variable {p : Primitives} {supply : Recipient → Jwk → Entropy} {now : Int} {t : Jwt}
  {keys : KeySource}

/-- The token that is held, without all that an authentication tells. -/
def current (t : Jwt) : Option Carrier := t.token.map Carrier.unauthenticated

/-- The token once it has been authenticated. -/
def authenticated (t : Jwt) (carrier : Carrier) (header : Object) (claims : Claims) : Jwt :=
  { t with token := some carrier, header := some header, claims := some claims }

/-- How a validation ends: its outcome, and the token after it. -/
inductive Validates (p : Primitives) (supply : Recipient → Jwk → Entropy) (now : Int) (t : Jwt)
    (keys : KeySource) : Except Error Unit → Jwt → Prop
  /-- It is refused before the claims are looked at. -/
  | refused {error : Error} {after : Jwt} (spared : error.isClaimsError = false)
      (kept : after.claims = t.claims) (same : after.current = t.current)
      (unread : after.header = t.header) (configured : after.options = t.options) :
      Validates p supply now t keys (.error error) after
  /-- The token is of the expected kind and authentic, and its claims are checked. -/
  | checked {token after : Carrier} {header : Object} {payload : ByteArray} {claims : Claims}
      {outcome : Except Error Unit} (held : t.token = some token)
      (expected : t.expectedKind keys = token.kind)
      (authentic : authenticate p supply token keys = (.ok (header, some payload), after))
      (read : Claims.ofPayload payload = .ok claims)
      (checks : (t.authenticated after header claims).checkClaims now = outcome) :
      Validates p supply now t keys outcome (t.authenticated after header claims)

/-- A validation leaves the token that is held. -/
theorem current_eq {token after : Carrier} {outcome : Except Error (Object × Option ByteArray)}
    (held : t.token = some token)
    (h : authenticate p supply token keys = (outcome, after)) :
    some after.unauthenticated = t.current := by
  have hkept := authenticate_unauthenticated p supply keys token
  rw [h] at hkept
  rw [current, held, Option.map_some, hkept]

theorem validates (p : Primitives) (supply : Recipient → Jwk → Entropy) (now : Int) (t : Jwt)
    (keys : KeySource) :
    Validates p supply now t keys (t.validate p supply now keys).1
      (t.validate p supply now keys).2 := by
  unfold validate
  split
  · exact .refused rfl rfl rfl rfl rfl
  · next token held =>
      dsimp only
      split
      · exact .refused rfl rfl rfl rfl rfl
      · next expected =>
          cases hauthenticate : authenticate p supply token keys with
          | mk outcome after =>
              dsimp only
              -- whatever fails from here on to the claims is no error about them
              have hspared := noClaimsError_authenticate p supply keys token
              rw [hauthenticate] at hspared
              cases outcome with
              | error error =>
                  exact .refused (hspared error rfl) rfl (current_eq held hauthenticate) rfl rfl
              | ok found =>
                  obtain ⟨header, payload⟩ := found
                  cases hclaims : claimsOf payload with
                  | error error =>
                      simp only [Except.bind, hclaims, Except.map]
                      exact .refused (noClaimsError_claimsOf error hclaims) rfl
                        (current_eq held hauthenticate) rfl rfl
                  | ok claims =>
                      simp only [Except.bind, hclaims, Except.map]
                      cases payload with
                      | none => simp [claimsOf] at hclaims
                      | some payload =>
                          exact .checked held (Decidable.not_not.1 expected) hauthenticate hclaims
                            rfl

/-! ### The checks -/

/-- Claims are accepted at a time. An object holds then and meets every entry of the
table of expected claims; a text can meet no entry. -/
def Accepted (options : JwtOptions) (claims : Claims) (now : Int) : Prop :=
  match claims with
  | .object members =>
      Claims.ValidAt members now options.leeway ∧
        ∀ table, options.checks = some table → ∀ entry ∈ table.members,
          Claims.Satisfies members now options.leeway entry.1 entry.2
  | .text _ => ∀ table, options.checks = some table → table.members = []

theorem checkClaims_eq_ok {claims : Claims} (h : t.claims = some claims) :
    t.checkClaims now = .ok () ↔ Accepted t.options claims now := by
  unfold checkClaims Accepted
  rw [h]
  cases claims with
  | object members =>
      cases hchecks : t.options.checks with
      | none =>
          dsimp only
          rw [seq_eq_ok, Claims.checkValidity_eq_ok]
          simp
      | some table =>
          dsimp only
          rw [seq_eq_ok, Claims.checkValidity_eq_ok, Claims.checkExpected_eq_ok]
          simp
  | text text =>
      cases hchecks : t.options.checks with
      | none => simp
      | some table =>
          obtain ⟨_ | ⟨entry, rest⟩, hordered⟩ := table
          · simp
          · simp

end SealedToken.Jwt
