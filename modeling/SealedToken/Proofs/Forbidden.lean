import SealedToken.Proofs.Jwe.Failure
import SealedToken.Proofs.Jwe.Release
import SealedToken.Proofs.Jws.Withdrawal

/-!
Tokens of which no part names algorithms that are permitted. The header of a part is
checked before any key is looked for, so nothing that is told of such a token depends on
the keys: every part fails by its header, and no attempt is made.
-/

namespace SealedToken

/-! ### Signatures -/

namespace Jws

variable {options : JwsOptions} {expected : Option String} {s : SealedToken.Signature} {t : Jws}

/-- A signature names an algorithm that the options permit, and that is the caller's
where the caller gives one. -/
def Permits (options : JwsOptions) (expected : Option String) (s : SealedToken.Signature) :
    Prop :=
  ∃ header name, mergedHeader options s = .ok header ∧ header.find? "alg" = some (.str name) ∧
    Algorithm.Permitted options.allowed name ∧ ∀ given, expected = some given → given = name

/-- Without a permitted algorithm the header of a signature fails in the same way for
all keys. -/
theorem prepare_of_forbidden (h : ¬ Permits options expected s) :
    ∃ error, ∀ payload keys, prepare options payload keys expected s = .error error := by
  -- the checks in their order; behind the last of them the algorithm would be permitted
  cases hmerged : mergedHeader options s with
  | error error => exact ⟨error, fun payload keys => by simp [prepare, hmerged]⟩
  | ok header =>
      cases hname : Header.text? header "alg" with
      | error error => exact ⟨error, fun payload keys => by simp [prepare, hmerged, hname]⟩
      | ok found =>
          cases found with
          | none =>
              exact ⟨.missingAlgorithm, fun payload keys => by simp [prepare, hmerged, hname]⟩
          | some name =>
              cases hexpected : checkExpected expected name with
              | error error =>
                  exact ⟨error, fun payload keys => by simp [prepare, hmerged, hname, hexpected]⟩
              | ok _ =>
                  cases hallowed : Algorithm.checkAllowed options.allowed name with
                  | error error =>
                      exact ⟨error, fun payload keys => by
                        simp [prepare, hmerged, hname, hexpected, hallowed]⟩
                  | ok _ =>
                      exact absurd ⟨header, name, hmerged, Header.text?_eq_ok_some.1 hname,
                        Algorithm.checkAllowed_eq_ok.1 hallowed,
                        checkExpected_eq_ok.1 hexpected⟩ h

theorem verifyOne_of_forbidden (h : ¬ Permits options expected s) :
    ∃ error, ∀ p payload keys,
      verifyOne p options payload keys expected s = (.error error, []) := by
  obtain ⟨error, herror⟩ := prepare_of_forbidden h
  exact ⟨error, fun p payload keys => by rw [verifyOne, herror]⟩

/-- All signatures in a row: one error for each, and no attempt. -/
theorem map_verifyOne_of_forbidden {signatures : List SealedToken.Signature}
    (h : ∀ s ∈ signatures, ¬ Permits options expected s) :
    ∃ errors : List Error, ∀ p payload keys,
      signatures.map (verifyOne p options payload keys expected) =
        errors.map fun error => (.error error, []) := by
  induction signatures with
  | nil => exact ⟨[], fun p payload keys => rfl⟩
  | cons s rest ih =>
      obtain ⟨error, herror⟩ := verifyOne_of_forbidden (h s (by simp))
      obtain ⟨errors, herrors⟩ := ih fun s hs => h s (by simp [hs])
      exact ⟨error :: errors, fun p payload keys => by simp [herror, herrors]⟩

/-- A signature that is accepted names a permitted algorithm. -/
theorem permits_of_accepts {p : Primitives} {payload : ByteArray} {keys : KeySource}
    (h : Accepts p options payload keys expected s) : Permits options expected s := by
  obtain ⟨checked, -⟩ := h
  exact ⟨checked.header, checked.name, checked.merged, checked.named, checked.permitted,
    checked.asExpected⟩

/-- Without a permitted algorithm all signatures are marked invalid, and the error is the
same for all keys. -/
theorem verifyAll_of_forbidden (h : ∀ s ∈ t.signatures, ¬ Permits t.options expected s) :
    ∃ error, ∀ p payload keys, t.verifyAll p payload keys expected =
      (.error error, { t with
        signatures := t.signatures.map fun s => { s with state := .invalid }
        log := [] }) := by
  obtain ⟨errors, herrors⟩ := map_verifyOne_of_forbidden h
  refine ⟨(Error.mostRelevantOf errors).getD .invalidSignature, fun p payload keys => ?_⟩
  have hfound : (errors.map fun error => ((.error error : Except Error Unit),
      ([] : List FailedAttempt))).filterMap (fun outcome => errorOf? outcome.1) = errors := by
    simp [errorOf?]
  have houtcome : t.verifyAll p payload keys expected =
      (.error ((Error.mostRelevantOf errors).getD .invalidSignature),
        { t with signatures := (t.verifyAll p payload keys expected).2.signatures, log := [] }) := by
    simp [verifyAll, herrors, hfound]
  have hrefuses : ∀ s ∈ t.signatures, ¬ Accepts p t.options payload keys expected s :=
    fun s hs haccepts => h s hs (permits_of_accepts haccepts)
  obtain ⟨log, hafter⟩ := verifyAll_refused hrefuses
  rw [houtcome, hafter]

end Jws

/-! ### Recipients -/

namespace Jwe

variable {t : Jwe} {r : Recipient}

/-- A recipient names two algorithms that the options permit. -/
def Permits (t : Jwe) (r : Recipient) : Prop :=
  ∃ header, t.merged r.header = .ok header ∧ (∃ name, Names t.options header "alg" name) ∧
    ∃ name, Names t.options header "enc" name

/-- Without two permitted algorithms the header of a recipient fails in the same way for
all keys. -/
theorem prepare_of_forbidden (h : ¬ Permits t r) :
    ∃ error, ∀ keys, t.prepare keys r = .error error := by
  cases hmerged : t.merged r.header with
  | error error => exact ⟨error, fun keys => by simp [prepare, hmerged]⟩
  | ok header =>
      cases halgorithms : algorithms t.options header with
      | error error => exact ⟨error, fun keys => by simp [prepare, hmerged, halgorithms]⟩
      | ok found =>
          obtain ⟨⟨alg, halg, -⟩, enc, henc, -⟩ := algorithms_eq_ok.1 halgorithms
          exact absurd ⟨header, hmerged, ⟨alg, halg⟩, enc, henc⟩ h

/-- The walk over recipients that all fail by their headers adds nothing to the log. -/
theorem openFirst_of_forbidden {rs : List Recipient} (h : ∀ r ∈ rs, ¬ Permits t r)
    (failure : Option Error) (log : List FailedAttempt) :
    ∃ error, ∀ p supply content keys,
      t.openFirst p supply content keys failure log rs = (.error error, log) := by
  induction rs generalizing failure with
  | nil => exact ⟨_, fun p supply content keys => rfl⟩
  | cons r rest ih =>
      obtain ⟨error, hprepare⟩ := prepare_of_forbidden (h r (by simp))
      obtain ⟨last, hlast⟩ :=
        ih (fun r hr => h r (by simp [hr])) (Error.mostRelevant failure error)
      have hlimit (limit : Nat) : error ≠ .compressionLimitExceeded limit := by
        rintro rfl
        simpa [Error.isLate] using early_prepare _ (hprepare (.anyOf {}))
      refine ⟨last, fun p supply content keys => ?_⟩
      rw [openFirst, openFor, hprepare]
      split
      · next heq => simp at heq
      · next limit more heq => simp [hlimit] at heq
      · next heq =>
          obtain ⟨rfl, rfl⟩ : error = _ ∧ [] = _ := by simpa using heq
          rw [List.append_nil, hlast]

end Jwe

/-! ### Both kinds of tokens -/

/-- No key is touched for an algorithm that is not permitted. Where no signature names a
permitted one, or no recipient two of them, every verification and every decryption fails
with one error and leaves one token, whichever keys are offered, and without an attempt
in the log. -/
theorem forbidden_untouched_by_keys :
    (∀ (t : Jws) (alg : Option String) (detached : Option ByteArray),
      (∀ s ∈ t.signatures, ¬ Jws.Permits t.options alg s) →
        ∃ error after, after.log = [] ∧ ∀ p keys,
          t.verify p keys alg detached = (.error error, after)) ∧
    ∀ t : Jwe, (∀ r ∈ t.recipients, ¬ Jwe.Permits t r) →
      ∃ error after, after.log = [] ∧ ∀ p supply keys,
        t.decrypt p supply keys = (.error error, after) := by
  constructor
  · intro t alg detached h
    cases hpayload : (detached <|> t.held) with
    | none => exact ⟨_, _, rfl, fun p keys => by rw [Jws.verify, hpayload]⟩
    | some payload =>
        by_cases hs : t.signatures = []
        · refine ⟨.invalidFormat .noSignatures,
            { t with held := some payload, trusted := false, log := [] }, rfl, fun p keys => ?_⟩
          simp [Jws.verify, hpayload, hs]
        · obtain ⟨error, herror⟩ := Jws.verifyAll_of_forbidden
            (t := { t with held := some payload, trusted := false, log := [] }) h
          exact ⟨error, _, rfl, fun p keys => by
            rw [Jws.verify_eq_verifyAll p keys alg hpayload hs, herror]⟩
  · intro t h
    cases hcontent : t.content with
    | none =>
        exact ⟨_, { t with plaintext := none, log := [] }, rfl, fun p supply keys => by
          simp [Jwe.decrypt, hcontent]; rfl⟩
    | some content =>
        obtain ⟨error, herror⟩ := Jwe.openFirst_of_forbidden h none []
        exact ⟨error, _, rfl, fun p supply keys =>
          Jwe.decrypt_of_openFirst_error hcontent (herror p supply content keys)⟩

/-- The token under a shared key, with only the algorithm of its content permitted. -/
def Jwe.halfPermitted : Jwe :=
  { Jwe.direct with options := { allowed := some [(ContentEncryptionAlgorithm.gcm .aes128).name] } }

theorem forbidden_untouched_unsecured :
    (∃ error after, after.log = [] ∧ ∀ p keys,
      Jws.unsecured.verify p keys none none = (.error error, after)) ∧
    ∃ error after, after.log = [] ∧ ∀ p supply keys,
      Jwe.halfPermitted.decrypt p supply keys = (.error error, after) := by
  constructor
  · refine forbidden_untouched_by_keys.1 Jws.unsecured none none fun s hs => ?_
    obtain rfl := List.mem_singleton.1 hs
    rintro ⟨header, name, hmerged, hname, hpermitted, -⟩
    obtain rfl : header = .ofMembers [("alg", .str SigningAlgorithm.unsecured.name)] :=
      Option.some.inj ((toOption_eq_some.2 hmerged).symm.trans (by decide +kernel))
    obtain rfl : name = SigningAlgorithm.unsecured.name :=
      Json.str.inj (Option.some.inj (hname.symm.trans (by decide +kernel)))
    exact Algorithm.not_permitted_unsecured hpermitted
  · refine forbidden_untouched_by_keys.2 Jwe.halfPermitted fun r hr => ?_
    obtain rfl := List.mem_singleton.1 hr
    rintro ⟨header, hmerged, ⟨name, hname, hpermitted⟩, -⟩
    obtain rfl : header = .ofMembers [("alg", .str KeyManagementAlgorithm.direct.name),
        ("enc", .str (ContentEncryptionAlgorithm.gcm .aes128).name)] :=
      Option.some.inj ((toOption_eq_some.2 hmerged).symm.trans (by decide +kernel))
    obtain rfl : name = KeyManagementAlgorithm.direct.name :=
      Json.str.inj (Option.some.inj (hname.symm.trans (by decide +kernel)))
    exact absurd hpermitted (by decide +kernel)

end SealedToken
