import SealedToken.Jwe.Decrypt
import SealedToken.Proofs.KeyManagement.Failure

/-!
How a decryption fails. Up to the content every step only fails with early errors: that
the content is too large is found by one whose key has opened it.
-/

namespace SealedToken.Jwe

variable {p : Primitives} {supply : Recipient → Jwk → Entropy} {t : Jwe}
  {content : EncryptedContent} {keys : KeySource} {r : Recipient}

@[simp] theorem preliminary_merged {header : Option Object} :
    Preliminary (t.merged header) :=
  HeaderRegistry.preliminary_merge

@[simp] theorem early_merged {header : Option Object} : Early (t.merged header) :=
  preliminary_merged.early

@[simp] theorem preliminary_allowedName {options : JweOptions} {header : Object}
    {parameter : String} : Preliminary (allowedName options header parameter) := by
  simp only [allowedName, Avoids.bind_iff, Header.preliminary_text?, true_and]
  intro name? _
  cases name? <;> simp [Error.isFurther]

@[simp] theorem preliminary_algorithms {options : JweOptions} {header : Object} :
    Preliminary (algorithms options header) := by
  simp [algorithms]

@[simp] theorem preliminary_compresses {protectedHeader : Option Object} :
    Preliminary (compresses protectedHeader) := by
  unfold compresses
  split
  · simp
  · simp only [Avoids.bind_iff, Header.preliminary_text?, true_and]
    intro name? _
    cases name? <;> simp [Error.isFurther]

theorem preliminary_prepare : Preliminary (t.prepare keys r) := by
  simp [prepare]

theorem early_prepare : Early (t.prepare keys r) := preliminary_prepare.early

theorem early_attempt {pending : Pending} {key : Jwk} :
    Early (t.attempt p supply content r pending key) := by
  simp [attempt]

theorem noClaimsError_expand {options : JweOptions} {compressed : Bool} {text : ByteArray} :
    NoClaimsError (expand options compressed text) := by
  simp [expand]

theorem noClaimsError_openFor : NoClaimsError (t.openFor p supply content keys r).1 := by
  unfold openFor
  split
  · next error herror => exact Avoids.error_iff.2 (early_prepare.noClaimsError error herror)
  · dsimp only
    split
    · exact Avoids.map_iff.2 noClaimsError_expand
    · exact Avoids.error_iff.2 (Avoids.failures (fun key => early_attempt.noClaimsError) rfl)

/-- The invariant of the walk through the recipients: the failure that is kept is no
error about claims. -/
theorem noClaimsError_openFirst {failure : Option Error} {log : List FailedAttempt}
    {rs : List Recipient} (hfailure : ∀ error, failure = some error → error.isClaimsError = false) :
    NoClaimsError (t.openFirst p supply content keys failure log rs).1 := by
  induction rs generalizing failure log with
  | nil => cases failure <;> simp_all [openFirst, Error.isClaimsError]
  | cons r rest ih =>
      rw [openFirst]
      split
      · exact Avoids.ok _
      · simp [Error.isClaimsError]
      · next error more _ hopen =>
          refine ih fun kept hkept => ?_
          rcases Error.mostRelevant_eq hkept with hkept | rfl
          · exact hfailure kept hkept
          · exact noClaimsError_openFor error (by rw [hopen])

theorem noClaimsError_decrypt : NoClaimsError (t.decrypt p supply keys).1 := by
  unfold decrypt
  dsimp only
  split
  · simp [Error.isClaimsError]
  · split
    · next error log hopen =>
        have herror := congrArg Prod.fst hopen
        exact Avoids.error_iff.2 (noClaimsError_openFirst (by simp) error herror)
    · exact Avoids.ok ()

@[simp] theorem early_headerAt {index : Nat} : Early (t.headerAt index) := by
  unfold headerAt
  split <;> simp [Error.isLate]

end SealedToken.Jwe
