import SealedToken.Algorithm.Basic
import SealedToken.Json.Record
import SealedToken.Key.Set
import SealedToken.Proofs.Header

/-!
Operations that only fail with early errors. A content that is too large is found once
it has been decrypted, and an error about claims once the token is authentic; all that
is done before is made of operations that fail with neither, so such an error tells that
everything before was passed. What is done before any key is tried fails with even fewer
errors: those about headers, and that there is no key.
-/

namespace SealedToken

variable {α β : Type}

/-- Errors about what stands behind an encryption or an authentication. -/
def Error.isLate : Error → Bool
  | .expired | .notYetValid | .missingClaim _ | .invalidClaimValue _ => true
  | .compressionLimitExceeded _ => true
  | _ => false

/-- Errors that no check of a header and no look for keys gives. -/
def Error.isFurther : Error → Bool
  | .unknownAlgorithm _ | .algorithmNotAllowed _ | .missingAlgorithm => false
  | .invalidFormat _ | .duplicateHeader _ | .misplacedHeader _ | .unsupportedCritical _ => false
  | .keyNotFound => false
  | _ => true

/-- No failure of the operation is of a kind. -/
def Avoids (kind : Error → Bool) (x : Except Error α) : Prop :=
  ∀ error, x = .error error → kind error = false

/-- The operation only fails with early errors. -/
abbrev Early (x : Except Error α) : Prop := Avoids Error.isLate x

/-- The operation only fails with errors about headers and about the lack of keys. -/
abbrev Preliminary (x : Except Error α) : Prop := Avoids Error.isFurther x

/-- No failure of the operation is an error about claims. -/
abbrev NoClaimsError (x : Except Error α) : Prop := Avoids Error.isClaimsError x

namespace Avoids

variable {kind : Error → Bool}

@[simp] theorem ok (a : α) : Avoids kind (.ok a : Except Error α) := by
  simp [Avoids]

@[simp] theorem error_iff {e : Error} :
    Avoids kind (.error e : Except Error α) ↔ kind e = false := by
  simp [Avoids]

/-- A sequence of operations avoids a kind as soon as each step does, whatever the steps
before it gave. -/
@[simp] theorem bind_iff {x : Except Error α} {f : α → Except Error β} :
    Avoids kind (x >>= f) ↔ Avoids kind x ∧ ∀ a, x = .ok a → Avoids kind (f a) := by
  cases x <;> simp

@[simp] theorem map_iff {x : Except Error α} {f : α → β} :
    Avoids kind (x.map f) ↔ Avoids kind x := by
  cases x <;> simp [Except.map]

@[simp] theorem ite_iff {c : Prop} [Decidable c] {x y : Except Error α} :
    Avoids kind (if c then x else y) ↔ (c → Avoids kind x) ∧ (¬ c → Avoids kind y) := by
  split <;> simp_all

/-- The error that tells the most is one of those that it was chosen among. -/
theorem mostRelevantOf {errors : List Error} {default : Error}
    (herrors : ∀ error ∈ errors, kind error = false) (hdefault : kind default = false) :
    kind ((Error.mostRelevantOf errors).getD default) = false := by
  cases h : Error.mostRelevantOf errors with
  | none => exact hdefault
  | some error => exact herrors error (Error.mem_of_mostRelevantOf h)

end Avoids

theorem Error.isClaimsError_of_not_isLate {e : Error} (h : e.isLate = false) :
    e.isClaimsError = false := by
  cases e <;> simp_all [isLate, isClaimsError]

theorem Early.noClaimsError {x : Except Error α} (h : Early x) : NoClaimsError x :=
  fun error herror => Error.isClaimsError_of_not_isLate (h error herror)

theorem Error.not_isLate_of_not_isFurther {e : Error} (h : e.isFurther = false) :
    e.isLate = false := by
  cases e <;> simp_all [isLate, isFurther]

theorem Preliminary.early {x : Except Error α} (h : Preliminary x) : Early x :=
  fun error herror => Error.not_isLate_of_not_isFurther (h error herror)

/-- The failures of attempts in a row are among those of the attempts. -/
theorem Avoids.failures {kind : Error → Bool} {α β : Type} {f : α → Except Error β} {as : List α}
    {default : Error} (hf : ∀ a, Avoids kind (f a)) (hdefault : kind default = false) :
    kind ((Error.mostRelevantOf ((tryEach f as).1.map (·.2))).getD default) = false := by
  refine Avoids.mostRelevantOf (fun error herror => ?_) hdefault
  obtain ⟨⟨a, e⟩, hmem, rfl⟩ := List.mem_map.1 herror
  exact hf a e (tryEach_failure hmem).2

/-! ### Names of algorithms -/

@[simp] theorem Algorithm.preliminary_lookup (name : String) :
    Preliminary (Algorithm.lookup name) := by
  unfold lookup
  split <;> simp [Error.isFurther]

@[simp] theorem Algorithm.preliminary_checkAllowed (allowed : Option (List String))
    (name : String) : Preliminary (Algorithm.checkAllowed allowed name) := by
  unfold checkAllowed
  split <;> simp [Error.isFurther]

@[simp] theorem SigningAlgorithm.preliminary_lookup (name : String) :
    Preliminary (SigningAlgorithm.lookup name) := by
  unfold lookup
  simp only [Avoids.bind_iff, Algorithm.preliminary_lookup, true_and]
  intro a _
  split <;> simp [Error.isFurther]

@[simp] theorem KeyManagementAlgorithm.preliminary_lookup (name : String) :
    Preliminary (KeyManagementAlgorithm.lookup name) := by
  unfold lookup
  simp only [Avoids.bind_iff, Algorithm.preliminary_lookup, true_and]
  intro a _
  split <;> simp [Error.isFurther]

@[simp] theorem ContentEncryptionAlgorithm.preliminary_lookup (name : String) :
    Preliminary (ContentEncryptionAlgorithm.lookup name) := by
  unfold lookup
  simp only [Avoids.bind_iff, Algorithm.preliminary_lookup, true_and]
  intro a _
  split <;> simp [Error.isFurther]

/-! ### Headers -/

namespace Header

variable {header : Object} {name : String}

@[simp] theorem preliminary_text? : Preliminary (text? header name) := by
  unfold text?
  split <;> simp [Error.isFurther]

@[simp] theorem early_bytes? : Early (bytes? header name) := by
  unfold bytes?
  split
  · simp
  · split <;> simp [Error.isLate]
  · simp [Error.isLate]

@[simp] theorem early_bytes : Early (bytes header name) := by
  unfold bytes
  simp only [Avoids.bind_iff, early_bytes?, true_and]
  intro found _
  split <;> simp [Error.isLate]

@[simp] theorem early_value : Early (value header name) := by
  unfold value
  split <;> simp [Error.isLate]

end Header

namespace HeaderRegistry

variable {registry : HeaderRegistry}

@[simp] theorem preliminary_addMembers {merged : Object} {members : List (String × Json)} :
    Preliminary (registry.addMembers merged members) := by
  induction members generalizing merged with
  | nil => simp [addMembers]
  | cons m rest ih => simp [addMembers, ih, Error.isFurther]

@[simp] theorem preliminary_addHeaders {merged : Object} {headers : List Object} :
    Preliminary (registry.addHeaders merged headers) := by
  induction headers generalizing merged with
  | nil => simp [addHeaders]
  | cons header rest ih => simp [addHeaders, ih]

@[simp] theorem preliminary_checkNames {merged : Object} {names : List Json} :
    Preliminary (registry.checkNames merged names) := by
  induction names with
  | nil => simp [checkNames]
  | cons name rest ih => cases name <;> simp [checkNames, ih, Error.isFurther]

@[simp] theorem preliminary_checkCritical {merged : Object} :
    Preliminary (registry.checkCritical merged) := by
  unfold checkCritical
  split <;> simp [Error.isFurther]

@[simp] theorem preliminary_merge {protectedHeader : Option Object}
    {others : List (Option Object)} :
    Preliminary (registry.merge protectedHeader others) := by
  simp [merge]

@[simp] theorem early_merge {protectedHeader : Option Object} {others : List (Option Object)} :
    Early (registry.merge protectedHeader others) :=
  preliminary_merge.early

end HeaderRegistry

/-! ### Keys -/

@[simp] theorem KeySource.preliminary_candidates {source : KeySource} {kid : Option String} :
    Preliminary (source.candidates kid) := by
  unfold candidates
  split <;> simp [Error.isFurther]

namespace Jwk

variable {key : Jwk} {op : KeyOperation}

@[simp] theorem early_checkOperation : Early (key.checkOperation op) := by
  unfold checkOperation
  split <;> simp [Error.isLate]

@[simp] theorem early_wrongType {expected : KeyType} :
    Early (key.wrongType expected : Except Error α) := by
  simp [wrongType, Error.isLate]

@[simp] theorem early_octets : Early (key.octets op) := by
  unfold octets
  cases key.material <;> simp

@[simp] theorem early_rsaPublic : Early (key.rsaPublic op) := by
  unfold rsaPublic
  cases key.material <;> simp

@[simp] theorem early_rsaPrivate : Early (key.rsaPrivate op) := by
  unfold rsaPrivate
  split <;> simp [Error.isLate]

@[simp] theorem early_ecPublic : Early (key.ecPublic op) := by
  unfold ecPublic
  cases key.material <;> simp

@[simp] theorem early_ecPrivate : Early (key.ecPrivate op) := by
  unfold ecPrivate
  split <;> simp [Error.isLate]

@[simp] theorem early_okpPublic : Early (key.okpPublic op) := by
  unfold okpPublic
  cases key.material <;> simp

@[simp] theorem early_okpPrivate : Early (key.okpPrivate op) := by
  unfold okpPrivate
  split <;> simp [Error.isLate]

end Jwk

/-! ### Keys out of a header -/

namespace Json.Record

variable {r : Record} {names : List String} {read? : Json → Option α} {name : String}

@[simp] theorem early_ofItems {least : Nat} {items : List Json} :
    Early (ofItems names least items) := by
  simp [ofItems, shapeFault, Error.isLate]

@[simp] theorem early_ofJson {least : Nat} {value : Json} :
    Early (ofJson names least value) := by
  unfold ofJson
  split <;> simp [shapeFault, Error.isLate]

@[simp] theorem early_optional : Early (r.optional read? name) := by
  unfold optional
  split
  · simp
  · simp
  · split <;> simp [shapeFault, Error.isLate]

@[simp] theorem early_required : Early (r.required read? name) := by
  unfold required
  split <;> simp [shapeFault, Error.isLate]

end Json.Record

theorem Jwk.early_ofRecord {r : Json.Record} : Early (Jwk.ofRecord r) := by
  have hwritten : Early (Written.ofRecord r) := by simp [Written.ofRecord]
  unfold ofRecord
  simp only [Avoids.bind_iff, hwritten, true_and]
  intro w _
  split <;> simp [Error.isLate]

@[simp] theorem Jwk.early_ofJson {value : Json} : Early (Jwk.ofJson value) := by
  simp [ofJson, early_ofRecord]

end SealedToken
