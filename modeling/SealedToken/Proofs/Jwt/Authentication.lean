import SealedToken.Jwt.Basic
import SealedToken.Proofs.Jwe.Failure
import SealedToken.Proofs.Jwe.Release
import SealedToken.Proofs.Jws.Acceptance

/-!
What authenticating the token of claims does: it keeps the kind of the token, it
never fails with an error about claims, and the payload it gives was released by a
verification or a decryption that succeeded.
-/

namespace SealedToken

variable {p : Primitives} {supply : Recipient → Jwk → Entropy} {keys : KeySource}

/-! ### Signatures -/

namespace SigningAlgorithm

variable {a : SigningAlgorithm} {key : Jwk}

@[simp] theorem early_verified {holds : Bool} : Early (verified holds) := by
  simp [verified, Error.isLate]

@[simp] theorem early_checkCurve {required found : EllipticCurve} :
    Early (a.checkCurve required found) := by
  simp [checkCurve, Error.isLate]

@[simp] theorem early_checkEmptySecret : Early (checkEmptySecret key) := by
  unfold checkEmptySecret
  split <;> simp [Error.isLate]

theorem early_verify {message signature : ByteArray} :
    Early (a.verify p key message signature) := by
  cases a with
  | eddsa =>
      simp only [verify, Avoids.bind_iff, Jwk.early_okpPublic, true_and]
      rintro ⟨curve, x⟩ -
      cases curve <;> simp [Error.isLate]
  | _ => simp [verify, verifyRsa]

end SigningAlgorithm

namespace Jws

variable {t : Jws} {options : JwsOptions} {payload : ByteArray} {expected : Option String}
  {s : SealedToken.Signature}

@[simp] theorem preliminary_payloadEncoded {protectedHeader : Option Object} {merged : Object} :
    Preliminary (payloadEncoded protectedHeader merged) := by
  unfold payloadEncoded
  split <;> simp [Error.isFurther]

theorem preliminary_prepare : Preliminary (prepare options payload keys expected s) := by
  simp only [prepare, mergedHeader, Avoids.bind_iff, HeaderRegistry.preliminary_merge,
    Header.preliminary_text?, true_and]
  intro merged _ name? _
  cases name? <;> simp [checkExpected, Error.isFurther]

theorem early_prepare : Early (prepare options payload keys expected s) :=
  preliminary_prepare.early

theorem early_verifyOne :
    Early (verifyOne p options payload keys expected s).1 := by
  unfold verifyOne
  split
  · next error herror => exact Avoids.error_iff.2 (early_prepare error herror)
  · next pending _ =>
      dsimp only
      split
      · exact Avoids.ok ()
      · exact Avoids.error_iff.2
          (Avoids.failures (fun key => SigningAlgorithm.early_verify) rfl)

theorem early_verify {alg : Option String} {detached : Option ByteArray} :
    Early (t.verify p keys alg detached).1 := by
  unfold verify
  dsimp only
  split
  · simp [Error.isLate]
  · next payload _ =>
      split
      · simp [Error.isLate]
      · unfold verifyAll
        dsimp only
        split
        · exact Avoids.ok ()
        · refine Avoids.error_iff.2 (Avoids.mostRelevantOf (fun error herror => ?_) rfl)
          -- the error of some signature
          obtain ⟨outcome, houtcome, herror⟩ := List.mem_filterMap.1 herror
          obtain ⟨s, -, rfl⟩ := List.mem_map.1 houtcome
          cases hone : (verifyOne p t.options payload keys alg s).1 with
          | ok _ => simp [hone, errorOf?] at herror
          | error e =>
              obtain rfl : e = error := by simpa [hone, errorOf?] using herror
              exact early_verifyOne e hone

@[simp] theorem early_headerAt {index : Nat} : Early (t.headerAt index) := by
  unfold headerAt
  split <;> simp [mergedHeader, Error.isLate]

end Jws

/-! ### Tokens of either kind -/

/-- The token without all that an authentication tells. -/
def Carrier.unauthenticated : Carrier → Carrier
  | .signed token => .signed token.unverified
  | .encrypted token => .encrypted token.undecrypted

/-- A verification or a decryption of the token succeeds and releases a payload. -/
inductive Carrier.Releases (p : Primitives) (supply : Recipient → Jwk → Entropy)
    (keys : KeySource) : Carrier → ByteArray → Prop
  | signed {token after : Jws} {payload : ByteArray}
      (verified : token.verify p keys none none = (.ok (), after))
      (released : after.payload? = some payload) : Releases p supply keys (.signed token) payload
  | encrypted {token after : Jwe} {payload : ByteArray}
      (decrypted : token.decrypt p supply keys = (.ok (), after))
      (released : after.plaintext = some payload) :
      Releases p supply keys (.encrypted token) payload

namespace Jwt

variable {token : Carrier}

/-- Authenticating only adds to the token what it tells. -/
theorem authenticate_unauthenticated (p : Primitives) (supply : Recipient → Jwk → Entropy)
    (keys : KeySource) (token : Carrier) :
    (authenticate p supply token keys).2.unauthenticated = token.unauthenticated := by
  cases token with
  | signed token =>
      simp only [authenticate]
      split
      · next hverify => exact congrArg Carrier.signed (Jws.verify_unverified hverify)
      · next hverify => exact congrArg Carrier.signed (Jws.verify_unverified hverify)
  | encrypted token =>
      simp only [authenticate]
      split
      · next hdecrypt => exact congrArg Carrier.encrypted (Jwe.decrypt_undecrypted hdecrypt)
      · next hdecrypt => exact congrArg Carrier.encrypted (Jwe.decrypt_undecrypted hdecrypt)

theorem releases_of_authenticate {header : Object} {payload : ByteArray} {after : Carrier}
    (h : authenticate p supply token keys = (.ok (header, some payload), after)) :
    token.Releases p supply keys payload := by
  cases token with
  | signed token =>
      simp only [authenticate] at h
      split at h
      · simp at h
      · next after' hverify =>
          obtain ⟨houtcome, -⟩ := Prod.mk.inj h
          obtain ⟨_, -, hpayload⟩ := map_eq_ok.1 houtcome
          exact .signed hverify (Prod.mk.inj hpayload).2
  | encrypted token =>
      simp only [authenticate] at h
      split at h
      · simp at h
      · next after' hdecrypt =>
          obtain ⟨houtcome, -⟩ := Prod.mk.inj h
          obtain ⟨_, -, hpayload⟩ := map_eq_ok.1 houtcome
          exact .encrypted hdecrypt (Prod.mk.inj hpayload).2

theorem noClaimsError_authenticate (p : Primitives) (supply : Recipient → Jwk → Entropy)
    (keys : KeySource) (token : Carrier) :
    NoClaimsError (authenticate p supply token keys).1 := by
  cases token with
  | signed token =>
      simp only [authenticate]
      split
      · next error _ hverify =>
          exact Avoids.error_iff.2 (Jws.early_verify.noClaimsError error (by rw [hverify]))
      · exact Avoids.map_iff.2 Jws.early_headerAt.noClaimsError
  | encrypted token =>
      simp only [authenticate]
      split
      · next error _ hdecrypt =>
          exact Avoids.error_iff.2 (Jwe.noClaimsError_decrypt error (by rw [hdecrypt]))
      · exact Avoids.map_iff.2 Jwe.early_headerAt.noClaimsError

theorem noClaimsError_claimsOf {payload : Option ByteArray} :
    NoClaimsError (claimsOf payload) := by
  unfold claimsOf
  split
  · unfold Claims.ofPayload
    split
    · simp
    · split <;> simp [Error.isClaimsError]
  · simp [Error.isClaimsError]

end Jwt

end SealedToken
