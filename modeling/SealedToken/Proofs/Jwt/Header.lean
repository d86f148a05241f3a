import SealedToken.Proofs.Jws.Release
import SealedToken.Proofs.Jwt.Validation

/-!
Whose header a validation tells. A token is authentic through one of its entries, the
first signature that is accepted or the first recipient that opens the content. For a
signed token the header of that signature is told. For an encrypted one it is always the
header of the first recipient, which need not be the one that opened the content.
-/

namespace SealedToken

variable {p : Primitives} {supply : Recipient → Jwk → Entropy} {keys : KeySource}

/-- The merged header of an entry, a signature or a recipient. -/
def Carrier.headerAt : Carrier → Nat → Except Error Object
  | .signed token, index => token.headerAt index
  | .encrypted token, index => token.headerAt index

/-- The entry whose header is told when an entry has made the token authentic. -/
def Carrier.reported : Carrier → Nat → Nat
  | .signed _, index => index
  | .encrypted _, _ => 0

/-- A token is authentic through an entry, the first that its keys fit, and the payload is
what that entry gives. -/
inductive Carrier.AuthenticThrough (p : Primitives) (supply : Recipient → Jwk → Entropy)
    (keys : KeySource) : Carrier → Nat → ByteArray → Prop
  | signed {token : Jws} {payload : ByteArray} {before rest : List Signature} {s : Signature}
      (held : token.held = some payload) (entries : token.signatures = before ++ s :: rest)
      (accepted : Jws.Accepts p token.options payload keys none s)
      (earlier : ∀ q ∈ before, ¬ Jws.Accepts p token.options payload keys none q) :
      AuthenticThrough p supply keys (.signed token) before.length payload
  | encrypted {token : Jwe} {content : EncryptedContent} {before rest : List Recipient}
      {r : Recipient} {opened : Jwe.Opened} (held : token.content = some content)
      (entries : token.recipients = before ++ r :: rest)
      (opens : (token.openFor p supply content keys r).1 = .ok opened)
      (earlier : ∀ q ∈ before, Jwe.GoesPast p supply token content keys q) :
      AuthenticThrough p supply keys (.encrypted token) before.length opened.plaintext

/-! ### The entry that is found -/

namespace Jws

variable {t : Jws} {payload : ByteArray} {before rest : List SealedToken.Signature}
  {s : SealedToken.Signature}

/-- After a verification the first valid signature is the first that was accepted. -/
theorem validIndex_of_verify (hheld : t.held = some payload)
    (hentries : t.signatures = before ++ s :: rest)
    (haccepted : Accepts p t.options payload keys none s)
    (hearlier : ∀ q ∈ before, ¬ Accepts p t.options payload keys none q) :
    Jwt.validIndex (t.verify p keys none none).2 = before.length := by
  have hs : t.signatures ≠ [] := by simp [hentries]
  rw [verify_eq_verifyAll p keys none (show (none <|> t.held) = _ from hheld) hs, Jwt.validIndex,
    verifyAll_signatures, hentries, List.map_append, List.map_cons, List.findIdx?_append]
  have hnone : (before.map fun q => { q with
      state := stateOf (verifyOne p t.options payload keys none q).1 }).findIdx?
        (·.state == .valid) = none := by
    rw [List.findIdx?_eq_none_iff]
    simp only [List.mem_map, forall_exists_index, and_imp, forall_apply_eq_imp_iff₂]
    intro q hq
    cases houtcome : (verifyOne p t.options payload keys none q).1 with
    | ok _ => exact absurd (verifyOne_eq_ok.1 houtcome) (hearlier q hq)
    | error _ => rfl
  rw [hnone, verifyOne_eq_ok.2 haccepted]
  simp [stateOf, List.findIdx?_cons]

/-- The headers are no part of what a verification tells. -/
theorem headerAt_unverified {i : Nat} : t.unverified.headerAt i = t.headerAt i := by
  simp only [headerAt, unverified, List.getElem?_map]
  cases t.signatures[i]? <;> rfl

/-- A verification that succeeds releases the payload. -/
theorem verify_payload? {alg : Option String} {detached : Option ByteArray} {after : Jws}
    (h : t.verify p keys alg detached = (.ok (), after)) :
    after.payload? = (detached <|> t.held) := by
  cases hpayload : (detached <|> t.held) with
  | none => simp [verify, hpayload] at h
  | some payload =>
      by_cases hs : t.signatures = []
      · simp [verify, hpayload, hs] at h
      · rw [verify_eq_verifyAll p keys alg hpayload hs] at h
        have htrusted := (verifyAll_trusted (t := { t with
          held := some payload, trusted := false, log := [] }) rfl).2 (congrArg Prod.fst h)
        rw [h] at htrusted
        have hheld : after.held = some payload := by
          rw [← show _ = after from congrArg Prod.snd h, verifyAll_held]
        rw [payload?, if_pos htrusted, hheld]

end Jws

namespace Jwt

variable {token : Carrier} {i : Nat} {payload : ByteArray}

/-- The entry through which a token is authentic has a merged header. -/
theorem isOk_headerAt (h : token.AuthenticThrough p supply keys i payload) :
    (token.headerAt i).isOk = true := by
  cases h with
  | signed held entries accepted earlier =>
      obtain ⟨checked, -⟩ := accepted
      simp [Carrier.headerAt, Jws.headerAt, entries, Jws.mergedHeader, checked.merged]
  | encrypted held entries opens earlier =>
      obtain ⟨checked, -⟩ := Jwe.opens_of_openFor opens
      simp [Carrier.headerAt, Jwe.headerAt, entries, checked.merged]

/-- A token that is authentic through an entry gives its payload with the header that is
reported for the entry, if that can be merged. -/
theorem authenticate_eq (h : token.AuthenticThrough p supply keys i payload) :
    (authenticate p supply token keys).1 =
      (token.headerAt (token.reported i)).map fun header => (header, some payload) := by
  cases h with
  | @signed token payload before rest s held entries accepted earlier =>
      have hs : token.signatures ≠ [] := by simp [entries]
      have hindex := Jws.validIndex_of_verify held entries accepted earlier
      have hverify : (token.verify p keys none none).1 = .ok () := by
        rw [Jws.verify_eq_verifyAll p keys none (show (none <|> token.held) = _ from held) hs]
        exact Jws.verifyAll_eq_ok.2 ⟨s, by simp [entries], accepted⟩
      cases hafter : token.verify p keys none none with
      | mk outcome after =>
          rw [hafter] at hverify hindex
          obtain rfl := hverify
          have hpayload : after.payload? = some payload :=
            (Jws.verify_payload? hafter).trans held
          have hheader : after.headerAt before.length = token.headerAt before.length := by
            rw [← Jws.headerAt_unverified, Jws.verify_unverified hafter, Jws.headerAt_unverified]
          simp only [authenticate, hafter, hindex, hpayload, hheader]
          rfl
  | @encrypted token content before rest r opened held entries opens earlier =>
      have hopen : (token.openFirst p supply content keys none [] token.recipients).1 =
          .ok opened := Jwe.openFirst_eq_ok.2 ⟨before, r, rest, entries, opens, earlier⟩
      have hdecrypt := Jwe.decrypt_eq_ok.2 ⟨content, opened, _, held, Prod.ext hopen rfl, rfl⟩
      simp only [authenticate, hdecrypt]
      rfl

/-! ### A validation -/

variable (now : Int) {t : Jwt} {header : Object} {claims : Claims}

/-- A token of the expected kind is authenticated, and then its claims are read and
checked. -/
theorem validate_eq (held : t.token = some token) (expected : t.expectedKind keys = token.kind) :
    t.validate p supply now keys =
      match (authenticate p supply token keys).1.bind fun (header, payload) =>
        (claimsOf payload).map (header, ·) with
      | .error error => (.error error, { t with token := some (authenticate p supply token keys).2 })
      | .ok (header, claims) =>
          let after := t.authenticated (authenticate p supply token keys).2 header claims
          (after.checkClaims now, after) := by
  simp [validate, held, expected]
  rfl

section Authentic

variable (held : t.token = some token) (expected : t.expectedKind keys = token.kind)
  (authentic : token.AuthenticThrough p supply keys i payload)

include held expected authentic

/-- The claims of an authentic token are checked. -/
theorem validate_authentic (hheader : token.headerAt (token.reported i) = .ok header)
    (hclaims : Claims.ofPayload payload = .ok claims) :
    ∃ after, t.validate p supply now keys =
      ((t.authenticated after header claims).checkClaims now,
        t.authenticated after header claims) := by
  have hread : (authenticate p supply token keys).1.bind (fun (header, payload) =>
      (claimsOf payload).map (header, ·)) = .ok (header, claims) := by
    simp [authenticate_eq authentic, hheader, Except.map, Except.bind, claimsOf, hclaims]
  rw [validate_eq now held expected, hread]
  exact ⟨_, rfl⟩

theorem validate_of_header (hheader : token.headerAt (token.reported i) = .ok header)
    (hclaims : Claims.ofPayload payload = .ok claims) :
    ∃ after, (t.validate p supply now keys).2 = t.authenticated after header claims ∧
      ((t.validate p supply now keys).1 = .ok () ↔ Accepted t.options claims now) := by
  obtain ⟨after, hvalidate⟩ :=
    validate_authentic now held expected authentic hheader hclaims
  rw [hvalidate]
  exact ⟨_, rfl, checkClaims_eq_ok rfl⟩

theorem validate_of_header_error {error : Error}
    (hheader : token.headerAt (token.reported i) = .error error) :
    ∃ after, t.validate p supply now keys = (.error error, { t with token := some after }) := by
  have hread : (authenticate p supply token keys).1.bind (fun (header, payload) =>
      (claimsOf payload).map (header, ·)) = .error error := by
    simp [authenticate_eq authentic, hheader, Except.map, Except.bind]
  rw [validate_eq now held expected, hread]
  exact ⟨_, rfl⟩

theorem validate_of_claims_error {error : Error}
    (hheader : token.headerAt (token.reported i) = .ok header)
    (hclaims : Claims.ofPayload payload = .error error) :
    ∃ after, t.validate p supply now keys = (.error error, { t with token := some after }) := by
  have hread : (authenticate p supply token keys).1.bind (fun (header, payload) =>
      (claimsOf payload).map (header, ·)) = .error error := by
    simp [authenticate_eq authentic, hheader, Except.map, Except.bind, claimsOf, hclaims]
  rw [validate_eq now held expected, hread]
  exact ⟨_, rfl⟩

/-- A validation of a token that is authentic succeeds exactly when the header that is
reported can be merged and the claims are accepted. -/
theorem validate_eq_ok :
    (t.validate p supply now keys).1 = .ok () ↔
      (token.headerAt (token.reported i)).isOk = true ∧
        ∃ claims, Claims.ofPayload payload = .ok claims ∧ Accepted t.options claims now := by
  cases hheader : token.headerAt (token.reported i) with
  | error error =>
      obtain ⟨after, hvalidate⟩ :=
        validate_of_header_error now held expected authentic hheader
      simp [hvalidate]
  | ok header =>
      cases hclaims : Claims.ofPayload payload with
      | error error =>
          obtain ⟨after, hvalidate⟩ :=
            validate_of_claims_error now held expected authentic hheader hclaims
          simp [hvalidate]
      | ok claims =>
          obtain ⟨after, -, hiff⟩ :=
            validate_of_header now held expected authentic hheader hclaims
          simp [hiff]

end Authentic

/-- Let a token be of the expected kind and authentic through an entry, which always has
a merged header. The header that a validation tells is that of the reported entry, and
when that header cannot be merged the validation fails for it and tells nothing. The
headers of the other entries have no further influence: two tokens that are authentic
with the same payload are both accepted or both refused, as long as the reported header
can be merged in both or in neither. -/
theorem reported_header_governs (held : t.token = some token)
    (expected : t.expectedKind keys = token.kind)
    (authentic : token.AuthenticThrough p supply keys i payload) :
    (token.headerAt i).isOk = true ∧
      (∀ header claims, token.headerAt (token.reported i) = .ok header →
        Claims.ofPayload payload = .ok claims →
          (t.validate p supply now keys).2.header = some header ∧
            ((t.validate p supply now keys).1 = .ok () ↔ Accepted t.options claims now)) ∧
      (∀ error, token.headerAt (token.reported i) = .error error →
        (t.validate p supply now keys).1 = .error error ∧
          (t.validate p supply now keys).2.header = t.header) ∧
      ∀ (other : Carrier) (j : Nat), other.kind = token.kind →
        other.AuthenticThrough p supply keys j payload →
        (other.headerAt (other.reported j)).isOk = (token.headerAt (token.reported i)).isOk →
          ((({ t with token := some other } : Jwt).validate p supply now keys).1 = .ok () ↔
            (t.validate p supply now keys).1 = .ok ()) := by
  refine ⟨isOk_headerAt authentic, fun header claims hheader hclaims => ?_,
    fun error hheader => ?_, fun other j hkind hother hmerges => ?_⟩
  · obtain ⟨after, hafter, hiff⟩ :=
      validate_of_header now held expected authentic hheader hclaims
    exact ⟨by rw [hafter]; rfl, hiff⟩
  · obtain ⟨after, hvalidate⟩ :=
      validate_of_header_error now held expected authentic hheader
    simp [hvalidate]
  · have hexpected : ({ t with token := some other } : Jwt).expectedKind keys = other.kind := by
      rw [hkind, ← expected]
      rfl
    rw [validate_eq_ok now rfl hexpected hother, validate_eq_ok now held expected authentic,
      hmerges]

/-! ### A recipient in front of another -/

/-- A recipient that a shared key does not serve, as it expects an encrypted key. -/
def stranger (header : Object) : Recipient := ⟨some header, ⟨#[0]⟩⟩

/-- The recipient that the shared key serves. -/
def holder : Recipient := ⟨some (.ofMembers [("kid", .str "2")]), .empty⟩

/-- A token under a shared key, with a stranger in front of the holder of the key. -/
def behindStranger (header : Object) : Jwe :=
  { Jwe.direct with
    recipients := [stranger header, holder]
    options := { allowed := some [KeyManagementAlgorithm.direct.name,
      (ContentEncryptionAlgorithm.gcm .aes128).name] } }

/-- An encrypted token, to be validated. -/
def ofEncrypted (token : Jwe) : Jwt :=
  { token := some (.encrypted token), options := { expected := some .encrypted } }

def noEntropy : Recipient → Jwk → Entropy := fun _ _ => .ofSeed .empty

/-- The outcome for a recipient of the token. -/
def openBehind (header : Object) (r : Recipient) : Except Error Jwe.Opened :=
  ((behindStranger header).openFor Jwe.directPrimitives noEntropy
    ⟨⟨Array.replicate 12 0⟩, ⟨#[107, 225]⟩, Jwe.directTag⟩ (.single Jwe.directKey) r).1

theorem authentic_behindStranger (header : Object) (error : Error)
    (hstranger : (openBehind header (stranger header)).map (fun _ => ()) = .error error)
    (hlimit : ∀ limit, error ≠ .compressionLimitExceeded limit)
    (hholder : (openBehind header holder).toOption.map (·.plaintext) = some "hi".toUTF8) :
    (Carrier.encrypted (behindStranger header)).AuthenticThrough Jwe.directPrimitives noEntropy
      (.single Jwe.directKey) 1 "hi".toUTF8 := by
  obtain ⟨opened, hopened, hplaintext⟩ := Option.map_eq_some_iff.1 hholder
  have hfails : openBehind header (stranger header) = .error error := by
    cases hopen : openBehind header (stranger header) with
    | ok opened => simp [hopen, Except.map] at hstranger
    | error e => simpa [hopen, Except.map] using hstranger
  rw [← hplaintext]
  exact .encrypted rfl (show _ = [stranger header] ++ holder :: [] from rfl)
    (toOption_eq_some.1 hopened) (by simpa using ⟨error, hfails, hlimit⟩)

/-- Headers of the stranger: one that is merged, and one that repeats a name of the
protected header. -/
def otherKid : Object := .ofMembers [("kid", .str "1")]
def repeatedAlg : Object := .ofMembers [("alg", .str KeyManagementAlgorithm.direct.name)]

theorem authentic_otherKid :
    (Carrier.encrypted (behindStranger otherKid)).AuthenticThrough Jwe.directPrimitives noEntropy
      (.single Jwe.directKey) 1 "hi".toUTF8 :=
  authentic_behindStranger otherKid (.invalidFormat (.encryptedKeyNotEmpty "dir"))
    (by decide +kernel) (by simp) (by decide +kernel)

theorem authentic_repeatedAlg :
    (Carrier.encrypted (behindStranger repeatedAlg)).AuthenticThrough Jwe.directPrimitives noEntropy
      (.single Jwe.directKey) 1 "hi".toUTF8 :=
  authentic_behindStranger repeatedAlg (.duplicateHeader "alg")
    (by decide +kernel) (by simp) (by decide +kernel)

/-- The validation of a token behind a stranger. -/
def validateBehind (header : Object) : Except Error Unit × Jwt :=
  (ofEncrypted (behindStranger header)).validate Jwe.directPrimitives noEntropy 0
    (.single Jwe.directKey)

/-- The header that goes with the shared key of a recipient. -/
def directHeader (kid : String) : Object :=
  .ofMembers [("alg", .str KeyManagementAlgorithm.direct.name),
    ("enc", .str (ContentEncryptionAlgorithm.gcm .aes128).name), ("kid", .str kid)]

theorem header_behind_stranger :
    (validateBehind otherKid).2.header = some (directHeader "1") ∧
      ((validateBehind otherKid).1 = .ok () ↔ Accepted {} (.text "hi") 0) ∧
      (validateBehind repeatedAlg).1 = .error (.duplicateHeader "alg") := by
  have hkid := reported_header_governs 0 (t := ofEncrypted (behindStranger otherKid)) rfl
    rfl authentic_otherKid
  have halg := reported_header_governs 0 (t := ofEncrypted (behindStranger repeatedAlg)) rfl
    rfl authentic_repeatedAlg
  have h := hkid.2.1 (directHeader "1") (.text "hi") (by decide +kernel) (by decide +kernel)
  exact ⟨h.1, h.2, (halg.2.2.1 (.duplicateHeader "alg") (by decide +kernel)).1⟩

/-- Neither is it always the header of the recipient that opened the content which is
told, nor do the headers of the others leave the outcome alone. -/
theorem stranger_decides :
    (¬ ∀ (token : Jwe) (i : Nat) (payload : ByteArray),
      (Carrier.encrypted token).AuthenticThrough Jwe.directPrimitives noEntropy
        (.single Jwe.directKey) i payload →
      ((ofEncrypted token).validate Jwe.directPrimitives noEntropy 0
        (.single Jwe.directKey)).1 = .ok () →
      ((ofEncrypted token).validate Jwe.directPrimitives noEntropy 0
        (.single Jwe.directKey)).2.header = (token.headerAt i).toOption) ∧
    ¬ ∀ (header other : Object) (i : Nat) (payload : ByteArray),
      (Carrier.encrypted (behindStranger header)).AuthenticThrough Jwe.directPrimitives noEntropy
        (.single Jwe.directKey) i payload →
      (Carrier.encrypted (behindStranger other)).AuthenticThrough Jwe.directPrimitives noEntropy
        (.single Jwe.directKey) i payload →
      ((validateBehind header).1 = .ok () ↔ (validateBehind other).1 = .ok ()) := by
  have hkid : (validateBehind otherKid).1 = .ok () := by decide +kernel
  constructor
  · intro h
    have htold := h _ 1 _ authentic_otherKid hkid
    revert htold
    decide +kernel
  · intro h
    have halg := (h _ _ 1 _ authentic_otherKid authentic_repeatedAlg).1 hkid
    revert halg
    decide +kernel

end Jwt

end SealedToken
