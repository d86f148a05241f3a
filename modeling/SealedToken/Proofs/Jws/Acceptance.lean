import SealedToken.Jws.Verify
import SealedToken.Proofs.Algorithm
import SealedToken.Proofs.Header

/-!
What a verification accepts. A signature is accepted when its header passes every
check and one of the keys offered for it verifies its bytes; a token is accepted
when one of its signatures is, and every signature is marked by its own outcome.
-/

namespace SealedToken.Jws

variable {p : Primitives} {options : JwsOptions} {payload : ByteArray} {keys : KeySource}
  {expected : Option String} {s : SealedToken.Signature} {t : Jws}

/-- The header of a signature that passes every check. No key has a part in it. -/
structure Checked (options : JwsOptions) (expected : Option String)
    (s : SealedToken.Signature) where
  /-- The union of the protected and the unprotected header. -/
  header : Object
  name : String
  algorithm : SigningAlgorithm
  /-- Is the payload encoded where it is signed? -/
  encoded : Bool
  kid : Option String
  merged : options.registry.merge s.protectedHeader [s.header] = .ok header
  named : header.find? "alg" = some (.str name)
  asExpected : ∀ given, expected = some given → given = name
  permitted : Algorithm.Permitted options.allowed name
  registered : SigningAlgorithm.lookup name = .ok algorithm
  mode : payloadEncoded s.protectedHeader header = .ok encoded
  ownMode : Signature.payloadEncoded s = .ok encoded
  identified : Header.text? header "kid" = .ok kid

/-- The bytes of a signature whose header passes verify, over the payload in the mode
of the header, under one of the keys offered for it. -/
def Checked.Verifies (checked : Checked options expected s) (p : Primitives)
    (payload : ByteArray) (keys : KeySource) : Prop :=
  ∃ offered, keys.candidates checked.kid = .ok offered ∧
    ∃ key ∈ offered, checked.algorithm.verify p key
      (signingInput s.protectedText payload checked.encoded) s.bytes = .ok ()

/-- A signature is accepted when its header passes and its bytes verify. -/
def Accepts (p : Primitives) (options : JwsOptions) (payload : ByteArray) (keys : KeySource)
    (expected : Option String) (s : SealedToken.Signature) : Prop :=
  ∃ checked : Checked options expected s, checked.Verifies p payload keys

@[simp] theorem checkExpected_eq_ok {name : String} :
    checkExpected expected name = .ok () ↔ ∀ given, expected = some given → given = name := by
  cases expected <;> simp [checkExpected]

/-- The mode that passes in a merged header is that of the protected header alone. -/
theorem payloadEncoded_own {protectedHeader : Option Object} {merged : Object} {encoded : Bool}
    (h : payloadEncoded protectedHeader merged = .ok encoded) :
    payloadEncoded protectedHeader .empty = .ok encoded := by
  unfold payloadEncoded at h ⊢
  split at h
  · obtain ⟨-, h⟩ := ite_error_eq_ok.1 h
    obtain rfl := Except.ok.inj h
    rfl
  · exact h
  · simp at h

theorem prepare_eq_ok {pending : Pending} :
    prepare options payload keys expected s = .ok pending ↔
      ∃ checked : Checked options expected s, ∃ offered,
        keys.candidates checked.kid = .ok offered ∧
        pending = ⟨checked.name, checked.algorithm,
          signingInput s.protectedText payload checked.encoded, offered⟩ := by
  constructor
  · intro h
    rw [prepare, bind_eq_ok] at h
    obtain ⟨header, merged, h⟩ := h
    obtain ⟨name?, named, h⟩ := bind_eq_ok.1 h
    cases name? with
    | none => simp at h
    | some name =>
        simp only [bind_eq_ok, pure_eq_ok, Except.ok.injEq] at h
        obtain ⟨_, asExpected, _, permitted, algorithm, registered, encoded, mode, kid, identified,
          offered, hoffered, rfl⟩ := h
        exact ⟨⟨header, name, algorithm, encoded, kid, merged, Header.text?_eq_ok_some.1 named,
          checkExpected_eq_ok.1 asExpected, Algorithm.checkAllowed_eq_ok.1 permitted, registered,
          mode, payloadEncoded_own mode, identified⟩, offered, hoffered, rfl⟩
  · rintro ⟨checked, offered, hoffered, rfl⟩
    have named := Header.text?_eq_ok_some.2 checked.named
    have asExpected := checkExpected_eq_ok.2 checked.asExpected
    have permitted := Algorithm.checkAllowed_eq_ok.2 checked.permitted
    simp [prepare, mergedHeader, checked.merged, named, asExpected, permitted, checked.registered,
      checked.mode, checked.identified, hoffered]

/-- Once the header has passed, a signature is accepted exactly when one of the keys
that are left verifies it. -/
theorem accepts_iff_of_prepare {pending : Pending}
    (h : prepare options payload keys expected s = .ok pending) :
    Accepts p options payload keys expected s ↔
      ∃ key ∈ pending.keys, pending.algorithm.verify p key pending.input s.bytes = .ok () := by
  constructor
  · rintro ⟨checked, offered, hoffered, key, hkey, hverify⟩
    rw [prepare_eq_ok.2 ⟨checked, offered, hoffered, rfl⟩] at h
    obtain rfl := Except.ok.inj h
    exact ⟨key, hkey, hverify⟩
  · rintro ⟨key, hkey, hverify⟩
    obtain ⟨checked, offered, hoffered, rfl⟩ := prepare_eq_ok.1 h
    exact ⟨checked, offered, hoffered, key, hkey, hverify⟩

/-- The outcome for one signature is a success exactly when it is accepted. -/
theorem verifyOne_eq_ok :
    (verifyOne p options payload keys expected s).1 = .ok () ↔
      Accepts p options payload keys expected s := by
  unfold verifyOne
  split
  · next error herror =>
      simp only [reduceCtorEq, false_iff]
      rintro ⟨checked, offered, hoffered, -⟩
      rw [prepare_eq_ok.2 ⟨checked, offered, hoffered, rfl⟩] at herror
      simp at herror
  · next pending hpending =>
      rw [accepts_iff_of_prepare hpending]
      -- the outcome looks at the attempts only through whether one of them succeeded
      let attempt key := pending.algorithm.verify p key pending.input s.bytes
      have hsome : (tryEach attempt pending.keys).2.isSome = true ↔
          ∃ key ∈ pending.keys, (attempt key).isOk = true := isSome_tryEach
      generalize tryEach attempt pending.keys = attempts at hsome ⊢
      obtain ⟨failures, _ | _⟩ := attempts <;> simpa [isOk_iff_eq_ok] using hsome

/-! ### All signatures -/

theorem any_isOk_verifyOne :
    ((t.signatures.map (verifyOne p options payload keys expected)).any (·.1.isOk)) = true ↔
      ∃ s ∈ t.signatures, Accepts p options payload keys expected s := by
  simp [isOk_iff_eq_ok, verifyOne_eq_ok]

/-- A verification succeeds exactly when some signature is accepted. -/
theorem verifyAll_eq_ok :
    (t.verifyAll p payload keys expected).1 = .ok () ↔
      ∃ s ∈ t.signatures, Accepts p t.options payload keys expected s := by
  rw [← any_isOk_verifyOne]
  dsimp only [verifyAll]
  split <;> simp_all

/-- The payload may be released exactly after a success. -/
theorem verifyAll_trusted (h : t.trusted = false) :
    (t.verifyAll p payload keys expected).2.trusted = true ↔
      (t.verifyAll p payload keys expected).1 = .ok () := by
  dsimp only [verifyAll]
  split <;> simp [h]

@[simp] theorem verifyAll_held : (t.verifyAll p payload keys expected).2.held = t.held := by
  dsimp only [verifyAll]
  split <;> rfl

@[simp] theorem verifyAll_options :
    (t.verifyAll p payload keys expected).2.options = t.options := by
  dsimp only [verifyAll]
  split <;> rfl

/-- Every signature is marked by its own outcome and not changed otherwise. -/
theorem verifyAll_signatures :
    (t.verifyAll p payload keys expected).2.signatures = t.signatures.map fun s =>
      { s with state := stateOf (verifyOne p t.options payload keys expected s).1 } := by
  dsimp only [verifyAll]
  -- each signature stands beside the outcome that was made of it
  rw [← List.map_prod_left_eq_zip, List.map_map]
  split <;> rfl

/-! ### What a verification keeps -/

/-- The token without all that a verification tells. -/
def unverified (t : Jws) : Jws :=
  { t with
    trusted := false
    signatures := t.signatures.map fun s => { s with state := .signed }
    log := [] }

theorem verifyAll_unverified :
    (t.verifyAll p payload keys expected).2.unverified = t.unverified := by
  simp only [unverified, verifyAll_held, verifyAll_options, verifyAll_signatures, List.map_map]
  rfl

/-- A verification of the payload that the token holds only adds what it tells. -/
theorem verify_unverified {outcome : Except Error Unit} {after : Jws}
    (h : t.verify p keys expected none = (outcome, after)) : after.unverified = t.unverified := by
  obtain rfl : (t.verify p keys expected none).2 = after := by rw [h]
  unfold verify
  dsimp only
  split
  · rfl
  · split
    · rfl
    · exact verifyAll_unverified

end SealedToken.Jws
