import SealedToken.Proofs.Jws.Signing
import SealedToken.Proofs.Jwt.Header
import SealedToken.Proofs.Jwt.Independence

/-!
Claims that are signed are read again. The receiver has only the list of allowed algorithms
and the key, and has to tell from them which kind of token to expect. The list permits the
algorithm that has signed, so if it tells a kind at all, it tells the right one; a key that
may verify is not restricted to encryption, by its use or by its operations. The text has the
shape of a signed token in either form, so the two kinds agree and the token is authenticated.

The merged header of the signature is the protected one: the given header, its type, and the
algorithm. It has the identifier of the key that was given, which is all that verifying looks
at beside the algorithm. What is left that can fail is the time at which the claims hold.
-/

namespace SealedToken

/-! ### Claims and their payload -/

namespace Claims

variable {claims : Object} {now leeway : Int} {name : String}

/-- Claims that their payload stands for: an object with values that are read as they are
written, or a text that is not that of an object. -/
def Codable : Claims → Prop
  | .object members => members.Codable (Json.nestingLimit - 1)
  | .text t => (Json.parse? t).bind Json.asObject? = none

theorem ofPayload_toPayload {claims : Claims} (h : claims.Codable) :
    ofPayload claims.toPayload = .ok claims := by
  cases claims with
  | object members =>
      have hjson : members.toJson.Codable Json.nestingLimit := Object.Codable.toJson h
      rw [ofPayload, toPayload, Json.parseBytes?_toUTF8, Json.parse?_print hjson.readable,
        hjson.canonical, Option.bind_some, Object.asObject?_toJson]
  | text t =>
      have hnone : (Json.parse? t).bind Json.asObject? = none := h
      rw [ofPayload, toPayload, Json.parseBytes?_toUTF8, hnone]
      dsimp only
      rw [Utf8.decode_toUTF8]

/-- The check of the times at which claims hold. A text says nothing about them. -/
def checkTimes (now leeway : Int) : Claims → Except Error Unit
  | .object members => checkValidity members now leeway
  | .text _ => .ok ()

/-- The outcome of a check that has nothing against claims but the time: they are over, they
have not begun, or one of the two dates is no number. -/
inductive Timely : Except Error Unit → Prop
  | passed : Timely (.ok ())
  | expired : Timely (.error .expired)
  | notYetValid : Timely (.error .notYetValid)
  | unreadable (name : String) (date : name = "exp" ∨ name = "nbf") :
      Timely (.error (.invalidClaimValue name))

/-- A date that is no number is told by its name. -/
theorem date?_cases (claims : Object) (name : String) :
    (∃ found, date? claims name = .ok found) ∨
      date? claims name = .error (.invalidClaimValue name) := by
  unfold date?
  split
  · exact .inl ⟨none, rfl⟩
  · split
    · next date _ => exact .inl ⟨some date, rfl⟩
    · exact .inr rfl

theorem timely_checkValidity : Timely (checkValidity claims now leeway) := by
  unfold checkValidity
  rcases date?_cases claims "exp" with ⟨exp, hexp⟩ | hexp
  · rw [hexp, ok_bind]
    split
    · exact .expired
    · rcases date?_cases claims "nbf" with ⟨nbf, hnbf⟩ | hnbf
      · rw [hnbf, ok_bind]
        split
        · exact .notYetValid
        · exact .passed
      · rw [hnbf, error_bind]
        exact .unreadable "nbf" (.inr rfl)
  · rw [hexp, error_bind]
    exact .unreadable "exp" (.inl rfl)

theorem timely_checkTimes {claims : Claims} : Timely (claims.checkTimes now leeway) := by
  cases claims with
  | object members => exact timely_checkValidity
  | text t => exact .passed

end Claims

namespace Jwt

variable {p : Primitives} {t : Jwt} {key : Jwk} {name : String} {kind : TokenKind}
  {names : List String}

/-! ### The kind that is expected -/

/-- What the names of a list tell is told by each of them. -/
theorem kindOfAlgorithm_of_kindOfNames (h : kindOfNames names = some kind) :
    ∀ name ∈ names, kindOfAlgorithm name = some kind := by
  unfold kindOfNames at h
  split at h
  · next first rest hmap =>
      split at h
      · next hall =>
          obtain rfl := Option.some.inj h
          intro name hname
          have hmem : kindOfAlgorithm name ∈ some first :: rest :=
            hmap ▸ List.mem_map_of_mem hname
          rcases List.mem_cons.1 hmem with heq | hmem
          · exact heq
          · simpa using List.all_eq_true.1 hall _ hmem
      · simp at h
  · simp at h

theorem kindOfAlgorithm_of_lookup {a : SigningAlgorithm}
    (h : SigningAlgorithm.lookup name = .ok a) : kindOfAlgorithm name = some .signed := by
  obtain ⟨registered, hlookup, h⟩ := bind_eq_ok.1 h
  rw [kindOfAlgorithm, hlookup]
  cases registered <;> simp at h ⊢

/-- A key that may verify is not restricted to encrypted tokens. -/
theorem kindOfKey_ne_encrypted (h : key.permits .verify = true) :
    kindOfKey key ≠ some .encrypted := by
  obtain ⟨huse, hoperations⟩ := Bool.and_eq_true_iff.1 h
  unfold kindOfKey
  split
  · simp
  · next use hencryption => simp [hencryption, KeyUse.permits, KeyOperation.isSigning] at huse
  · simp
  · simp
  · next ops _ _ hops =>
      have hsigning : ops.any (·.isSigning) = true := by
        rw [hops, Option.all_some, List.contains_iff_mem] at hoperations
        exact List.any_eq_true.2 ⟨.verify, hoperations, rfl⟩
      rw [hsigning]
      split <;> simp

/-- Where nothing else tells, a list that allows an algorithm for signatures and a key that may
verify make a signed token expected. -/
theorem expectedKind_eq_signed {a : SigningAlgorithm} (hexpected : t.options.expected = none)
    (hheader : t.header = none) (hallowed : Algorithm.Permitted t.options.allowed name)
    (hlookup : SigningAlgorithm.lookup name = .ok a) (hpermits : key.permits .verify = true) :
    t.expectedKind (.single key) = .signed := by
  have hkeys : kindOfKeys ((KeySource.single key).offered none) = kindOfKey key := by
    rw [KeySource.offered, kindOfKeys, List.map_singleton]
    cases kindOfKey key <;> rfl
  unfold expectedKind
  rw [hexpected, hheader, hkeys]
  cases htold : t.options.allowed.bind kindOfNames with
  | some kind =>
      -- the algorithm is one of the list, so the list can tell nothing else
      obtain ⟨names, hnames, hkind⟩ := Option.bind_eq_some_iff.1 htold
      have hmem : name ∈ names := by
        rw [Algorithm.Permitted, hnames] at hallowed
        exact hallowed
      have hname := kindOfAlgorithm_of_kindOfNames hkind name hmem
      exact Option.some.inj (hname.symm.trans (kindOfAlgorithm_of_lookup hlookup))
  | none =>
      have hnot := kindOfKey_ne_encrypted hpermits
      cases hkey : kindOfKey key with
      | none => rfl
      | some kind =>
          cases kind with
          | signed => rfl
          | encrypted => exact absurd hkey hnot

/-! ### The text that is written -/

variable {token : Jws} {compact : Bool} {text : String}

/-- A signed token is written as a text that has the shape of one. -/
theorem kindOfText_serialize (h : token.Writable) (hwritten : token.serialize compact = .ok text) :
    Text.trim text = text ∧ kindOfText text = .ok .signed := by
  obtain ⟨encoded, hmode, hwritten⟩ := bind_eq_ok.1 hwritten
  obtain ⟨payload, hpayload, hwritten⟩ := bind_eq_ok.1 hwritten
  cases compact with
  | true =>
      obtain ⟨htrim, hobject, hread⟩ := Jws.readCompact_compactText h hmode hpayload hwritten
      obtain ⟨_, _, _, _, _, hsegments, -⟩ := Jws.segments_of_readCompact hread
      rw [kindOfText, hobject, if_neg Bool.false_ne_true, hsegments]
      exact ⟨htrim, rfl⟩
  | false =>
      obtain ⟨-, htrim, hobject, o, ho, -, hnames⟩ := Jws.exists_object_of_jsonText h hwritten
      rw [kindOfText, if_pos hobject, ho]
      dsimp only
      rw [hnames "ciphertext" (by decide)]
      exact ⟨htrim, rfl⟩

/-- So it is carried by the object that reads it, under the options of that object. -/
theorem readCarrier_serialize (receiver : Jwt) {payload : ByteArray} (h : token.Writable)
    (hheld : token.held = some payload) (hwritten : token.serialize compact = .ok text) :
    receiver.readCarrier (Text.trim text) = .ok (.signed
      { token.rereadToken (some payload) with options := receiver.signedOptions }) := by
  obtain ⟨htrim, hkind⟩ := kindOfText_serialize h hwritten
  rw [htrim, readCarrier, hkind, ok_bind]
  dsimp only
  rw [Jws.deserialize_serialize_of_held h hheld hwritten, ok_bind]
  rfl

/-! ### Signing and reading -/

/-- A token of claims is signed by an algorithm: that of the header, or else that of the key. -/
def SignsWith (t : Jwt) (key : Jwk) (name : String) : Prop :=
  t.tokenHeader.find? "alg" = some (.str name) ∨
    t.tokenHeader.contains "alg" = false ∧ key.alg = some name

/-- The call that signs the claims. -/
def signingCall (rng : Entropy) (t : Jwt) (key : Jwk) : Jws.SigningCall where
  rng
  key
  alg := if t.tokenHeader.contains "alg" then none else key.alg
  protectedHeader := some t.tokenHeader
  header := none

variable {rng : Entropy} {made : Jwt} {claims : Claims}

theorem contains_typ_tokenHeader : t.tokenHeader.contains "typ" = true := by
  rw [tokenHeader]
  split
  · assumption
  · simp

theorem codable_tokenHeader {levels : Nat} (h : (t.header.getD .empty).Codable levels) :
    t.tokenHeader.Codable levels := by
  rw [tokenHeader]
  split
  · exact h
  · exact h.insert (Json.codable_str _)

/-- The type is the only parameter that is added. -/
theorem find?_tokenHeader (hname : name ≠ "typ") :
    t.tokenHeader.find? name = (t.header.getD .empty).find? name := by
  rw [tokenHeader]
  split
  · rfl
  · rw [Object.find?_insert, if_neg (Ne.symm hname)]

/-- The token that is made has one signature, over the payload of the claims. -/
theorem signed_of_makeSigned (h : t.makeSigned p rng key = .ok made)
    (hclaims : t.claims = some claims) :
    ∃ token, made.token = some (.signed token) ∧
      Jws.Signed p (Jws.draft claims.toPayload t.signedOptions) token claims.toPayload
        [signingCall rng t key] := by
  simp only [makeSigned, payload, hclaims, bind_eq_ok, pure_eq_ok, Except.ok.injEq] at h
  obtain ⟨_, rfl, token, hadd, rfl⟩ := h
  exact ⟨token, rfl, Jws.signed_draft.addSignature (c := signingCall rng t key) hadd⟩

/-- Its merged header is the protected one, with the algorithm that has signed. -/
theorem merged_of_signingCall {options : JwsOptions} {payload : ByteArray}
    {s : SealedToken.Signature} (made : Jws.Made p options payload (signingCall rng t key) s) :
    t.SignsWith key made.name ∧ made.merged = t.tokenHeader.insert "alg" (.str made.name) := by
  have hgiven : Header.nonempty (signingCall rng t key).protectedHeader = some t.tokenHeader :=
    Header.nonempty_of_contains contains_typ_tokenHeader
  have hchosen := made.chosen
  rw [hgiven] at hchosen
  obtain ⟨halg, hprotected⟩ := Jws.chooseAlgorithm_protected hchosen
  have hmerged := (HeaderRegistry.merge_own_eq_ok.1 made.merges).2.1
  have hown : s.header = none := made.header
  constructor
  · rcases halg with hnamed | ⟨hfresh, hgiven⟩
    · exact .inl hnamed
    · have hkey : (if t.tokenHeader.contains "alg" then none else key.alg) = some made.name :=
        hgiven
      rw [hfresh, if_neg Bool.false_ne_true] at hkey
      exact .inr ⟨hfresh, hkey⟩
  · rw [hmerged, hprotected, hown]
    exact Object.union_empty

section Reading

variable {supply : Recipient → Jwk → Entropy} {now : Int} {options : JwtOptions}

variable (supply now) in
/-- A token with the signature of the call is authentic with the key, and its claims are
checked. -/
theorem deserialize_signingCall {receiver : Jwt} {read : Jws} {s : SealedToken.Signature}
    (hcarrier : receiver.readCarrier (Text.trim text) = .ok (.signed read))
    (made : Jws.Made p t.signedOptions claims.toPayload (signingCall rng t key) s)
    (hheld : read.held = some claims.toPayload) (hsignatures : read.signatures = [s])
    (hoptions : read.options = t.signedOptions)
    (hheader : receiver.header = none) (hexpected : receiver.options.expected = none)
    (hallowed : receiver.options.allowed = t.options.allowed) (hcodable : claims.Codable)
    (hkid : ∃ kid, Header.text? (t.header.getD .empty) "kid" = .ok kid)
    (hpermits : key.permits .verify = true) (haccepts : made.algorithm.AcceptsOwn p key) :
    ∃ after, receiver.deserialize p supply now text (some (.single key)) =
      ((receiver.authenticated after made.merged claims).checkClaims now,
        receiver.authenticated after made.merged claims) := by
  obtain ⟨kid, hkid⟩ := hkid
  have hidentified : Header.text? made.merged "kid" = .ok kid := by
    rw [← hkid, Header.text?, Header.text?, (merged_of_signingCall made).2, Object.find?_insert,
      if_neg (by decide), find?_tokenHeader (by decide)]
  have haccepted := made.accepts hidentified (.inl rfl) hpermits haccepts
  have hauthentic : (Carrier.signed read).AuthenticThrough p supply (.single key)
      ([] : List SealedToken.Signature).length claims.toPayload :=
    .signed hheld hsignatures (hoptions ▸ haccepted) (by simp)
  have hkind : (receiver.holding (.signed read)).expectedKind (.single key) = .signed :=
    expectedKind_eq_signed hexpected hheader (hallowed ▸ made.permitted) made.registered hpermits
  rw [deserialize_eq_validate hcarrier]
  refine validate_authentic now rfl hkind hauthentic ?_ (Claims.ofPayload_toPayload hcodable)
  rw [Carrier.reported, Carrier.headerAt, Jws.headerAt, hsignatures, hoptions]
  exact made.merges

/-- Without a table of checks only the times of claims are checked. -/
theorem checkClaims_eq_checkTimes (hclaims : t.claims = some claims)
    (hchecks : t.options.checks = none) :
    t.checkClaims now = claims.checkTimes now t.options.leeway := by
  cases claims with
  | object members =>
      simp only [checkClaims, hclaims, hchecks]
      exact bind_pure_unit
  | text content => simp only [checkClaims, hclaims, hchecks, Claims.checkTimes]

/-- Let claims be signed with a key that may also verify, under any list of allowed algorithms
and any header whose identifier of the key is a string where there is one. When the token is
written in either form and read with the key by a new object that only has the list, the
outcome is that of the check of the times at which the claims hold, so the token is never
taken for one of another kind. The claims are the ones that were signed, and the header is
the given one with the type and the algorithm that has signed. -/
theorem signed_claims_reread {written : Jwt} {rng' : Entropy}
    (hmade : t.makeSigned p rng key = .ok made)
    (hwritten : made.serialize p rng' compact = (.ok text, written))
    (hclaims : t.claims = some claims) (hcodable : claims.Codable)
    (hheader : (t.header.getD .empty).Codable (Json.nestingLimit - 1))
    (hkid : ∃ kid, Header.text? (t.header.getD .empty) "kid" = .ok kid)
    (hpermits : key.permits .verify = true)
    (haccepts : ∀ a : SigningAlgorithm, t.SignsWith key a.name → a.AcceptsOwn p key)
    (hallowed : options.allowed = t.options.allowed) (hexpected : options.expected = none)
    (hchecks : options.checks = none) :
    ∃ name after, t.SignsWith key name ∧
      ({ options } : Jwt).deserialize p supply now text (some (.single key)) =
        (claims.checkTimes now options.leeway, after) ∧
      Claims.Timely (claims.checkTimes now options.leeway) ∧
      after.claims = some claims ∧
      after.header = some (t.tokenHeader.insert "alg" (.str name)) := by
  obtain ⟨token, htoken, hsigned⟩ := signed_of_makeSigned hmade hclaims
  -- there is one signature, made by the one call
  obtain ⟨s, rest, ⟨made'⟩, hrest, hsignatures⟩ := List.forall₂_cons_left_iff.1 hsigned.made
  obtain rfl := List.forall₂_nil_left_iff.1 hrest
  have hwritable : token.Writable := by
    refine hsigned.writable ⟨?_, ?_⟩ <;> rw [List.forall_mem_singleton]
    · exact codable_tokenHeader hheader
    · exact Object.codable_empty
  have hserialized : token.serialize compact = .ok text := by
    rw [serialize, htoken] at hwritten
    exact congrArg Prod.fst hwritten
  have hcarrier := readCarrier_serialize ({ options } : Jwt) hwritable hsigned.held hserialized
  rw [Jws.rereadToken, hsignatures, List.map_singleton] at hcarrier
  have hsame : ({ options } : Jwt).signedOptions = t.signedOptions := by
    rw [signedOptions, signedOptions, hallowed]
  obtain ⟨halg, hmerged⟩ := merged_of_signingCall made'
  have hname := SigningAlgorithm.name_of_lookup made'.registered
  obtain ⟨after, hdeserialize⟩ := deserialize_signingCall supply now hcarrier made'.reread rfl
    rfl hsame rfl hexpected hallowed hcodable hkid hpermits (haccepts _ (hname.symm ▸ halg))
  rw [checkClaims_eq_checkTimes rfl hchecks] at hdeserialize
  exact ⟨made'.name, _, halg, hdeserialize, Claims.timely_checkTimes, rfl,
    congrArg some hmerged⟩

end Reading

/-! ### Claims that are over -/

/-- A key that names its algorithm. -/
def macKey : Jwk :=
  { Jwk.ofOctets "secret".toUTF8 with alg := some (SigningAlgorithm.hmac .sha256).name }

def macOptions : JwtOptions where
  allowed := some [(SigningAlgorithm.hmac .sha256).name]

def overClaims : Claims := .object (.ofMembers [("sub", .str "alice"), ("exp", .int 10)])

def overToken : Jwt where
  header := some (.ofMembers [("kid", .str "1")])
  claims := some overClaims
  options := macOptions

/-- They are read again though it is too late for them. -/
theorem over_claims_reread :
    ∃ made text after, overToken.makeSigned .standard (.ofSeed .empty) macKey = .ok made ∧
      (made.serialize .standard (.ofSeed .empty) true).1 = .ok text ∧
      ({ options := macOptions } : Jwt).deserialize .standard (fun _ _ => .ofSeed .empty) 1000 text
        (some (.single macKey)) = (.error .expired, after) ∧
      after.claims = some overClaims ∧
      after.header = some (.ofMembers [("kid", .str "1"), ("typ", .str "JWT"),
        ("alg", .str (SigningAlgorithm.hmac .sha256).name)]) := by
  have hwritten : (overToken.makeSigned .standard (.ofSeed .empty) macKey >>= fun made =>
      (made.serialize .standard (.ofSeed .empty) true).1).isOk = true := by
    decide +kernel
  obtain ⟨text, hwritten⟩ := isOk_iff.1 hwritten
  obtain ⟨made, hmade, hwritten⟩ := bind_eq_ok.1 hwritten
  have hfresh : overToken.tokenHeader.find? "alg" = none := by decide +kernel
  have hname (name : String) (h : overToken.SignsWith macKey name) :
      (SigningAlgorithm.hmac .sha256).name = name := by
    rcases h with hnamed | ⟨-, hgiven⟩
    · simp [hfresh] at hnamed
    · exact Option.some.inj hgiven
  have hcodable : overClaims.Codable :=
    (Object.codable_empty.insert (Json.codable_str _)).insert
      (Json.codable_int (by decide) (by decide))
  have haccepts (a : SigningAlgorithm) (h : overToken.SignsWith macKey a.name) :
      a.AcceptsOwn .standard macKey := by
    rw [← SigningAlgorithm.name_injective (hname _ h)]
    trivial
  obtain ⟨name, after, hsigns, hread, -, hclaims, hheader⟩ :=
    signed_claims_reread hmade (Prod.ext hwritten rfl) rfl hcodable
      (Object.codable_empty.insert (Json.codable_str _))
      ⟨some "1", Header.text?_eq_ok_some.2 (by decide +kernel)⟩ (by decide) haccepts rfl rfl rfl
  obtain rfl := hname name hsigns
  exact ⟨made, text, after, hmade, hwritten, hread, hclaims, hheader⟩

end Jwt

end SealedToken
