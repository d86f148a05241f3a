import SealedToken.Proofs.Header.Union
import SealedToken.Proofs.Jws.AnyValid
import SealedToken.Proofs.Jws.Reading
import SealedToken.Proofs.Signing

/-!
What is signed is verified. Each call that adds a signature finds the algorithm, the mode and
the critical parameters that a verification finds again in what was written, and signs the
bytes that are verified. Only the identifier of the key is not looked at before the
verification.
-/

namespace SealedToken.Jws

variable {p : Primitives} {options : JwsOptions} {payload : ByteArray} {t : Jws}
  {protectedHeader chosen header : Option Object} {given : Option String} {name : String}

/-! ### One signature -/

/-- A call that adds a signature. -/
structure SigningCall where
  rng : Entropy
  key : Jwk
  alg : Option String
  protectedHeader : Option Object
  header : Option Object

/-- The protected header that a signature is made with: the given one, with the name of the
algorithm if no header had one. -/
inductive Protects (given : Option Object) : (chosen : Option Object) → Prop
  | same : Protects given given
  | named (name : String) :
      Protects given (some ((given.getD .empty).insert "alg" (.str name)))

/-- What a call has found that makes a signature. -/
structure Made (p : Primitives) (options : JwsOptions) (payload : ByteArray) (c : SigningCall)
    (s : SealedToken.Signature) where
  /-- The union of the protected and the unprotected header. -/
  merged : Object
  name : String
  algorithm : SigningAlgorithm
  encoded : Bool
  merges : options.registry.merge s.protectedHeader [s.header] = .ok merged
  named : merged.find? "alg" = some (.str name)
  permitted : Algorithm.Permitted options.allowed name
  registered : SigningAlgorithm.lookup name = .ok algorithm
  mode : payloadEncoded s.protectedHeader merged = .ok encoded
  text : s.protectedText = Header.encode s.protectedHeader
  signed : algorithm.sign p c.rng c.key (signingInput s.protectedText payload encoded) =
    .ok s.bytes
  chosen : chooseAlgorithm c.alg (Header.nonempty c.protectedHeader) (Header.nonempty c.header) =
    .ok (name, s.protectedHeader)
  protects : Protects (Header.nonempty c.protectedHeader) s.protectedHeader
  header : s.header = Header.nonempty c.header

/-- The algorithm is one that a header names, or else the given one. -/
theorem chooseAlgorithm_cases
    (h : chooseAlgorithm given protectedHeader header = .ok (name, chosen)) :
    namedAlgorithm protectedHeader header = .ok (some name) ∧ chosen = protectedHeader ∨
      namedAlgorithm protectedHeader header = .ok none ∧ given = some name ∧
        chosen = some ((protectedHeader.getD .empty).insert "alg" (.str name)) := by
  obtain ⟨named?, hnamed, h⟩ := bind_eq_ok.1 h
  cases named? with
  | none =>
      cases given with
      | none => simp at h
      | some given =>
          obtain ⟨rfl, rfl⟩ := Prod.mk.inj (Except.ok.inj h)
          exact .inr ⟨hnamed, rfl, rfl⟩
  | some found =>
      have hsame : found = name ∧ protectedHeader = chosen := by
        cases given with
        | none => exact Prod.mk.inj (Except.ok.inj h)
        | some given =>
            dsimp only at h
            split at h
            · exact Prod.mk.inj (Except.ok.inj h)
            · simp at h
      obtain ⟨rfl, rfl⟩ := hsame
      exact .inl ⟨hnamed, rfl⟩

theorem chooseAlgorithm_eq_ok
    (h : chooseAlgorithm given protectedHeader header = .ok (name, chosen)) :
    Protects protectedHeader chosen ∧
      ((chosen.getD .empty).find? "alg" = some (.str name) ∨
        (header.getD .empty).find? "alg" = some (.str name)) := by
  rcases chooseAlgorithm_cases h with ⟨hnamed, rfl⟩ | ⟨-, rfl, rfl⟩
  · refine ⟨.same, ?_⟩
    unfold namedAlgorithm at hnamed
    split at hnamed
    · next o _ ho =>
        obtain ⟨rfl, -⟩ := Option.filter_eq_some_iff.1 ho
        exact .inl (Header.text?_eq_ok_some.1 hnamed)
    · exact .inr (Header.text?_eq_ok_some.1 hnamed)
    · simp at hnamed
  · exact ⟨.named name, .inl (by simp)⟩

theorem namedAlgorithm_protected {o : Object} :
    namedAlgorithm (some o) none = if o.contains "alg" then Header.text? o "alg" else .ok none := by
  unfold namedAlgorithm
  rw [Option.filter_some]
  cases o.contains "alg" <;> rfl

/-- Without an unprotected header it is the one that the protected header names, or else the
given one. The protected header names it then. -/
theorem chooseAlgorithm_protected {o : Object}
    (h : chooseAlgorithm given (some o) none = .ok (name, chosen)) :
    (o.find? "alg" = some (.str name) ∨ o.contains "alg" = false ∧ given = some name) ∧
      chosen = some (o.insert "alg" (.str name)) := by
  rcases chooseAlgorithm_cases h with ⟨hnamed, rfl⟩ | ⟨hnamed, rfl, rfl⟩ <;>
    rw [namedAlgorithm_protected] at hnamed
  · have halg : o.find? "alg" = some (.str name) := by
      split at hnamed
      · exact Header.text?_eq_ok_some.1 hnamed
      · simp at hnamed
    rw [Object.insert_eq_self halg]
    exact ⟨.inl halg, rfl⟩
  · refine ⟨.inr ⟨?_, rfl⟩, rfl⟩
    split at hnamed
    · exact Object.contains_eq_false_iff.2 (Header.text?_eq_ok_none.1 hnamed)
    · next halg => simpa using halg

/-- The algorithm is the one that the merged header names. -/
theorem find?_alg_of_chooseAlgorithm {r : HeaderRegistry} {merged : Object}
    (h : chooseAlgorithm given protectedHeader header = .ok (name, chosen))
    (hmerges : r.merge chosen [header] = .ok merged) : merged.find? "alg" = some (.str name) := by
  obtain ⟨hadmits, rfl, -⟩ := HeaderRegistry.merge_own_eq_ok.1 hmerges
  rw [Object.find?_union]
  rcases (chooseAlgorithm_eq_ok h).2 with halg | halg
  · have hnone : (header.getD .empty).find? "alg" = none := by
      by_contra hsome
      obtain ⟨v, hv⟩ := Option.ne_none_iff_exists'.1 hsome
      have hfresh := (hadmits "alg" (Object.contains_iff.2 ⟨v, hv⟩)).2
      rw [Object.contains_eq_false_iff, halg] at hfresh
      simp at hfresh
    rw [hnone, Option.none_or, halg]
  · rw [halg, Option.some_or]

/-- Only a payload that is held is signed. -/
theorem exists_held_of_addSignature {rng : Entropy} {key : Jwk} {alg : Option String}
    {after : Jws} (h : t.addSignature p rng key alg protectedHeader header = .ok after) :
    ∃ payload, t.held = some payload := by
  cases hheld : t.held with
  | none => simp [addSignature, makeSignature, hheld] at h
  | some payload => exact ⟨payload, rfl⟩

/-- A signature is added behind the others, and it has their mode. -/
theorem addSignature_made {c : SigningCall} {after : Jws} (hheld : t.held = some payload)
    (h : t.addSignature p c.rng c.key c.alg c.protectedHeader c.header = .ok after) :
    ∃ (s : SealedToken.Signature) (made : Made p t.options payload c s),
      t.checkSameMode made.encoded = .ok () ∧
        after = { t with signatures := t.signatures ++ [s] } := by
  simp only [addSignature, makeSignature, hheld, bind_eq_ok, pure_eq_ok, Except.ok.injEq] at h
  obtain ⟨s, ⟨⟨name, chosen⟩, hchosen, hs⟩, rfl⟩ := h
  obtain ⟨merged, merges, encoded, mode, _, sameMode, _, permitted, algorithm, registered, bytes,
    signed, rfl⟩ := hs
  exact ⟨⟨chosen, Header.encode chosen, Header.nonempty c.header, bytes, .signed⟩, {
    merged, name, algorithm, encoded, merges, registered, mode, signed
    named := find?_alg_of_chooseAlgorithm hchosen merges
    permitted := Algorithm.checkAllowed_eq_ok.1 permitted
    text := rfl
    chosen := hchosen
    protects := (chooseAlgorithm_eq_ok hchosen).1
    header := rfl }, sameMode, by rw [← hheld]⟩

namespace Made

variable {c : SigningCall} {s : SealedToken.Signature} (made : Made p options payload c s)
include made

theorem ownMode : Signature.payloadEncoded s = .ok made.encoded := payloadEncoded_own made.mode

/-- What is signed is accepted with a key for the key that it was signed with, if the
identifier of the key is a string where there is one. -/
theorem accepts {key : Jwk} {kid : Option String}
    (hkid : Header.text? made.merged "kid" = .ok kid) (hfor : key.VerifiesFor c.key)
    (hpermits : key.permits .verify = true) (haccepts : made.algorithm.AcceptsOwn p c.key) :
    Accepts p options payload (.single key) none s := by
  let checked : Checked options none s := {
    header := made.merged
    name := made.name
    algorithm := made.algorithm
    encoded := made.encoded
    kid
    merged := made.merges
    named := made.named
    asExpected := by simp
    permitted := made.permitted
    registered := made.registered
    mode := made.mode
    ownMode := made.ownMode
    identified := hkid }
  refine ⟨checked, [key], by simp [KeySource.candidates, KeySource.offered], key, by simp, ?_⟩
  exact SigningAlgorithm.verify_sign hfor hpermits haccepts made.signed

end Made

/-- A signature that was compared with the first one has the mode of all. -/
theorem mode_append {s : SealedToken.Signature} {encoded : Bool}
    (hmode : ∀ s ∈ t.signatures, Signature.payloadEncoded s = t.encodesPayload)
    (hs : Signature.payloadEncoded s = .ok encoded) (hsame : t.checkSameMode encoded = .ok ()) :
    ∀ s' ∈ t.signatures ++ [s], Signature.payloadEncoded s' =
      ({ t with signatures := t.signatures ++ [s] } : Jws).encodesPayload := by
  have hall (s') (hs' : s' ∈ t.signatures ++ [s]) :
      Signature.payloadEncoded s' = .ok encoded := by
    rcases List.mem_append.1 hs' with hs' | hs'
    · rw [hmode s' hs']
      cases hfirst : t.signatures with
      | nil => simp [hfirst] at hs'
      | cons first rest =>
          rw [checkSameMode, hfirst] at hsame
          obtain ⟨mode, hmode, hsame⟩ := bind_eq_ok.1 hsame
          split at hsame
          · next heq =>
              rw [encodesPayload, hfirst, ← heq]
              exact hmode
          · simp at hsame
    · obtain rfl := List.mem_singleton.1 hs'
      exact hs
  intro s' hs'
  rw [hall s' hs', encodesPayload]
  dsimp only
  split
  · next hnil => simp at hnil
  · next first rest hfirst => exact (hall first (by rw [hfirst]; simp)).symm

/-! ### The run of signatures -/

/-- A token before the first signature is added to it. -/
def draft (payload : ByteArray) (options : JwsOptions) : Jws :=
  { ofPayload payload with options }

/-- The token with signatures added one after the other. -/
def addAll (p : Primitives) (t : Jws) (calls : List SigningCall) : Except Error Jws :=
  calls.foldlM (fun t c => t.addSignature p c.rng c.key c.alg c.protectedHeader c.header) t

/-- What holds of a token after a run of signatures. -/
structure Signed (p : Primitives) (start t : Jws) (payload : ByteArray)
    (calls : List SigningCall) : Prop where
  held : t.held = some payload
  /-- Apart from the signatures it is the token it was. -/
  kept : t = { start with signatures := t.signatures }
  made : List.Forall₂ (fun c s => Nonempty (Made p start.options payload c s)) calls t.signatures
  mode : ∀ s ∈ t.signatures, Signature.payloadEncoded s = t.encodesPayload

namespace Signed

variable {start after : Jws} {calls done : List SigningCall} {c : SigningCall}

theorem options_eq (h : Signed p start t payload calls) : t.options = start.options := by
  rw [h.kept]

/-- One signature more. -/
theorem addSignature (h : Signed p start t payload calls)
    (hadd : t.addSignature p c.rng c.key c.alg c.protectedHeader c.header = .ok after) :
    Signed p start after payload (calls ++ [c]) := by
  obtain ⟨s, made, hsame, rfl⟩ := addSignature_made h.held hadd
  refine ⟨h.held, ?_, ?_, ?_⟩
  · rw [h.kept]
  · rw [h.options_eq] at made
    exact List.rel_append h.made (.cons ⟨made⟩ .nil)
  · exact mode_append h.mode made.ownMode hsame

/-- All of them. -/
theorem addAll (h : Signed p start t payload done) (hrun : t.addAll p calls = .ok after) :
    Signed p start after payload (done ++ calls) := by
  induction calls generalizing t done with
  | nil =>
      obtain rfl := Except.ok.inj hrun
      rwa [List.append_nil]
  | cons c rest ih =>
      rw [Jws.addAll, List.foldlM_cons] at hrun
      obtain ⟨next, hadd, hrun⟩ := bind_eq_ok.1 hrun
      rw [← List.singleton_append, ← List.append_assoc]
      exact ih (h.addSignature hadd) hrun

end Signed

theorem signed_draft : Signed p (draft payload options) (draft payload options) payload [] where
  held := rfl
  kept := rfl
  made := .nil
  mode := by simp [draft, ofPayload]

/-! ### The written form -/

/-- Headers that are given for signatures, and that their texts stand for. How deep the
values may be is a matter of the place that the header has in the written form. -/
structure HeadersCodable (calls : List SigningCall) : Prop where
  protectedHeader : ∀ c ∈ calls, (c.protectedHeader.getD .empty).Codable (Json.nestingLimit - 1)
  header : ∀ c ∈ calls, (c.header.getD .empty).Codable (headerLevels calls.length)

variable {calls : List SigningCall} {c : SigningCall} {s : SealedToken.Signature}

/-- The protected header is absent or has members. -/
theorem Protects.nonempty {given : Option Object} (h : Protects (Header.nonempty given) chosen) :
    Header.nonempty chosen = chosen := by
  cases h with
  | same => simp [Header.nonempty]
  | named name => exact Header.nonempty_of_contains (by simp : Object.contains _ "alg" = true)

theorem Protects.codable {levels : Nat} {given : Option Object}
    (h : Protects (Header.nonempty given) chosen) (hgiven : (given.getD .empty).Codable levels) :
    Header.Codable levels chosen := by
  refine ⟨h.nonempty, ?_⟩
  cases h with
  | same => rwa [Header.getD_nonempty]
  | named name =>
      rw [Header.getD_nonempty]
      exact hgiven.insert (Json.codable_str name)

/-- A token whose signatures were made here can be written with the headers they were given. -/
theorem Signed.writable {start : Jws} (h : Signed p start t payload calls)
    (hcodable : HeadersCodable calls) : Writable t where
  text s hs := by
    obtain ⟨c, hc, ⟨made⟩⟩ := exists_of_forall₂ h.made hs
    rw [made.text]
    exact Header.decode_encode (made.protects.codable (hcodable.protectedHeader c hc))
  own s hs := by
    obtain ⟨c, hc, ⟨made⟩⟩ := exists_of_forall₂ h.made hs
    rw [made.header, ← h.made.length_eq]
    refine ⟨by simp [Header.nonempty], ?_⟩
    rw [Header.getD_nonempty, Header.getD_nonempty]
    exact hcodable.header c hc
  mode := h.mode

/-- A verification that accepts a signature succeeds, marks that signature valid and releases
the payload. -/
theorem verify_of_accepts {keys : KeySource} {alg : Option String} {i : Nat}
    (hheld : t.held = some payload) (hi : t.signatures[i]? = some s)
    (haccepts : Accepts p t.options payload keys alg s) :
    ∃ after, t.verify p keys alg none = (.ok (), after) ∧
      after.signatures[i]? = some { s with state := .valid } ∧ after.payload? = some payload := by
  have hmem := List.mem_of_getElem? hi
  have hverify := verify_eq_verifyAll p keys alg
    (show (none <|> t.held) = some payload from hheld) (List.ne_nil_of_mem hmem)
  have hok : (t.verify p keys alg none).1 = .ok () := by
    rw [hverify]
    exact verifyAll_eq_ok.2 ⟨s, hmem, haccepts⟩
  obtain ⟨after, hafter⟩ := exists_eq_of_fst hok
  obtain rfl : (t.verify p keys alg none).2 = after := by rw [hafter]
  refine ⟨_, hafter, ?_, ?_⟩
  · rw [hverify, verifyAll_signatures, List.getElem?_map]
    dsimp only
    rw [hi, Option.map_some, verifyOne_eq_ok.2 haccepts]
    rfl
  · rw [hverify] at hok ⊢
    rw [payload?, (verifyAll_trusted rfl).2 hok, if_pos rfl, verifyAll_held]

/-- The header that a call has merged is the one at its place. -/
theorem Made.headerAt {i : Nat} (made : Made p t.options payload c s)
    (hi : t.signatures[i]? = some s) : t.headerAt i = .ok made.merged := by
  rw [Jws.headerAt, hi]
  exact made.merges

/-- What is read again of a signature was made by the same call. -/
def Made.reread (made : Made p options payload c s) : Made p options payload c (reread s) :=
  have hheader : Header.nonempty s.header = s.header := by
    rw [made.header]
    simp [Header.nonempty]
  { made with
    merges := by
      show options.registry.merge s.protectedHeader [Header.nonempty s.header] = .ok made.merged
      rw [hheader]
      exact made.merges
    header := hheader.trans made.header }

/-- Let signatures be added to a token one after the other, with any keys and headers. When
it is written in either form, the text is read as a token that the key of each of these
calls verifies, or its public part: that signature is marked valid and the payload is
released, if the identifier of the key in the merged header, which signing does not look
at, is a string where there is one. -/
theorem every_signature_verifies {compact : Bool} {text : String} {i : Nat} {key : Jwk}
    (hrun : (draft payload options).addAll p calls = .ok t)
    (hwritten : t.serialize compact = .ok text) (hcodable : HeadersCodable calls)
    (hcall : calls[i]? = some c) (hfor : key.VerifiesFor c.key)
    (hpermits : key.permits .verify = true)
    (hkid : ∀ header, t.headerAt i = .ok header → ∃ kid, Header.text? header "kid" = .ok kid)
    (haccepts : ∀ header, t.headerAt i = .ok header → ∀ a : SigningAlgorithm,
      header.find? "alg" = some (.str a.name) → a.AcceptsOwn p c.key) :
    ∃ read, deserialize text = .ok read ∧ ∃ after s,
      Jws.verify p { read with options } (.single key) none none = (.ok (), after) ∧
        after.signatures[i]? = some s ∧ s.state = .valid ∧ after.payload? = some payload := by
  have h : Signed p (draft payload options) t payload calls := signed_draft.addAll hrun
  have hread := deserialize_serialize_of_held (h.writable hcodable) h.held hwritten
  -- the signature at this place was made by the call at this place
  have hi : i < calls.length := (List.getElem?_eq_some_iff.1 hcall).1
  have hi' : i < t.signatures.length := h.made.length_eq ▸ hi
  have hmade : Nonempty (Made p options payload c t.signatures[i]) := by
    have hmade := h.made.get hi hi'
    rwa [List.get_eq_getElem, List.get_eq_getElem, (List.getElem?_eq_some_iff.1 hcall).2] at hmade
  obtain ⟨made⟩ := hmade
  have hheader : t.headerAt i = .ok made.merged := by
    have hoptions : options = t.options := h.options_eq.symm
    subst hoptions
    exact made.headerAt (List.getElem?_eq_getElem hi')
  obtain ⟨kid, hkid⟩ := hkid _ hheader
  have halg : made.merged.find? "alg" = some (.str made.algorithm.name) := by
    rw [made.named, SigningAlgorithm.name_of_lookup made.registered]
  refine ⟨_, hread, ?_⟩
  have hfound : (t.signatures.map reread)[i]? = some (reread t.signatures[i]) := by
    rw [List.getElem?_map, List.getElem?_eq_getElem hi']
    rfl
  obtain ⟨after, hverify, hafter, hpayload⟩ :=
    verify_of_accepts (t := { t.rereadToken (some payload) with options }) rfl hfound
      (made.reread.accepts hkid hfor hpermits (haccepts _ hheader _ halg))
  exact ⟨after, _, hverify, hafter, rfl, hpayload⟩

/-! ### Two signatures over a text -/

/-- The payload is signed as it is. -/
def unencodedHeader : Object :=
  .ofMembers [("b64", .bool false), ("crit", .arr [.str "b64"])]

def macHeader : Object :=
  .ofMembers [("alg", .str (SigningAlgorithm.hmac .sha256).name), ("kid", .str "second")]

def macOptions : JwsOptions where
  allowed := some [(SigningAlgorithm.hmac .sha256).name]

/-- A signature whose algorithm is given with the call, and one whose algorithm stands in the
unprotected header. -/
def twoCalls : List SigningCall :=
  [⟨.ofSeed .empty, .ofOctets "first".toUTF8, some (SigningAlgorithm.hmac .sha256).name,
      some unencodedHeader, none⟩,
    ⟨.ofSeed .empty, .ofOctets "second".toUTF8, none, some unencodedHeader, some macHeader⟩]

/-- The key of the second signature verifies what was written of both. -/
theorem second_signature_verifies :
    ∃ t text read, (draft "a.b".toUTF8 macOptions).addAll .standard twoCalls = .ok t ∧
      t.serialize false = .ok text ∧ deserialize text = .ok read ∧ ∃ after s,
        Jws.verify .standard { read with options := macOptions }
            (.single (.ofOctets "second".toUTF8)) none none = (.ok (), after) ∧
          after.signatures[1]? = some s ∧ s.state = .valid ∧
          after.payload? = some "a.b".toUTF8 := by
  have hwritten : ((draft "a.b".toUTF8 macOptions).addAll .standard twoCalls >>= fun t =>
      t.serialize false).isOk = true := by
    decide +kernel
  obtain ⟨text, hwritten⟩ := isOk_iff.1 hwritten
  obtain ⟨t, hrun, hwritten⟩ := bind_eq_ok.1 hwritten
  have hheader : t.headerAt 1 = .ok (unencodedHeader.union macHeader) := by
    have hheader : ((draft "a.b".toUTF8 macOptions).addAll .standard twoCalls >>= fun t =>
        t.headerAt 1) = .ok (unencodedHeader.union macHeader) :=
      toOption_eq_some.1 (by decide +kernel)
    rwa [hrun] at hheader
  have hcodable : HeadersCodable twoCalls := by
    have hunencoded : unencodedHeader.Codable (Json.nestingLimit - 1) :=
      (Object.codable_empty.insert ⟨.bool false, rfl⟩).insert
        ⟨.arr (by simp [Json.Readable.str]), rfl⟩
    have hmac : macHeader.Codable (headerLevels twoCalls.length) :=
      (Object.codable_empty.insert (Json.codable_str _)).insert (Json.codable_str _)
    constructor <;> simp only [twoCalls, List.forall_mem_cons]
    · exact ⟨hunencoded, hunencoded, by simp⟩
    · exact ⟨Object.codable_empty, hmac, by simp⟩
  have hkid (header) (h : t.headerAt 1 = .ok header) :
      ∃ kid, Header.text? header "kid" = .ok kid := by
    obtain rfl := Except.ok.inj (hheader.symm.trans h)
    exact ⟨some "second", Header.text?_eq_ok_some.2 (by decide +kernel)⟩
  have haccepts (header) (h : t.headerAt 1 = .ok header) (a : SigningAlgorithm)
      (ha : header.find? "alg" = some (.str a.name)) :
      a.AcceptsOwn .standard (.ofOctets "second".toUTF8) := by
    obtain rfl := Except.ok.inj (hheader.symm.trans h)
    have halg : (unencodedHeader.union macHeader).find? "alg" =
        some (.str (SigningAlgorithm.hmac .sha256).name) := by
      decide +kernel
    rw [halg, Option.some.injEq, Json.str.injEq] at ha
    rw [← SigningAlgorithm.name_injective ha]
    trivial
  obtain ⟨read, hread, hverified⟩ := every_signature_verifies hrun hwritten hcodable rfl
    (.inl rfl) rfl hkid haccepts
  exact ⟨t, text, read, hrun, hwritten, hread, hverified⟩

/-! ### An identifier that is a number -/

/-- A call that signs without a key, under an identifier that is a number. -/
def numberedCall : SigningCall where
  rng := .ofSeed .empty
  key := emptySecret
  alg := some SigningAlgorithm.unsecured.name
  protectedHeader := some (.ofMembers [("kid", .int 1)])
  header := none

/-- What it has signed. -/
def numberedToken : Jws where
  held := some "hi".toUTF8
  trusted := false
  signatures := [
    { protectedHeader := some (.ofMembers
        [("alg", .str SigningAlgorithm.unsecured.name), ("kid", .int 1)])
      protectedText := "eyJhbGciOiJub25lIiwia2lkIjoxfQ"
      header := none
      bytes := .empty }]

/-- A call that signs takes any identifier of a key, and a verification of what it has
signed does not, though there is no other key to tell it from. -/
theorem numbered_signature_refused :
    ∃ t text read after,
      (draft "hi".toUTF8 { allowed := some [SigningAlgorithm.unsecured.name] }).addAll .standard
          [numberedCall] = .ok t ∧
        t.serialize true = .ok text ∧ HeadersCodable [numberedCall] ∧
        emptySecret.permits .verify = true ∧
        (∀ a : SigningAlgorithm, a.name = SigningAlgorithm.unsecured.name →
          a.AcceptsOwn .standard emptySecret) ∧
        deserialize text = .ok read ∧
        Jws.verify .standard
            { read with options := { allowed := some [SigningAlgorithm.unsecured.name] } }
            (.single emptySecret) none none =
          (.error (.invalidFormat (.headerNotString "kid")), after) ∧
        after.payload? = none ∧ after.signatures.map (·.state) = [.invalid] := by
  let options : JwsOptions := { allowed := some [SigningAlgorithm.unsecured.name] }
  have hwritten : ((draft "hi".toUTF8 options).addAll .standard [numberedCall] >>= fun t =>
      t.serialize true) = .ok "eyJhbGciOiJub25lIiwia2lkIjoxfQ.aGk." :=
    toOption_eq_some.1 (by decide +kernel)
  obtain ⟨t, hrun, hwritten⟩ := bind_eq_ok.1 hwritten
  have hread : deserialize "eyJhbGciOiJub25lIiwia2lkIjoxfQ.aGk." = .ok numberedToken :=
    toOption_eq_some.1 (by decide +kernel)
  have hrefused : (Jws.verify .standard { numberedToken with options } (.single emptySecret) none
      none).1 = .error (.invalidFormat (.headerNotString "kid")) := by
    decide +kernel
  refine ⟨t, _, numberedToken, _, hrun, hwritten, ?_, rfl, ?_, hread, Prod.ext hrefused rfl,
    by decide +kernel, by decide +kernel⟩
  · constructor <;> simp only [List.forall_mem_singleton]
    · exact Object.codable_empty.insert (Json.codable_int (by decide) (by decide))
    · exact Object.codable_empty
  · intro a ha
    rw [SigningAlgorithm.name_injective ha]
    trivial

end SealedToken.Jws
