import SealedToken.Proofs.Bytes
import SealedToken.Proofs.Header.Rereading
import SealedToken.Proofs.Jws.Signing

/-!
What is signed tells the header and the payload. The written header is made of digits, so it
ends at the first dot, and it tells the mode in which the payload stands behind the dot. The
header that a signature is made with is told too, but it may hold floats that are not read as
themselves.
-/

namespace SealedToken.Jws

variable {header : Option Object} {s s' : SealedToken.Signature} {raw : String} {t : Jws}

/-! ### The mode of a header that is read again -/

theorem listsCritical_reread (o : Object) (name : String) :
    listsCritical o.reread name = listsCritical o name := by
  unfold listsCritical
  rw [Object.find?_reread]
  cases o.find? "crit" with
  | none => rfl
  | some v =>
      cases v with
      | arr names =>
          rw [Option.map_some, Json.reread, Json.rereadItems_eq_map, Bool.eq_iff_iff]
          simp
      | _ => rfl

/-- Reading a header again leaves its mode. -/
theorem payloadEncoded_reread :
    payloadEncoded (Header.reread header) .empty = payloadEncoded header .empty := by
  cases header with
  | none => rfl
  | some o =>
      simp only [payloadEncoded, Header.reread, Option.map_some, Option.bind_some,
        Object.find?_reread, Option.any_some, listsCritical_reread]
      cases o.find? "b64" with
      | none => rfl
      | some v => cases v <;> rfl

/-! ### Where signatures come from -/

inductive Origin
  | read
  | made

/-- The ways in which signatures come about: they are read with a token, or made with a
protected header whose values are such as programs hold. -/
inductive Produced : Origin → SealedToken.Signature → Prop
  | read {raw : String} {t : Jws} {s : SealedToken.Signature} (h : deserialize raw = .ok t)
      (hs : s ∈ t.signatures) : Produced .read s
  | made {p : Primitives} {t after : Jws} {c : SigningCall} {s : SealedToken.Signature}
      (hproper : Header.Proper c.protectedHeader)
      (h : t.addSignature p c.rng c.key c.alg c.protectedHeader c.header = .ok after)
      (hs : after.signatures = t.signatures ++ [s]) : Produced .made s

/-- The protected header that is read of what is written, by that of the entry. -/
def Origin.asRead : Origin → Option Object → Option Object
  | .read, header => header
  | .made, header => Header.reread header

theorem decode_of_readSignature {protectedText bytesText : String}
    (h : readSignature protectedText header bytesText = .ok s) :
    Header.decode s.protectedText = .ok s.protectedHeader := by
  simp only [readSignature, bind_eq_ok, pure_eq_ok, Except.ok.injEq] at h
  obtain ⟨protectedHeader, hdecode, bytes, -, rfl⟩ := h
  exact hdecode

/-- A signature that was read has the header that its text is read as. -/
theorem decode_of_deserialize (h : deserialize raw = .ok t) (hs : s ∈ t.signatures) :
    Header.decode s.protectedText = .ok s.protectedHeader := by
  obtain ⟨held, signatures, hread, -, rfl⟩ := deserialize_eq_ok.1 h
  split at hread
  · unfold readJson at hread
    split at hread
    · simp at hread
    · obtain ⟨⟨payload, written⟩, -, hread⟩ := bind_eq_ok.1 hread
      obtain ⟨found, hfound, hread⟩ := bind_eq_ok.1 hread
      obtain rfl : found = signatures := by
        split at hread
        · simp at hread
        · split at hread
          · exact (Prod.mk.inj (Except.ok.inj hread)).2
          · obtain ⟨bytes, -, hread⟩ := bind_eq_ok.1 hread
            exact (Prod.mk.inj (Except.ok.inj hread)).2
      obtain ⟨w, -, hw⟩ := exists_of_mapM_eq_ok hfound hs
      exact decode_of_readSignature hw
  · obtain ⟨_, _, _, found, _, -, hfound, -, -, rfl⟩ := segments_of_readCompact hread
    obtain rfl := List.mem_singleton.1 hs
    exact decode_of_readSignature hfound

theorem Protects.proper {given chosen : Option Object}
    (h : Protects (Header.nonempty given) chosen) (hgiven : Header.Proper given) :
    Header.Proper chosen := by
  cases h with
  | same => rwa [Header.Proper, Header.getD_nonempty]
  | named name =>
      rw [Header.Proper, Option.getD_some, Header.getD_nonempty]
      exact hgiven.insert (.str name)

/-- A signature that was made has the text that is written for its header. -/
theorem Produced.written (h : Produced .made s) :
    s.protectedText = Header.encode s.protectedHeader ∧
      Header.nonempty s.protectedHeader = s.protectedHeader ∧ Header.Proper s.protectedHeader := by
  cases h with
  | @made p t after c _ hproper h hs =>
      obtain ⟨payload, hheld⟩ := exists_held_of_addSignature h
      obtain ⟨s', made, -, rfl⟩ := addSignature_made hheld h
      obtain rfl : s' = s := by simpa using hs
      exact ⟨made.text, made.protects.nonempty, made.protects.proper hproper⟩

/-- In each way a signature comes about with a header whose values are such as programs hold,
so what is asked of the header in the second way, the headers of the first have. -/
theorem Produced.proper {o : Origin} (h : Produced o s) : Header.Proper s.protectedHeader := by
  cases h with
  | read h hs => exact Header.proper_of_decode (decode_of_deserialize h hs)
  | made hproper h hs => exact (Produced.made hproper h hs).written.2.2

variable {o o' : Origin}

/-- The written header is made of digits. -/
theorem Produced.digits (h : Produced o s) : Base64Url.Digits s.protectedText := by
  cases h with
  | read h hs => exact Header.digits_of_decode (decode_of_deserialize h hs)
  | made hproper h hs =>
      rw [(Produced.made hproper h hs).written.1]
      exact Header.digits_encode _

/-- The written header tells the header of signatures that come about in one way. -/
theorem Produced.header_eq (h : Produced o s) (h' : Produced o s')
    (htext : s.protectedText = s'.protectedText) : s.protectedHeader = s'.protectedHeader := by
  cases o with
  | read =>
      cases h with
      | read h hs =>
          cases h' with
          | read h' hs' =>
              have hdecode := decode_of_deserialize h hs
              rw [htext, decode_of_deserialize h' hs'] at hdecode
              exact (Except.ok.inj hdecode).symm
  | made =>
      obtain ⟨hwritten, hnonempty, hproper⟩ := h.written
      obtain ⟨hwritten', hnonempty', hproper'⟩ := h'.written
      exact Header.encode_injective hnonempty hnonempty' hproper hproper'
        (hwritten.symm.trans (htext.trans hwritten'))

/-- What is read of a header that was made is the one that was read. -/
theorem Produced.reread_eq (h : Produced .made s) (h' : Produced .read s')
    (htext : s.protectedText = s'.protectedText) :
    Header.reread s.protectedHeader = s'.protectedHeader := by
  obtain ⟨hwritten, hnonempty, hproper⟩ := h.written
  cases h' with
  | read h' hs' =>
      have hdecode := decode_of_deserialize h' hs'
      rw [← htext, hwritten] at hdecode
      exact (Header.eq_reread_of_decode_encode hnonempty hproper hdecode).symm

theorem Produced.asRead_eq (h : Produced o s) (h' : Produced o' s')
    (htext : s.protectedText = s'.protectedText) :
    o.asRead s.protectedHeader = o'.asRead s'.protectedHeader := by
  cases o with
  | read =>
      cases o' with
      | read => exact h.header_eq h' htext
      | made => exact (h'.reread_eq h htext.symm).symm
  | made =>
      cases o' with
      | read => exact h.reread_eq h' htext
      | made => exact congrArg Header.reread (h.header_eq h' htext)

/-- The mode is that of the header as it is read. -/
theorem Origin.payloadEncoded_asRead :
    payloadEncoded (o.asRead header) .empty = payloadEncoded header .empty := by
  cases o with
  | read => rfl
  | made => exact payloadEncoded_reread

/-- Let two signatures have been read or made, and be over the same bytes, each over its own
payload in the mode that its protected header tells. Then the written headers are equal, and
the payloads and the modes. The headers are equal if both were read or both were made; what
is read of a header that was made is always the other one. -/
theorem signing_input_binds {payload payload' : ByteArray} {encoded encoded' : Bool}
    (h : Produced o s) (h' : Produced o' s')
    (hmode : Signature.payloadEncoded s = .ok encoded)
    (hmode' : Signature.payloadEncoded s' = .ok encoded')
    (hinput : signingInput s.protectedText payload encoded =
      signingInput s'.protectedText payload' encoded') :
    s.protectedText = s'.protectedText ∧
      (o = o' → s.protectedHeader = s'.protectedHeader) ∧
      o.asRead s.protectedHeader = o'.asRead s'.protectedHeader ∧
      encoded = encoded' ∧ payload = payload' := by
  obtain ⟨htext, hbody⟩ := Bytes.dotted_injective h.digits h'.digits hinput
  have hasRead := h.asRead_eq h' htext
  have hencoded : encoded = encoded' := by
    rw [Signature.payloadEncoded, ← Origin.payloadEncoded_asRead (o := o), hasRead,
      Origin.payloadEncoded_asRead] at hmode
    exact Except.ok.inj (hmode.symm.trans hmode')
  refine ⟨htext, ?_, hasRead, hencoded, ?_⟩
  · rintro rfl
    exact h.header_eq h' htext
  · subst hencoded
    cases encoded with
    | true => exact Base64Url.encode_injective (Utf8.toUTF8_injective hbody)
    | false => exact hbody

/-! ### A float that is read as another -/

/-- A number whose text is `1.0000000000000001e-24`. -/
def fraction : Binary64 := ⟨false, 5444517870735016, -132⟩

/-- What that text is read as. -/
def neighbour : Binary64 := ⟨false, 5444517870735015, -132⟩

/-- A call that signs without a key, under a header with a float. -/
def fractionCall : SigningCall where
  rng := .ofSeed .empty
  key := emptySecret
  alg := some SigningAlgorithm.unsecured.name
  protectedHeader := some (.ofMembers [("x", .num (.float fraction))])
  header := none

def unsecuredOptions : JwsOptions := { allowed := some [SigningAlgorithm.unsecured.name] }

/-- A signature without a key, under a header with a float. -/
def floatSignature (x : Binary64) : SealedToken.Signature where
  protectedHeader := some (.ofMembers
    [("alg", .str SigningAlgorithm.unsecured.name), ("x", .num (.float x))])
  protectedText := "eyJhbGciOiJub25lIiwieCI6MS4wMDAwMDAwMDAwMDAwMDAxZS0yNH0"
  header := none
  bytes := .empty

/-- What the call has signed. -/
theorem fraction_made : Produced .made (floatSignature fraction) := by
  have hproper : Header.Proper fractionCall.protectedHeader :=
    Object.proper_empty.insert (.num (.float {
      mantissa_lt := by decide
      least := by decide
      greatest := by decide
      full := by decide
      zero := by decide }))
  have hadd : ((draft "hi".toUTF8 unsecuredOptions).addSignature .standard fractionCall.rng
      fractionCall.key fractionCall.alg fractionCall.protectedHeader fractionCall.header) =
      .ok { draft "hi".toUTF8 unsecuredOptions with signatures := [floatSignature fraction] } :=
    toOption_eq_some.1 (by decide +kernel)
  exact .made hproper hadd rfl

/-- What is read of it. -/
theorem neighbour_read : Produced .read (floatSignature neighbour) := by
  have hread :
      deserialize "eyJhbGciOiJub25lIiwieCI6MS4wMDAwMDAwMDAwMDAwMDAxZS0yNH0.aGk." = .ok {
        held := some "hi".toUTF8
        trusted := false
        signatures := [floatSignature neighbour] } :=
    toOption_eq_some.1 (by decide +kernel)
  exact .read hread (by simp)

/-- Both are over the same bytes, and the header of the one is what is read of that of the
other. -/
theorem fraction_reread :
    signingInput (floatSignature fraction).protectedText "hi".toUTF8 true =
        signingInput (floatSignature neighbour).protectedText "hi".toUTF8 true ∧
      Header.reread (floatSignature fraction).protectedHeader =
        (floatSignature neighbour).protectedHeader := by
  have hinput : signingInput (floatSignature fraction).protectedText "hi".toUTF8 true =
      signingInput (floatSignature neighbour).protectedText "hi".toUTF8 true := rfl
  exact ⟨hinput, (signing_input_binds fraction_made neighbour_read rfl rfl hinput).2.2.1⟩

/-- Signatures that are over the same bytes need not have the same header, when the one was
made and the other was read. -/
theorem fraction_not_read_as_itself :
    Produced .made (floatSignature fraction) ∧ Produced .read (floatSignature neighbour) ∧
      Signature.payloadEncoded (floatSignature fraction) = .ok true ∧
      Signature.payloadEncoded (floatSignature neighbour) = .ok true ∧
      signingInput (floatSignature fraction).protectedText "hi".toUTF8 true =
        signingInput (floatSignature neighbour).protectedText "hi".toUTF8 true ∧
      (floatSignature fraction).protectedHeader ≠ (floatSignature neighbour).protectedHeader :=
  ⟨fraction_made, neighbour_read, rfl, rfl, rfl, by decide +kernel⟩

end SealedToken.Jws
