import SealedToken.Proofs.Header.Written
import SealedToken.Proofs.Jws.Release

/-!
Reading a signed token that was written. Every form gives back the payload and the
signatures; only what a verification has told is lost.
-/

namespace SealedToken

theorem Utf8.toUTF8_of_decode {bytes : ByteArray} {text : String} (h : decode bytes = .ok text) :
    text.toUTF8 = bytes := by
  unfold decode at h
  split at h
  · next found hfound =>
      obtain rfl := Except.ok.inj h
      unfold String.fromUTF8? at hfound
      split at hfound
      · obtain rfl := Option.some.inj hfound
        rfl
      · simp at hfound
  · simp at h

namespace Jws

variable {t : Jws} {s : SealedToken.Signature} {encoded compact : Bool} {levels : Nat}
  {members : Json.Record} {payload : Option String} {text : String}

/-! ### Written parts -/

/-- A signature as it is read again. An empty header counts as absent. -/
def reread (s : SealedToken.Signature) : SealedToken.Signature :=
  { s with header := Header.nonempty s.header, state := .signed }

def writtenSignature (s : SealedToken.Signature) : WrittenSignature where
  protectedText := s.protectedText
  header := Header.nonempty s.header
  bytesText := Base64Url.encode s.bytes

/-- The nesting that is left for the values of an unprotected header in the JSON form, by the
number of signatures: a single header is a member of the token itself, and one of several
is a member of an object in a list. -/
def headerLevels (count : Nat) : Nat :=
  if count = 1 then Json.nestingLimit - 2 else Json.nestingLimit - 4

/-- A token whose headers their written forms stand for, and whose signatures have one
mode. -/
structure Writable (t : Jws) : Prop where
  text : ∀ s ∈ t.signatures, Header.decode s.protectedText = .ok s.protectedHeader
  own : ∀ s ∈ t.signatures,
    Header.Codable (headerLevels t.signatures.length) (Header.nonempty s.header)
  mode : ∀ s ∈ t.signatures, Signature.payloadEncoded s = t.encodesPayload

theorem readSignature_written (h : Header.decode s.protectedText = .ok s.protectedHeader) :
    readSignature s.protectedText (Header.nonempty s.header) (Base64Url.encode s.bytes) =
      .ok (reread s) := by
  simp [readSignature, h, Header.decodeBytes_encode, reread]

theorem readSignatures_written (h : Writable t) :
    ((t.signatures.map writtenSignature).mapM fun w =>
      readSignature w.protectedText w.header w.bytesText) = .ok (t.signatures.map reread) := by
  rw [mapM_eq_ok, List.forall₂_map_left_iff, List.forall₂_map_right_iff, List.forall₂_same]
  exact fun s hs => readSignature_written (h.text s hs)

/-- A payload is read in the mode it was written in. -/
theorem readPayload_written (hmode : Signature.payloadEncoded s = .ok encoded)
    (htext : t.payloadText? encoded = .ok (some text)) :
    ∃ held, t.held = some held ∧ readPayload text s.protectedHeader = .ok held := by
  have hmode' : payloadEncoded s.protectedHeader .empty = .ok encoded := hmode
  unfold payloadText? at htext
  split at htext
  · simp at htext
  · next held hheld =>
      refine ⟨held, hheld, ?_⟩
      rw [readPayload, hmode', ok_bind]
      cases encoded with
      | true =>
          obtain rfl : Base64Url.encode held = text := by simpa using htext
          exact Header.decodeBytes_encode held
      | false =>
          rw [if_neg (by simp)] at htext
          split at htext
          · next found hfound =>
              obtain rfl : found = text := by simpa using htext
              exact congrArg Except.ok (Utf8.toUTF8_of_decode hfound)
          · simp at htext

theorem payloadText?_none (htext : t.payloadText? encoded = .ok none) : t.held = none := by
  unfold payloadText? at htext
  split at htext
  · assumption
  · split at htext
    · simp at htext
    · split at htext <;> simp at htext

/-! ### One mode -/

theorem checkModes_eq_ok {first : SealedToken.Signature} {signatures : List SealedToken.Signature}
    (hfirst : Signature.payloadEncoded first = .ok encoded)
    (h : ∀ s ∈ signatures, Signature.payloadEncoded s = .ok encoded) :
    checkModes first signatures = .ok () := by
  induction signatures with
  | nil => rfl
  | cons s rest ih =>
      rw [checkModes, h s (by simp), ok_bind, hfirst, ok_bind, if_pos rfl]
      exact ih fun s hs => h s (by simp [hs])

/-- What is read of the signatures has one mode. -/
theorem checkModes_reread (h : Writable t) (hmode : t.encodesPayload = .ok encoded)
    (first : SealedToken.Signature) (rest : List SealedToken.Signature)
    (hread : t.signatures.map reread = first :: rest) :
    checkModes first (first :: rest) = .ok () := by
  have hmodes : ∀ s ∈ t.signatures.map reread, Signature.payloadEncoded s = .ok encoded := by
    intro after hafter
    obtain ⟨s, hs, rfl⟩ := List.mem_map.1 hafter
    exact (h.mode s hs).trans hmode
  rw [hread] at hmodes
  exact checkModes_eq_ok (hmodes first (by simp)) hmodes

/-! ### The members of the JSON form -/

theorem ofRecord_signature
    (hfind : ∀ n ∈ signatureMemberNames, Json.Record.find? members n =
      (Json.Record.find? (signatureMembers s) n).map Json.canonical)
    (h : Header.Codable levels (Header.nonempty s.header)) :
    WrittenSignature.ofRecord members = .ok (writtenSignature s) := by
  have hprotected : members.withDefault Json.asString? "" "protected" = .ok s.protectedText := by
    refine Json.Record.withDefault_text ?_
    rw [hfind "protected" (by decide)]
    by_cases htext : s.protectedText = "" <;> simp [signatureMembers, htext, Json.canonical]
  have hheader : members.optional Json.asObject? "header" = .ok (Header.nonempty s.header) := by
    refine Header.optional_written ?_ h
    rw [hfind "header" (by decide)]
    simp [signatureMembers]
  have hbytes : members.required Json.asString? "signature" =
      .ok (Base64Url.encode s.bytes) := by
    refine Json.Record.required_eq_ok (.str _) ?_ rfl
    rw [hfind "signature" (by decide)]
    simp [signatureMembers, Json.ofBytes, Json.canonical]
  simp [WrittenSignature.ofRecord, hprotected, hheader, hbytes, writtenSignature]

theorem optional_payload
    (hfind : Json.Record.find? members "payload" = payload.map Json.str) :
    members.optional Json.asString? "payload" = .ok payload :=
  Json.Record.optional_eq_ok Json.str hfind fun _ _ => ⟨rfl, by simp⟩

theorem names_signatureMembers : ((signatureMembers s).map (·.1)).Sublist signatureMemberNames := by
  simp only [signatureMembers, List.map_append]
  exact (Json.names_textMember.append Json.names_optionMember).append (List.Sublist.refl _)

theorem readable_signatureMembers (h : Header.Codable levels (Header.nonempty s.header)) :
    ∀ m ∈ signatureMembers s, m.2.Readable (levels + 1) := by
  simp only [signatureMembers, List.forall_mem_append]
  exact ⟨⟨Json.readable_textMember, Header.readable_member h⟩,
    by simp [Json.ofBytes, Json.Readable.str]⟩

theorem readable_payload :
    ∀ m ∈ Json.optionMember "payload" Json.str payload, m.2.Readable levels :=
  Json.forall_mem_optionMember fun text _ => Json.Readable.str text

/-- The members of the JSON form with its only signature. -/
def flatMembers (s : SealedToken.Signature) (payload : Option String) : List (String × Json) :=
  Json.optionMember "payload" Json.str payload ++ signatureMembers s

theorem names_flatMembers :
    ((flatMembers s payload).map (·.1)).Sublist ("payload" :: signatureMemberNames) := by
  rw [flatMembers, List.map_append]
  exact Json.names_optionMember.append names_signatureMembers

/-- The members of the JSON form with its signatures in a list. -/
def listMembers (t : Jws) (payload : Option String) : List (String × Json) :=
  Json.optionMember "payload" Json.str payload ++
    [("signatures", .arr (t.signatures.map fun s => .obj (signatureMembers s)))]

theorem names_listMembers :
    ((t.listMembers payload).map (·.1)).Sublist ["payload", "signatures"] := by
  rw [listMembers, List.map_append]
  exact Json.names_optionMember.append (List.Sublist.refl _)

/-! ### The JSON form -/

/-- What is read of a text in the JSON form, once its members have been found. -/
theorem readJson_of_members (h : Writable t) (hne : t.signatures ≠ [])
    (hmode : t.encodesPayload = .ok encoded) (hpayload : t.payloadText? encoded = .ok payload)
    {o : Object} (ho : (Json.parse? text).bind Json.asObject? = some o)
    (hmembers : readMembers o = .ok (payload, t.signatures.map writtenSignature)) :
    readJson text = .ok (t.held, t.signatures.map reread) := by
  simp only [readJson, ho, hmembers, ok_bind, readSignatures_written h]
  cases hs : t.signatures with
  | nil => exact absurd hs hne
  | cons first rest =>
      cases payload with
      | none => simp [payloadText?_none hpayload]
      | some text =>
          have hfirst : Signature.payloadEncoded (reread first) = .ok encoded :=
            (h.mode first (by simp [hs])).trans hmode
          obtain ⟨held, hheld, hread⟩ := readPayload_written hfirst hpayload
          simp [hread, hheld]

theorem Writable.own_flat (h : Writable t) (hs : t.signatures = [s]) :
    Header.Codable (Json.nestingLimit - 2) (Header.nonempty s.header) := by
  have hown := h.own s (by simp [hs])
  rwa [hs] at hown

theorem exists_flatObject (payload : Option String)
    (hown : Header.Codable (Json.nestingLimit - 2) (Header.nonempty s.header)) :
    ∃ o : Object, (Json.parse? (Json.obj (flatMembers s payload)).print).bind Json.asObject? =
        some o ∧
      ∀ n, o.find? n = (Json.Record.find? (flatMembers s payload) n).map Json.canonical :=
  Object.exists_of_print
    (.obj (List.forall_mem_append.2 ⟨readable_payload, readable_signatureMembers hown⟩))
    (Json.distinct_of_sublist names_flatMembers (by decide))

theorem readMembers_flat (h : Writable t) (hs : t.signatures = [s]) {o : Object}
    (hfind : ∀ n, o.find? n = (Json.Record.find? (flatMembers s payload) n).map Json.canonical) :
    readMembers o = .ok (payload, t.signatures.map writtenSignature) := by
  have hsingle : o.contains "signatures" = false := by
    rw [Object.contains_eq_false_iff, hfind, Json.find?_eq_none names_flatMembers (by decide)]
    rfl
  have hpayload : Json.Record.optional o.members Json.asString? "payload" = .ok payload := by
    refine optional_payload ((hfind "payload").trans ?_)
    rw [flatMembers, Json.Record.find?_append,
      Json.find?_eq_none names_signatureMembers (by decide), Option.or_none,
      Json.Record.find?_optionMember, if_pos rfl]
    cases payload <;> rfl
  have hsignature : WrittenSignature.ofRecord o.members = .ok (writtenSignature s) := by
    refine ofRecord_signature (fun n hn => (hfind n).trans ?_) (h.own_flat hs)
    have hother : "payload" ≠ n := by
      revert n
      decide
    rw [flatMembers, Json.Record.find?_append, Json.Record.find?_optionMember, if_neg hother,
      Option.none_or]
  rw [readMembers, hsingle, if_neg (by simp), hpayload, ok_bind, hsignature, hs]
  rfl

theorem ofJson_signature (h : Header.Codable levels (Header.nonempty s.header)) :
    WrittenSignature.ofJson (Json.obj (signatureMembers s)).canonical =
      .ok (writtenSignature s) := by
  have hdistinct := Json.distinct_of_sublist (@names_signatureMembers s) (by decide)
  rw [Json.canonical, WrittenSignature.ofJson, Object.toJson, Json.Record.ofJson, pure_eq_ok,
    ok_bind]
  refine ofRecord_signature (fun n hn => ?_) h
  rw [Json.Record.find?_filter (List.contains_iff_mem.2 hn)]
  exact Json.find?_canonical hdistinct

theorem Writable.own_list (h : Writable t) (hs : ∀ s, t.signatures ≠ [s]) :
    ∀ s ∈ t.signatures, Header.Codable (Json.nestingLimit - 4) (Header.nonempty s.header) := by
  have hlevels : headerLevels t.signatures.length = Json.nestingLimit - 4 := by
    refine if_neg fun hlength => ?_
    obtain ⟨s, hsingle⟩ := List.length_eq_one_iff.1 hlength
    exact hs s hsingle
  exact fun s hmem => hlevels ▸ h.own s hmem

theorem exists_listObject (payload : Option String)
    (hown : ∀ s ∈ t.signatures, Header.Codable (Json.nestingLimit - 4) (Header.nonempty s.header)) :
    ∃ o : Object, (Json.parse? (Json.obj (t.listMembers payload)).print).bind Json.asObject? =
        some o ∧
      ∀ n, o.find? n = (Json.Record.find? (t.listMembers payload) n).map Json.canonical := by
  have hlist : (Json.arr (t.signatures.map fun s => .obj (signatureMembers s))).Readable
      (Json.nestingLimit - 1) := by
    refine .arr fun item hitem => ?_
    obtain ⟨s, hmem, rfl⟩ := List.mem_map.1 hitem
    exact .obj (readable_signatureMembers (hown s hmem))
  exact Object.exists_of_print
    (.obj (List.forall_mem_append.2 ⟨readable_payload, List.forall_mem_singleton.2 hlist⟩))
    (Json.distinct_of_sublist names_listMembers (by decide))

theorem readMembers_list (h : Writable t) (hs : ∀ s, t.signatures ≠ [s]) {o : Object}
    (hfind : ∀ n, o.find? n = (Json.Record.find? (t.listMembers payload) n).map Json.canonical) :
    readMembers o = .ok (payload, t.signatures.map writtenSignature) := by
  have hpayload : Json.Record.optional o.members Json.asString? "payload" = .ok payload := by
    refine optional_payload ((hfind "payload").trans ?_)
    rw [listMembers, Json.Record.find?_append, Json.Record.find?_optionMember, if_pos rfl]
    cases payload <;> rfl
  have hsignatures : o.find? "signatures" = some (.arr (t.signatures.map fun s =>
      (Json.obj (signatureMembers s)).canonical)) := by
    rw [hfind, listMembers, Json.Record.find?_append, Json.Record.find?_optionMember,
      if_neg (by decide)]
    simp [Json.canonical, Json.canonicalItems_eq_map, Function.comp_def]
  have hother : o.contains "signature" = false := by
    rw [Object.contains_eq_false_iff, hfind, Json.find?_eq_none names_listMembers (by decide)]
    rfl
  have hitems : Json.Record.required o.members Json.asItems? "signatures" =
      .ok (t.signatures.map fun s => (Json.obj (signatureMembers s)).canonical) :=
    Json.Record.required_eq_ok _ hsignatures rfl
  have hread : (t.signatures.map fun s => (Json.obj (signatureMembers s)).canonical).mapM
      WrittenSignature.ofJson = .ok (t.signatures.map writtenSignature) := by
    rw [mapM_eq_ok, List.forall₂_map_left_iff, List.forall₂_map_right_iff, List.forall₂_same]
    exact fun s hmem => ofJson_signature (h.own_list hs s hmem)
  rw [readMembers, if_pos (Object.contains_iff.2 ⟨_, hsignatures⟩), hother, if_neg (by simp),
    hpayload, ok_bind, hitems, ok_bind, hread]
  rfl

/-- The names of the members of either JSON form. -/
def memberNames : List String := "payload" :: "signatures" :: signatureMemberNames

/-- The JSON form is that of an object, whose members have these names and give the payload
and the signatures. -/
theorem exists_object_of_jsonText (h : Writable t) (htext : t.jsonText payload = .ok text) :
    t.signatures ≠ [] ∧ Text.trim text = text ∧ Json.startsObject text = true ∧
      ∃ o : Object, (Json.parse? text).bind Json.asObject? = some o ∧
        readMembers o = .ok (payload, t.signatures.map writtenSignature) ∧
        ∀ n, n ∉ memberNames → o.contains n = false := by
  unfold jsonText at htext
  split at htext
  · simp at htext
  · next s hs =>
      obtain rfl := Except.ok.inj htext
      obtain ⟨o, ho, hfind⟩ := exists_flatObject payload (h.own_flat hs)
      refine ⟨by simp [hs], Json.trim_print_obj, Json.startsObject_print_obj, o, ho,
        readMembers_flat h hs hfind, fun n hn => ?_⟩
      simp only [memberNames, List.mem_cons, not_or] at hn
      have hnot : n ∉ "payload" :: signatureMemberNames :=
        List.not_mem_cons_of_ne_of_not_mem hn.1 (by simpa [signatureMemberNames] using hn.2.2)
      rw [Object.contains_eq_false_iff, hfind, Json.find?_eq_none names_flatMembers hnot]
      rfl
  · next hnil hsingle =>
      obtain rfl := Except.ok.inj htext
      obtain ⟨o, ho, hfind⟩ := exists_listObject payload (h.own_list hsingle)
      refine ⟨hnil, Json.trim_print_obj, Json.startsObject_print_obj, o, ho,
        readMembers_list h hsingle hfind, fun n hn => ?_⟩
      simp only [memberNames, List.mem_cons, not_or] at hn
      have hnot : n ∉ ["payload", "signatures"] := by simp [hn.1, hn.2.1]
      rw [Object.contains_eq_false_iff, hfind, Json.find?_eq_none names_listMembers hnot]
      rfl

/-- Reading the JSON form gives the payload and the signatures that were written. -/
theorem readJson_jsonText (h : Writable t) (hmode : t.encodesPayload = .ok encoded)
    (hpayload : t.payloadText? encoded = .ok payload) (htext : t.jsonText payload = .ok text) :
    Text.trim text = text ∧ Json.startsObject text = true ∧
      readJson text = .ok (t.held, t.signatures.map reread) := by
  obtain ⟨hne, htrim, hobject, o, ho, hmembers, -⟩ := exists_object_of_jsonText h htext
  exact ⟨htrim, hobject, readJson_of_members h hne hmode hpayload ho hmembers⟩

/-! ### The compact form -/

/-- A signature that stands in a compact token has no unprotected header, and a text for the
protected one. -/
theorem checkCompact_eq_ok (htext : Header.decode s.protectedText = .ok s.protectedHeader)
    (h : checkCompact s = .ok ()) : Header.nonempty s.header = none ∧ s.protectedText ≠ "" := by
  obtain ⟨hheader, h⟩ := ite_error_eq_ok.1 h
  obtain ⟨halg, -⟩ := ite_error_eq_ok.1 h
  refine ⟨by simpa using hheader, fun hempty => ?_⟩
  rw [hempty] at htext
  obtain hnone : none = s.protectedHeader := Except.ok.inj htext
  simp [← hnone] at halg

/-- A payload stands between two dots when it has none of its own. -/
theorem dotless_payload (hpayload : t.payloadText? encoded = .ok payload)
    (hdot : (!encoded && (payload.getD "").toList.contains '.') = false) :
    '.' ∉ (payload.getD "").toList := by
  intro hmem
  cases encoded with
  | false => simp [hmem] at hdot
  | true =>
      unfold payloadText? at hpayload
      split at hpayload
      · obtain rfl := Except.ok.inj hpayload
        simp at hmem
      · obtain rfl := Except.ok.inj hpayload
        exact (Base64Url.isDigit_of_mem_encode _ hmem).not_special.2.1 rfl

/-- In the compact form nothing is written for a payload that is transported separately. -/
theorem readPayload_getD (hmode : Signature.payloadEncoded s = .ok encoded)
    (hpayload : t.payloadText? encoded = .ok payload) :
    readPayload (payload.getD "") s.protectedHeader = .ok (t.held.getD .empty) := by
  cases payload with
  | some text =>
      obtain ⟨held, hheld, hread⟩ := readPayload_written hmode hpayload
      rw [hheld]
      exact hread
  | none =>
      have hmode' : payloadEncoded s.protectedHeader .empty = .ok encoded := hmode
      rw [payloadText?_none hpayload, readPayload, hmode', ok_bind]
      cases encoded <;> rfl

theorem toList_joinSegments (a b c : String) :
    (Text.joinSegments [a, b, c]).toList = a.toList ++ '.' :: (b.toList ++ '.' :: c.toList) := by
  simp [Text.joinSegments, show ".".toList = ['.'] from rfl]

/-- What begins with digits and ends with a dot and digits has no white space at its ends,
and is no object. -/
theorem trim_joinSegments {a b c : String} (ha : a ≠ "") (hdigits : Base64Url.Digits a)
    (hlast : Base64Url.Digits c) :
    Text.trim (Text.joinSegments [a, b, c]) = Text.joinSegments [a, b, c] ∧
      Json.startsObject (Text.joinSegments [a, b, c]) = false := by
  have hhead (d) (hd : (Text.joinSegments [a, b, c]).toList.head? = some d) :
      Base64Url.IsDigit d := by
    rw [toList_joinSegments, List.head?_append_of_ne_nil _ (by simpa using ha)] at hd
    exact hdigits d (List.mem_of_head? hd)
  have hend (d) (hd : (Text.joinSegments [a, b, c]).toList.getLast? = some d) :
      Text.isBlank d = false := by
    have hsplit : a.toList ++ '.' :: (b.toList ++ '.' :: c.toList) =
        (a.toList ++ '.' :: b.toList) ++ '.' :: c.toList := by
      simp
    rw [toList_joinSegments, hsplit, List.getLast?_append_of_ne_nil _ (by simp)] at hd
    rcases List.mem_cons.1 (List.mem_of_getLast? hd) with rfl | hmem
    · rfl
    · exact (hlast d hmem).not_special.1
  refine ⟨Text.trim_eq_self (fun d hd => (hhead d hd).not_special.1) hend, ?_⟩
  rw [Json.startsObject, beq_eq_false_iff_ne]
  exact fun hbrace => (hhead _ hbrace).not_special.2.2 rfl

/-- Reading the compact form gives the payload, which is empty if it is transported
separately, and the signature that was written. -/
theorem readCompact_compactText (h : Writable t) (hmode : t.encodesPayload = .ok encoded)
    (hpayload : t.payloadText? encoded = .ok payload)
    (htext : t.compactText encoded payload = .ok text) :
    Text.trim text = text ∧ Json.startsObject text = false ∧
      readCompact text = .ok (some (t.held.getD .empty), t.signatures.map reread) := by
  unfold compactText at htext
  split at htext
  · next s hs =>
      obtain ⟨hcompact, htext⟩ := seq_eq_ok.1 htext
      obtain ⟨hdot, htext⟩ := ite_error_eq_ok.1 htext
      obtain rfl := Except.ok.inj htext
      have hmem : s ∈ t.signatures := by simp [hs]
      have hprotected := h.text s hmem
      obtain ⟨hheader, hne⟩ := checkCompact_eq_ok hprotected hcompact
      have hdigits := Header.digits_of_decode hprotected
      have hbytes := Base64Url.digits_encode s.bytes
      have hdotless : ∀ part ∈ [s.protectedText, payload.getD "", Base64Url.encode s.bytes],
          '.' ∉ part.toList := by
        simp only [List.forall_mem_cons]
        exact ⟨fun hmem => (hdigits _ hmem).not_special.2.1 rfl,
          dotless_payload hpayload (by simpa using hdot),
          fun hmem => (hbytes _ hmem).not_special.2.1 rfl, by simp⟩
      have hsignature := readSignature_written hprotected
      rw [hheader] at hsignature
      have hread := readPayload_getD ((h.mode s hmem).trans hmode) hpayload
      obtain ⟨htrim, hobject⟩ := trim_joinSegments hne hdigits hbytes
      refine ⟨htrim, hobject, ?_⟩
      rw [readCompact, Text.segments_joinSegments (by simp) hdotless]
      dsimp only
      rw [hsignature, ok_bind, show (reread s).protectedHeader = s.protectedHeader from rfl, hread,
        hs]
      rfl
  · simp at htext

/-! ### Either way -/

/-- What a written token is read as: what was written, with nothing verified. -/
def rereadToken (t : Jws) (held : Option ByteArray) : Jws :=
  { held, trusted := false, signatures := t.signatures.map reread }

/-- Reading what was written gives the signatures and the payload. In the compact form a
payload that is transported separately is read as an empty one. -/
theorem deserialize_serialize (h : Writable t) (hwritten : t.serialize compact = .ok text) :
    deserialize text = .ok (t.rereadToken
      (if compact then some (t.held.getD .empty) else t.held)) := by
  obtain ⟨encoded, hmode, hwritten⟩ := bind_eq_ok.1 hwritten
  obtain ⟨payload, hpayload, hwritten⟩ := bind_eq_ok.1 hwritten
  refine deserialize_eq_ok.2 ⟨_, _, ?_, fun first rest hread => ?_, rfl⟩
  · cases compact with
    | true =>
        obtain ⟨htrim, hobject, hread⟩ := readCompact_compactText h hmode hpayload hwritten
        rw [htrim, hobject, if_neg (by simp), hread]
        rfl
    | false =>
        obtain ⟨htrim, hobject, hread⟩ := readJson_jsonText h hmode hpayload hwritten
        rw [htrim, if_pos hobject, hread]
        rfl
  · rw [hread]
    exact checkModes_reread h hmode first rest hread

/-- A payload that is held is read in either form. -/
theorem deserialize_serialize_of_held {payload : ByteArray} (h : Writable t)
    (hheld : t.held = some payload) (hwritten : t.serialize compact = .ok text) :
    deserialize text = .ok (t.rereadToken (some payload)) := by
  rw [deserialize_serialize h hwritten, hheld, Option.getD_some, ite_self]

end Jws

end SealedToken
