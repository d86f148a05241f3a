import SealedToken.Proofs.Header.Written
import SealedToken.Proofs.Jwe.Release

/-!
Reading a token that was written. The JSON form gives back the token, apart from what a
decryption has told.
-/

namespace SealedToken.Jwe

variable {t : Jwe} {content : EncryptedContent} {r : Recipient} {levels : Nat}
  {members : Json.Record}

/-! ### Written parts -/

def writtenContent (t : Jwe) (content : EncryptedContent) : WrittenContent where
  protectedText := t.protectedText
  sharedHeader := t.sharedHeader
  aad := t.aad.map Base64Url.encode
  iv := Base64Url.encode content.iv
  ciphertext := Base64Url.encode content.ciphertext
  tag := Base64Url.encode content.tag

def writtenRecipient (r : Recipient) : WrittenRecipient where
  header := r.header
  encryptedKey := Base64Url.encode r.encryptedKey

theorem readRecipient_written (h : Header.nonempty r.header = r.header) :
    readRecipient (writtenRecipient r) = .ok r := by
  simp [readRecipient, writtenRecipient, Header.decodeBytes_encode, h]

theorem ofWritten_written (hprotected : Header.decode t.protectedText = .ok t.protectedHeader)
    (hshared : Header.nonempty t.sharedHeader = t.sharedHeader)
    (hown : ∀ r ∈ t.recipients, Header.nonempty r.header = r.header) (hne : t.recipients ≠ [])
    (hcontent : t.content = some content) :
    ofWritten (t.writtenContent content) (t.recipients.map writtenRecipient) =
      .ok { t.undecrypted with options := {} } := by
  have haad : (t.aad.map Base64Url.encode).mapM Header.decodeBytes = .ok t.aad := by
    cases t.aad with
    | none => rfl
    | some aad => simp [Header.decodeBytes_encode, Functor.map]
  have hrecipients : (t.recipients.map writtenRecipient).mapM readRecipient = .ok t.recipients := by
    rw [mapM_eq_ok, List.forall₂_map_left_iff, List.forall₂_same]
    exact fun r hr => readRecipient_written (hown r hr)
  simp [ofWritten, writtenContent, hne, hprotected, haad, Header.decodeBytes_encode, hrecipients,
    hshared, undecrypted, hcontent]

/-! ### The members of the JSON form -/

/-- The names of the members that all recipients share. -/
def sharedMemberNames : List String :=
  ["protected", "unprotected", "aad", "iv", "ciphertext", "tag"]

theorem ofRecord_content
    (hfind : ∀ n ∈ sharedMemberNames,
      Json.Record.find? members n =
        (Json.Record.find? (t.sharedMembers content) n).map Json.canonical)
    (hshared : Header.Codable levels t.sharedHeader) :
    WrittenContent.ofRecord members = .ok (t.writtenContent content) := by
  have hprotected : members.withDefault Json.asString? "" "protected" = .ok t.protectedText := by
    refine Json.Record.withDefault_text ?_
    rw [hfind "protected" (by decide)]
    by_cases htext : t.protectedText = "" <;> simp [sharedMembers, htext, Json.canonical]
  have hunprotected : members.optional Json.asObject? "unprotected" = .ok t.sharedHeader := by
    refine Header.optional_written ?_ hshared
    rw [hfind "unprotected" (by decide)]
    simp [sharedMembers]
  have haad : members.optional Json.asString? "aad" = .ok (t.aad.map Base64Url.encode) := by
    refine Json.Record.optional_eq_ok Json.str ?_ fun _ _ => ⟨rfl, by simp⟩
    rw [hfind "aad" (by decide), sharedMembers]
    cases t.aad <;> simp [Json.ofBytes, Json.canonical]
  have hiv : members.required Json.asString? "iv" = .ok (Base64Url.encode content.iv) := by
    refine Json.Record.required_eq_ok (.str _) ?_ rfl
    rw [hfind "iv" (by decide)]
    simp [sharedMembers, Json.ofBytes, Json.canonical]
  have hciphertext : members.required Json.asString? "ciphertext" =
      .ok (Base64Url.encode content.ciphertext) := by
    refine Json.Record.required_eq_ok (.str _) ?_ rfl
    rw [hfind "ciphertext" (by decide)]
    simp [sharedMembers, Json.ofBytes, Json.canonical]
  have htag : members.required Json.asString? "tag" = .ok (Base64Url.encode content.tag) := by
    refine Json.Record.required_eq_ok (.str _) ?_ rfl
    rw [hfind "tag" (by decide)]
    simp [sharedMembers, Json.ofBytes, Json.canonical]
  simp [WrittenContent.ofRecord, hprotected, hunprotected, haad, hiv, hciphertext, htag,
    writtenContent]

theorem ofRecord_recipient
    (hfind : ∀ n ∈ recipientMemberNames, Json.Record.find? members n =
      (Json.Record.find? (recipientMembers r) n).map Json.canonical)
    (h : Header.Codable levels r.header) :
    WrittenRecipient.ofRecord members = .ok (writtenRecipient r) := by
  have hheader : members.optional Json.asObject? "header" = .ok r.header := by
    refine Header.optional_written ?_ h
    rw [hfind "header" (by decide)]
    simp [recipientMembers, h.1]
  have hkey : members.withDefault Json.asString? "" "encrypted_key" =
      .ok (Base64Url.encode r.encryptedKey) := by
    refine Json.Record.withDefault_text ?_
    rw [hfind "encrypted_key" (by decide)]
    by_cases hkey : Base64Url.encode r.encryptedKey = "" <;>
      simp [recipientMembers, hkey, Json.canonical]
  simp [WrittenRecipient.ofRecord, hheader, hkey, writtenRecipient]

/-! ### The JSON form -/

theorem names_sharedMembers :
    ((t.sharedMembers content).map (·.1)).Sublist sharedMemberNames := by
  simp only [sharedMembers, List.map_append]
  exact ((Json.names_textMember.append Json.names_optionMember).append
    Json.names_optionMember).append (List.Sublist.refl _)

theorem names_recipientMembers : ((recipientMembers r).map (·.1)).Sublist recipientMemberNames := by
  rw [recipientMembers, List.map_append]
  exact Json.names_optionMember.append Json.names_textMember

/-- The nesting that is left for the values of the header of a recipient: it is a member of
the token itself, or of an object in a list. -/
def ownLevels {α : Type} : List α → Nat
  | [_] => Json.nestingLimit - 2
  | _ => Json.nestingLimit - 4

/-- A token whose headers their written forms stand for. -/
structure Writable (t : Jwe) : Prop where
  text : Header.decode t.protectedText = .ok t.protectedHeader
  shared : Header.Codable (Json.nestingLimit - 2) t.sharedHeader
  own : ∀ r ∈ t.recipients, Header.Codable (ownLevels t.recipients) r.header

theorem readable_sharedMembers (h : Header.Codable levels t.sharedHeader) :
    ∀ m ∈ t.sharedMembers content, m.2.Readable (levels + 1) := by
  simp only [sharedMembers, List.forall_mem_append]
  refine ⟨⟨⟨Json.readable_textMember, Header.readable_member h⟩, ?_⟩, ?_⟩
  · exact Json.forall_mem_optionMember fun aad _ => Json.Readable.str (Base64Url.encode aad)
  · simp [Json.ofBytes, Json.Readable.str]

theorem readable_recipientMembers (h : Header.Codable levels r.header) :
    ∀ m ∈ recipientMembers r, m.2.Readable (levels + 1) := by
  rw [recipientMembers, h.1, List.forall_mem_append]
  exact ⟨Header.readable_member h, Json.readable_textMember⟩

/-- An object is read with its members in order, and each is found as it was. -/
theorem readJson_print (hread : (Json.obj members).Readable Json.nestingLimit)
    (distinct : members.Pairwise fun a b => a.1 ≠ b.1) :
    ∃ o : Object, readJson (Json.obj members).print = readMembers o ∧
      ∀ n, o.find? n = (Json.Record.find? members n).map Json.canonical := by
  obtain ⟨o, ho, hfind⟩ := Object.exists_of_print hread distinct
  exact ⟨o, by rw [readJson, ho], hfind⟩

theorem readJson_flat (h : Writable t) (hr : t.recipients = [r]) :
    readJson (Json.obj (t.sharedMembers content ++ recipientMembers r)).print =
      .ok (t.writtenContent content, [writtenRecipient r]) := by
  have hown : Header.Codable (Json.nestingLimit - 2) r.header := by
    have hown := h.own r (by simp [hr])
    rwa [hr] at hown
  have hread : (Json.obj (t.sharedMembers content ++ recipientMembers r)).Readable
      Json.nestingLimit :=
    .obj (List.forall_mem_append.2
      ⟨readable_sharedMembers h.shared, readable_recipientMembers hown⟩)
  have hnames : ((t.sharedMembers content ++ recipientMembers r).map (·.1)).Sublist
      (sharedMemberNames ++ recipientMemberNames) := by
    rw [List.map_append]
    exact names_sharedMembers.append names_recipientMembers
  obtain ⟨o, ho, hfind⟩ := readJson_print hread (Json.distinct_of_sublist hnames (by decide))
  have hsingle : o.contains "recipients" = false := by
    rw [Object.contains_eq_false_iff, hfind]
    simp [sharedMembers, recipientMembers]
  have hcontent : WrittenContent.ofRecord o.members = .ok (t.writtenContent content) := by
    refine ofRecord_content (fun n hn => (hfind n).trans ?_) h.shared
    have hother : n ∉ recipientMemberNames := by
      revert n
      decide
    rw [Json.Record.find?_append, Json.find?_eq_none names_recipientMembers hother, Option.or_none]
  have hrecipient : WrittenRecipient.ofRecord o.members = .ok (writtenRecipient r) := by
    refine ofRecord_recipient (fun n hn => (hfind n).trans ?_) hown
    have hother : n ∉ sharedMemberNames := by
      revert n
      decide
    rw [Json.Record.find?_append, Json.find?_eq_none names_sharedMembers hother, Option.none_or]
  rw [ho, readMembers, hsingle, if_neg (by simp), hcontent, hrecipient]
  rfl

theorem ofJson_recipient (h : Header.Codable levels r.header) :
    WrittenRecipient.ofJson (Json.obj (recipientMembers r)).canonical =
      .ok (writtenRecipient r) := by
  have hdistinct := Json.distinct_of_sublist (@names_recipientMembers r) (by decide)
  rw [Json.canonical, WrittenRecipient.ofJson, Object.toJson, Json.Record.ofJson, pure_eq_ok,
    ok_bind]
  refine ofRecord_recipient (fun n hn => ?_) h
  rw [Json.Record.find?_filter (List.contains_iff_mem.2 hn)]
  exact Json.find?_canonical hdistinct

/-! ### Recipients in a list -/

/-- The members of the JSON form with its recipients in a list. -/
def listMembers (t : Jwe) (content : EncryptedContent) : List (String × Json) :=
  t.sharedMembers content ++
    [("recipients", .arr (t.recipients.map fun r => .obj (recipientMembers r)))]

theorem names_listMembers :
    ((t.listMembers content).map (·.1)).Sublist (sharedMemberNames ++ ["recipients"]) := by
  rw [listMembers, List.map_append]
  exact names_sharedMembers.append (List.Sublist.refl _)

theorem find?_listMembers_shared {n : String} (hn : n ∈ sharedMemberNames) :
    Json.Record.find? (t.listMembers content) n =
      Json.Record.find? (t.sharedMembers content) n := by
  have hne : "recipients" ≠ n := by
    revert n
    decide
  rw [listMembers, Json.Record.find?_append, Json.Record.find?_cons, if_neg hne,
    Json.Record.find?_nil, Option.or_none]

theorem find?_listMembers_recipients :
    Json.Record.find? (t.listMembers content) "recipients" =
      some (.arr (t.recipients.map fun r => .obj (recipientMembers r))) := by
  rw [listMembers, Json.Record.find?_append,
    Json.find?_eq_none names_sharedMembers (by decide), Option.none_or, Json.Record.find?_cons,
    if_pos rfl]

theorem readable_listMembers (hshared : Header.Codable (Json.nestingLimit - 2) t.sharedHeader)
    (hown : ∀ r ∈ t.recipients, Header.Codable (Json.nestingLimit - 4) r.header) :
    (Json.obj (t.listMembers content)).Readable Json.nestingLimit := by
  have hlist : (Json.arr (t.recipients.map fun r => .obj (recipientMembers r))).Readable
      (Json.nestingLimit - 1) := by
    refine .arr fun item hitem => ?_
    obtain ⟨r, hmem, rfl⟩ := List.mem_map.1 hitem
    exact .obj (readable_recipientMembers (hown r hmem))
  exact .obj (List.forall_mem_append.2
    ⟨readable_sharedMembers hshared, List.forall_mem_singleton.2 hlist⟩)

theorem readJson_list (h : Writable t) (hr : ∀ r, t.recipients ≠ [r]) :
    readJson (Json.obj (t.listMembers content)).print =
      .ok (t.writtenContent content, t.recipients.map writtenRecipient) := by
  have hown (r) (hmem : r ∈ t.recipients) : Header.Codable (Json.nestingLimit - 4) r.header := by
    have hown := h.own r hmem
    unfold ownLevels at hown
    split at hown
    · next r' hr' => exact absurd hr' (hr r')
    · exact hown
  have hreadable : (Json.obj (t.listMembers content)).Readable Json.nestingLimit :=
    readable_listMembers h.shared hown
  obtain ⟨o, ho, hfind⟩ := readJson_print hreadable
    (Json.distinct_of_sublist names_listMembers (by decide))
  have hrecipients : o.find? "recipients" = some (.arr (t.recipients.map fun r =>
      (Json.obj (recipientMembers r)).canonical)) := by
    rw [hfind, find?_listMembers_recipients]
    simp [Json.canonical, Json.canonicalItems_eq_map, Function.comp_def]
  have hother (n) (hn : n ∈ recipientMemberNames) : o.contains n = false := by
    rw [Object.contains_eq_false_iff, hfind, Json.find?_eq_none names_listMembers, Option.map_none]
    revert n
    decide
  have hcontent : WrittenContent.ofRecord o.members = .ok (t.writtenContent content) :=
    ofRecord_content (fun n hn => (hfind n).trans (by rw [find?_listMembers_shared hn])) h.shared
  have hitems : Json.Record.required o.members Json.asItems? "recipients" =
      .ok (t.recipients.map fun r => (Json.obj (recipientMembers r)).canonical) :=
    Json.Record.required_eq_ok _ hrecipients rfl
  have hread : (t.recipients.map fun r => (Json.obj (recipientMembers r)).canonical).mapM
      WrittenRecipient.ofJson = .ok (t.recipients.map writtenRecipient) := by
    rw [mapM_eq_ok, List.forall₂_map_left_iff, List.forall₂_map_right_iff, List.forall₂_same]
    exact fun r hmem => ofJson_recipient (hown r hmem)
  rw [ho, readMembers, if_pos (Object.contains_iff.2 ⟨_, hrecipients⟩),
    hother "encrypted_key" (by decide), hother "header" (by decide), if_neg (by simp), hcontent,
    ok_bind, hitems, ok_bind, hread]
  rfl

/-! ### Either way -/

theorem readJson_jsonText (h : Writable t) :
    readJson (t.jsonText content) =
      .ok (t.writtenContent content, t.recipients.map writtenRecipient) := by
  unfold jsonText
  split
  · next r hr =>
      rw [readJson_flat h hr, hr]
      rfl
  · next hr => exact readJson_list h hr

theorem exists_jsonText : ∃ members, t.jsonText content = (Json.obj members).print := by
  unfold jsonText
  split <;> exact ⟨_, rfl⟩

theorem deserialize_jsonText_eq :
    deserialize (t.jsonText content) =
      readJson (t.jsonText content) >>= fun (content, recipients) =>
        ofWritten content recipients := by
  obtain ⟨members, hmembers⟩ := @exists_jsonText t content
  rw [hmembers, deserialize, Json.trim_print_obj]
  dsimp only
  rw [if_pos Json.startsObject_print_obj]

/-- Reading the JSON form gives the token that was written. -/
theorem deserialize_jsonText (h : Writable t) (hne : t.recipients ≠ [])
    (hcontent : t.content = some content) :
    deserialize (t.jsonText content) = .ok { t.undecrypted with options := {} } := by
  rw [deserialize_jsonText_eq, readJson_jsonText h, ok_bind]
  exact ofWritten_written h.text h.shared.1 (fun r hr => (h.own r hr).1) hne hcontent

/-! ### The compact form -/

/-- The segments of the compact form. -/
def compactSegments (t : Jwe) (content : EncryptedContent) (r : Recipient) : List String :=
  [t.protectedText, Base64Url.encode r.encryptedKey, Base64Url.encode content.iv,
    Base64Url.encode content.ciphertext, Base64Url.encode content.tag]

theorem isDigit_of_mem_compactSegments
    (hprotected : Header.decode t.protectedText = .ok t.protectedHeader) :
    ∀ part ∈ t.compactSegments content r, ∀ c ∈ part.toList, Base64Url.IsDigit c := by
  simp only [compactSegments, List.forall_mem_cons]
  exact ⟨Header.digits_of_decode hprotected, Base64Url.isDigit_of_mem_encode,
    Base64Url.isDigit_of_mem_encode, Base64Url.isDigit_of_mem_encode,
    Base64Url.isDigit_of_mem_encode, by simp⟩

/-- Reading the compact form gives the token that was written. -/
theorem deserialize_compactSegments
    (hprotected : Header.decode t.protectedText = .ok t.protectedHeader)
    (hne : t.protectedText ≠ "") (hcontent : t.content = some content)
    (hr : t.recipients = [r]) (hheader : r.header = none) (hshared : t.sharedHeader = none)
    (haad : t.aad = none) :
    deserialize (Text.joinSegments (t.compactSegments content r)) =
      .ok { t.undecrypted with options := {} } := by
  have hdigits := @isDigit_of_mem_compactSegments t content r hprotected
  have hdotless : ∀ part ∈ t.compactSegments content r, '.' ∉ part.toList := fun part hpart hdot =>
    (hdigits part hpart '.' hdot).not_special.2.1 rfl
  have hplain (c) (hc : c ∈ (Text.joinSegments (t.compactSegments content r)).toList) :
      Text.isBlank c = false ∧ c ≠ '\x7b' := by
    rcases Text.mem_joinSegments hc with rfl | ⟨part, hpart, hc⟩
    · decide
    · exact ⟨(hdigits part hpart c hc).not_special.1, (hdigits part hpart c hc).not_special.2.2⟩
  have htrim : Text.trim (Text.joinSegments (t.compactSegments content r)) =
      Text.joinSegments (t.compactSegments content r) :=
    Text.trim_eq_self (fun c hc => (hplain c (List.mem_of_head? hc)).1)
      fun c hc => (hplain c (List.mem_of_getLast? hc)).1
  have hobject : Json.startsObject (Text.joinSegments (t.compactSegments content r)) = false := by
    rw [Json.startsObject, beq_eq_false_iff_ne]
    exact fun hhead => (hplain _ (List.mem_of_head? hhead)).2 rfl
  have hread : readCompact (Text.joinSegments (t.compactSegments content r)) =
      .ok (t.writtenContent content, t.recipients.map writtenRecipient) := by
    rw [readCompact, Text.segments_joinSegments (by simp [compactSegments]) hdotless]
    simp [compactSegments, hne, writtenContent, writtenRecipient, hshared, haad, hr, hheader]
  rw [deserialize, htrim]
  dsimp only
  rw [hobject, if_neg (by simp), hread, ok_bind]
  refine ofWritten_written hprotected (by rw [hshared]; rfl) (fun q hq => ?_) (by simp [hr])
    hcontent
  rw [hr, List.mem_singleton] at hq
  rw [hq, hheader]
  rfl

end SealedToken.Jwe
