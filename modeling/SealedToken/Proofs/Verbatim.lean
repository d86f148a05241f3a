import SealedToken.Proofs.Jwe.Binding
import SealedToken.Proofs.Jwe.Compaction
import SealedToken.Proofs.Jws.Reading

/-!
A token in compact form is kept character by character. Each segment is either kept as a
text or spells bytes strictly, so writing the token gives the text that was read, and what is
signed or authenticated is a part of that text as it stands.
-/

namespace SealedToken

variable {raw text : String}

theorem Utf8.toUTF8_append (a b : String) : (a ++ b).toUTF8 = a.toUTF8 ++ b.toUTF8 := by
  simp [String.toUTF8_eq_toByteArray]

/-! ### Signed tokens -/

namespace Jws

variable {t : Jws} {s : SealedToken.Signature} {payload : ByteArray} {payloadText : String}

/-- What a token in compact form holds of its text. -/
structure Segmented (t : Jws) (text : String) (s : SealedToken.Signature) (payload : ByteArray)
    (payloadText : String) : Prop where
  text : text = Text.joinSegments [s.protectedText, payloadText, Base64Url.encode s.bytes]
  dotless : ∀ part ∈ [s.protectedText, payloadText, Base64Url.encode s.bytes], '.' ∉ part.toList
  signatures : t.signatures = [s]
  own : s.header = none
  held : t.held = some payload
  payload : readPayload payloadText s.protectedHeader = .ok payload

theorem exists_segmented (hcompact : Json.startsObject (Text.trim raw) = false)
    (h : deserialize raw = .ok t) :
    ∃ s payload payloadText, Segmented t (Text.trim raw) s payload payloadText := by
  obtain ⟨held, signatures, hread, -, rfl⟩ := deserialize_eq_ok.1 h
  rw [hcompact, if_neg Bool.false_ne_true] at hread
  obtain ⟨protectedText, payloadText, bytesText, s, payload, hsegments, hs, hpayload, rfl, rfl⟩ :=
    segments_of_readCompact hread
  simp only [readSignature, bind_eq_ok, pure_eq_ok, Except.ok.injEq] at hs
  obtain ⟨protectedHeader, -, bytes, hbytes, rfl⟩ := hs
  have hspelt := Header.encode_of_decodeBytes hbytes
  refine ⟨_, payload, payloadText, ?_, ?_, rfl, rfl, rfl, hpayload⟩
  · rw [hspelt, ← hsegments, Text.joinSegments_segments]
  · rw [hspelt, ← hsegments]
    exact fun part => Text.dot_notMem_segments

namespace Segmented

variable (h : Segmented t text s payload payloadText)
include h

/-- A payload is written as it was read, and signed as it is written. -/
theorem exists_mode :
    ∃ encoded, Signature.payloadEncoded s = .ok encoded ∧
      t.payloadText? encoded = .ok (some payloadText) ∧
      signingInput s.protectedText payload encoded =
        (s.protectedText ++ "." ++ payloadText).toUTF8 := by
  obtain ⟨encoded, hmode, hpayload⟩ := bind_eq_ok.1 h.payload
  refine ⟨encoded, hmode, ?_⟩
  rw [payloadText?, h.held, signingInput, Utf8.toUTF8_append, Utf8.toUTF8_append]
  cases encoded with
  | true => simp [Header.encode_of_decodeBytes hpayload]
  | false =>
      obtain rfl := Except.ok.inj hpayload
      simp only [Utf8.decode_toUTF8, Bool.false_eq_true, if_false, and_self]

theorem serialize (halg : s.protectedHeader.any (·.contains "alg") = true) :
    t.serialize true = .ok text := by
  obtain ⟨encoded, hmode, hpayload, -⟩ := h.exists_mode
  have hencodes : t.encodesPayload = .ok encoded := by
    rw [encodesPayload, h.signatures]
    exact hmode
  have hcompact : checkCompact s = .ok () := by
    rw [checkCompact, h.own, halg]
    rfl
  have hdot : '.' ∉ payloadText.toList := h.dotless payloadText (by simp)
  rw [Jws.serialize, hencodes, ok_bind, hpayload, ok_bind, if_pos rfl, compactText, h.signatures]
  simp [hcompact, hdot, h.text]

/-- The text before the last dot. -/
theorem text_eq : text = s.protectedText ++ "." ++ payloadText ++ "." ++
    Base64Url.encode s.bytes := by
  rw [h.text, Text.joinSegments_cons, Text.joinSegments_cons]
  simp [Text.joinSegments, String.append_assoc]

end Segmented

/-- A verification without a payload beside checks the signature of a token over these bytes,
under any options: they are what is handed to the algorithm, and it succeeds exactly when the
header passes and one of the keys offered for it verifies the signature over them. -/
structure ChecksOver (t : Jws) (s : SealedToken.Signature) (input : ByteArray) : Prop where
  prepared : ∃ payload, t.held = some payload ∧ ∀ options keys expected pending,
    prepare options payload keys expected s = .ok pending → pending.input = input
  accepted : ∀ p options keys expected,
    (Jws.verify p { t with options } keys expected none).1 = .ok () ↔
      ∃ checked : Checked options expected s, ∃ offered,
        keys.candidates checked.kid = .ok offered ∧
          ∃ key ∈ offered, checked.algorithm.verify p key input s.bytes = .ok ()

theorem Segmented.checksOver (h : Segmented t text s payload payloadText) :
    ChecksOver t s (s.protectedText ++ "." ++ payloadText).toUTF8 := by
  obtain ⟨encoded, hmode, -, hinput⟩ := h.exists_mode
  have hchecked {options : JwsOptions} {expected : Option String}
      (checked : Checked options expected s) :
      signingInput s.protectedText payload checked.encoded =
        (s.protectedText ++ "." ++ payloadText).toUTF8 := by
    obtain rfl := Except.ok.inj (hmode.symm.trans checked.ownMode)
    exact hinput
  refine ⟨⟨payload, h.held, fun options keys expected pending hprepare => ?_⟩,
    fun p options keys expected => ?_⟩
  · obtain ⟨checked, offered, -, rfl⟩ := prepare_eq_ok.1 hprepare
    exact hchecked checked
  · have hheld : (none <|> ({ t with options } : Jws).held) = some payload := h.held
    have hsigned : ({ t with options } : Jws).signatures ≠ [] := by simp [h.signatures]
    rw [verify_eq_verifyAll p keys expected hheld hsigned, verifyAll_eq_ok]
    simp only [h.signatures, List.mem_singleton, exists_eq_left, Accepts, Checked.Verifies,
      hchecked]

/-- A token that holds a text as it stands: it is written as that text, and its signature is
checked over the part before the last dot. -/
structure Verbatim (t : Jws) (text : String) : Prop where
  written : t.serialize true = .ok text
  signed : ∃ front last s, text = front ++ "." ++ last ∧ '.' ∉ last.toList ∧
    t.signatures = [s] ∧ ChecksOver t s front.toUTF8

theorem verbatim_of_deserialize (hcompact : Json.startsObject (Text.trim raw) = false)
    (h : deserialize raw = .ok t)
    (halg : ∀ s ∈ t.signatures, s.protectedHeader.any (·.contains "alg") = true) :
    Verbatim t (Text.trim raw) := by
  obtain ⟨s, payload, payloadText, hsegmented⟩ := exists_segmented hcompact h
  exact ⟨hsegmented.serialize (halg s (by simp [hsegmented.signatures])),
    _, _, s, hsegmented.text_eq, hsegmented.dotless _ (by simp), hsegmented.signatures,
    hsegmented.checksOver⟩

end Jws

/-! ### Encrypted tokens -/

namespace Jwe

variable {t : Jwe}

/-- A token that is read in compact form has no parts but those that have a place there. -/
theorem exists_compactSegments (hcompact : Json.startsObject (Text.trim raw) = false)
    (h : deserialize raw = .ok t) :
    ∃ content r, t.content = some content ∧ t.recipients = [r] ∧ r.header = none ∧
      t.sharedHeader = none ∧ t.aad = none ∧
      Text.segments (Text.trim raw) = t.compactSegments content r := by
  obtain ⟨w, recipients, hread, h⟩ := deserialize_eq_ok.1 h
  have hparts := readOf_of_ofWritten h
  rw [hcompact, if_neg Bool.false_ne_true] at hread
  unfold readCompact at hread
  split at hread
  · next protectedText encryptedKey iv ciphertext tag hsegments =>
      obtain ⟨-, hread⟩ := ite_error_eq_ok.1 hread
      obtain ⟨rfl, rfl⟩ := Prod.mk.inj (Except.ok.inj hread)
      obtain ⟨content, hcontent, hiv, hciphertext, htag⟩ := hparts.content
      have hread := hparts.recipients
      simp only [List.mapM_cons, List.mapM_nil, readRecipient, bind_eq_ok, pure_eq_ok,
        Except.ok.injEq] at hread
      obtain ⟨_, ⟨key, hkey, rfl⟩, _, rfl, hrecipients⟩ := hread
      have htext : t.protectedText = protectedText := by rw [hparts.rest]
      have hshared : t.sharedHeader = none := by rw [hparts.rest]; rfl
      refine ⟨content, _, hcontent, hrecipients.symm, rfl, hshared, (Except.ok.inj hparts.aad).symm, ?_⟩
      rw [hsegments, compactSegments, htext, Header.encode_of_decodeBytes hkey,
        Header.encode_of_decodeBytes hiv, Header.encode_of_decodeBytes hciphertext,
        Header.encode_of_decodeBytes htag]
  · simp at hread

/-- A decryption authenticates these bytes beside the content, under any options: each attempt
decrypts over them, and so did the one that succeeded. -/
structure OpensOver (t : Jwe) (aad : ByteArray) : Prop where
  attempted : ∀ options p supply content r pending key,
    attempt p supply { t with options } content r pending key = do
      let contentKey ← pending.management.unwrap p (supply r key) key pending.encryption.keySize
        r.encryptedKey pending.header options.limits
      let text ← pending.encryption.decrypt p contentKey aad content
      pure (text, contentKey)
  opened : ∀ options p supply keys after,
    decrypt p supply { t with options } keys = (.ok (), after) →
      ∃ content a contentKey text, t.content = some content ∧ after.algorithm = some a ∧
        after.contentKey = some contentKey ∧ a.decrypt p contentKey aad content = .ok text

theorem opensOver_contentAad : OpensOver t (contentAad t.protectedText t.aad) := by
  refine ⟨fun _ _ _ _ _ _ _ => rfl, fun options p supply keys after h => ?_⟩
  obtain ⟨content, opened, log, hcontent, hopen, rfl⟩ := decrypt_eq_ok.1 h
  obtain ⟨r, -, checked, offered, -, key, -, text, -, hdecrypt, halgorithm, -⟩ :=
    opens_of_openFirst (by rw [hopen])
  exact ⟨content, _, _, text, hcontent, congrArg some halgorithm, rfl, hdecrypt⟩

/-- A token that holds a text as it stands: it is written as that text and stays as it is,
and the part before the first dot is authenticated. -/
structure Verbatim (t : Jwe) (text : String) : Prop where
  written : ∀ p rng, t.serialize p rng true = (.ok text, t)
  authenticated : ∃ front rest, text = front ++ "." ++ rest ∧ '.' ∉ front.toList ∧
    OpensOver t front.toUTF8

theorem verbatim_of_deserialize (hcompact : Json.startsObject (Text.trim raw) = false)
    (h : deserialize raw = .ok t)
    (hnames : t.protectedHeader.any (fun h => h.contains "alg" && h.contains "enc") = true) :
    Verbatim t (Text.trim raw) := by
  obtain ⟨content, r, hcontent, hr, hown, hshared, haad, hsegments⟩ :=
    exists_compactSegments hcompact h
  have htext : Text.trim raw = Text.joinSegments (t.compactSegments content r) := by
    rw [← hsegments, Text.joinSegments_segments]
  cases hprotected : t.protectedHeader with
  | none => simp [hprotected] at hnames
  | some header =>
      rw [hprotected, Option.any_some, Bool.and_eq_true] at hnames
      have hwritten : t.compactText = .ok (Text.trim raw) := compactText_eq_ok.2
        ⟨header, content, r, hprotected, hnames.1, hnames.2, hcontent, hr, htext⟩
      refine ⟨fun p rng => Compact.serialize ⟨hr, hown, hshared, haad, hprotected⟩ hwritten,
        t.protectedText, _, htext.trans Text.joinSegments_cons, ?_, ?_⟩
      · exact Text.dot_notMem_segments (by rw [hsegments]; simp [compactSegments])
      · have hover := @opensOver_contentAad t
        rwa [haad, contentAad_none] at hover

end Jwe

/-! ### Either kind -/

/-- Let a text be read that is not that of an object, with white space around it or not. A
signed token whose protected header names its algorithm, and an encrypted one whose protected
header names both, hold the text without that white space as it stands: they are written as
that text, the signature is over the part before the last dot, and the part before the first
dot is authenticated beside the content. -/
theorem compact_text_kept :
    (∀ (raw : String) (t : Jws), Json.startsObject (Text.trim raw) = false →
      Jws.deserialize raw = .ok t →
      (∀ s ∈ t.signatures, s.protectedHeader.any (·.contains "alg") = true) →
      Jws.Verbatim t (Text.trim raw)) ∧
    ∀ (raw : String) (t : Jwe), Json.startsObject (Text.trim raw) = false →
      Jwe.deserialize raw = .ok t →
      t.protectedHeader.any (fun h => h.contains "alg" && h.contains "enc") = true →
      Jwe.Verbatim t (Text.trim raw) :=
  ⟨fun _ _ hcompact h halg => Jws.verbatim_of_deserialize hcompact h halg,
    fun _ _ hcompact h hnames => Jwe.verbatim_of_deserialize hcompact h hnames⟩

/-- Two tokens with white space around them. -/
theorem spaced_texts_kept :
    Jws.Verbatim Jws.unsecured Jws.unsecuredText ∧ Jwe.Verbatim Jwe.direct Jwe.directText := by
  have hsigned : Text.trim (" " ++ Jws.unsecuredText ++ "\n") = Jws.unsecuredText := by
    decide +kernel
  have hencrypted : Text.trim ("\t" ++ Jwe.directText ++ " ") = Jwe.directText := by
    decide +kernel
  have hunsecured : Jws.deserialize (" " ++ Jws.unsecuredText ++ "\n") = .ok Jws.unsecured :=
    toOption_eq_some.1 (by decide +kernel)
  have hdirect : Jwe.deserialize ("\t" ++ Jwe.directText ++ " ") = .ok Jwe.direct :=
    toOption_eq_some.1 (by decide +kernel)
  have hkept := compact_text_kept.1 _ _ (by rw [hsigned]; decide +kernel) hunsecured
    (List.forall_mem_singleton.2 (by decide +kernel))
  have hkept' := compact_text_kept.2 _ _ (by rw [hencrypted]; decide +kernel) hdirect
    (by decide +kernel)
  rw [hsigned] at hkept
  rw [hencrypted] at hkept'
  exact ⟨hkept, hkept'⟩

end SealedToken
