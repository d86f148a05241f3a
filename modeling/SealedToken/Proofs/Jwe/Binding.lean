import SealedToken.Jwe.Text
import SealedToken.Primitives.Standard
import SealedToken.Proofs.Bytes
import SealedToken.Proofs.ContentEncryption
import SealedToken.Proofs.Header.Written

/-!
What is authenticated tells its parts. The written header ends at the first dot, the vector
has one size, and the length at the end tells how much of the rest is authenticated beside
the ciphertext.
-/

namespace SealedToken

/-! ### What is authenticated beside the ciphertext -/

namespace Jwe

variable {a b : String} {x y : Option ByteArray}

theorem contentAad_some (text : String) (aad : ByteArray) :
    contentAad text (some aad) = text.toUTF8 ++ ".".toUTF8 ++ (Base64Url.encode aad).toUTF8 := by
  rw [contentAad, ByteArray.append_assoc]

theorem contentAad_none (text : String) : contentAad text none = text.toUTF8 := by
  rw [contentAad, ByteArray.append_empty]

/-- The written header and the additional data are told, also whether there is any. -/
theorem contentAad_injective (ha : Base64Url.Digits a) (hb : Base64Url.Digits b)
    (h : contentAad a x = contentAad b y) : a = b ∧ x = y := by
  cases x with
  | none =>
      cases y with
      | none =>
          rw [contentAad_none, contentAad_none] at h
          exact ⟨Utf8.toUTF8_injective h, rfl⟩
      | some y =>
          rw [contentAad_none, contentAad_some] at h
          exact absurd h (Bytes.ne_dotted ha)
  | some x =>
      cases y with
      | none =>
          rw [contentAad_none, contentAad_some] at h
          exact absurd h.symm (Bytes.ne_dotted hb)
      | some y =>
          rw [contentAad_some, contentAad_some] at h
          obtain ⟨htext, haad⟩ := Bytes.dotted_injective ha hb h
          exact ⟨htext, congrArg some (Base64Url.encode_injective (Utf8.toUTF8_injective haad))⟩

end Jwe

/-! ### What is tagged -/

namespace ContentEncryptionAlgorithm

variable {aad aad' iv iv' ciphertext ciphertext' : ByteArray}

/-- The length at the end tells how much is authenticated beside the ciphertext. -/
theorem taggedBytes_injective (hiv : iv.size = iv'.size) (haad : aad.size < 2 ^ 61)
    (haad' : aad'.size < 2 ^ 61)
    (h : taggedBytes aad iv ciphertext = taggedBytes aad' iv' ciphertext') :
    aad = aad' ∧ iv = iv' ∧ ciphertext = ciphertext' := by
  unfold taggedBytes at h
  obtain ⟨hparts, hlength⟩ := (ByteArray.append_eq_append_iff_of_size_eq_right (by simp)).1 h
  have hsize : aad.size = aad'.size := by
    have hbits : 8 * aad.size = 8 * aad'.size :=
      Bytes.ofNat_injective (by omega) (by omega) hlength
    omega
  obtain ⟨hfront, hciphertext⟩ :=
    (ByteArray.append_eq_append_iff_of_size_eq_left (by simp [hsize, hiv])).1 hparts
  obtain ⟨rfl, rfl⟩ := (ByteArray.append_eq_append_iff_of_size_eq_left hsize).1 hfront
  exact ⟨rfl, rfl, hciphertext⟩

end ContentEncryptionAlgorithm

/-! ### Tokens that were read -/

namespace Jwe

variable {raw raw' : String} {t t' : Jwe}

/-- A token that was read has content, and a protected header that is read from its text. -/
theorem content_of_deserialize (h : deserialize raw = .ok t) :
    Header.decode t.protectedText = .ok t.protectedHeader ∧
      ∃ content, t.content = some content := by
  unfold deserialize at h
  dsimp only at h
  obtain ⟨⟨w, recipients⟩, -, h⟩ := ite_bind_eq_ok.1 h
  obtain ⟨-, h⟩ := ite_error_eq_ok.1 h
  simp only [bind_eq_ok, pure_eq_ok, Except.ok.injEq] at h
  obtain ⟨header, hheader, _, -, iv, -, ciphertext, -, tag, -, _, -, rfl⟩ := h
  exact ⟨hheader, ⟨iv, ciphertext, tag⟩, rfl⟩

/-- Let two tokens have been read. What is authenticated beside the ciphertext tells the
written header and the additional data. With vectors of the size of a block, and less than
`2 ^ 61` bytes of the former, what is tagged tells them too, and the vector and the
ciphertext. -/
theorem tag_binds_parts (h : deserialize raw = .ok t) (h' : deserialize raw' = .ok t') :
    (contentAad t.protectedText t.aad = contentAad t'.protectedText t'.aad →
      t.protectedText = t'.protectedText ∧ t.aad = t'.aad) ∧
    ∃ content content', t.content = some content ∧ t'.content = some content' ∧
      (content.iv.size = ContentEncryptionAlgorithm.cbcIvSize →
        content'.iv.size = ContentEncryptionAlgorithm.cbcIvSize →
        (contentAad t.protectedText t.aad).size < 2 ^ 61 →
        (contentAad t'.protectedText t'.aad).size < 2 ^ 61 →
        ContentEncryptionAlgorithm.taggedBytes (contentAad t.protectedText t.aad) content.iv
            content.ciphertext =
          ContentEncryptionAlgorithm.taggedBytes (contentAad t'.protectedText t'.aad) content'.iv
            content'.ciphertext →
        t.protectedText = t'.protectedText ∧ t.aad = t'.aad ∧ content.iv = content'.iv ∧
          content.ciphertext = content'.ciphertext) := by
  obtain ⟨hheader, content, hcontent⟩ := content_of_deserialize h
  obtain ⟨hheader', content', hcontent'⟩ := content_of_deserialize h'
  have hbinds : contentAad t.protectedText t.aad = contentAad t'.protectedText t'.aad →
      t.protectedText = t'.protectedText ∧ t.aad = t'.aad :=
    contentAad_injective (Header.digits_of_decode hheader) (Header.digits_of_decode hheader')
  refine ⟨hbinds, content, content', hcontent, hcontent', fun hiv hiv' haad haad' htagged => ?_⟩
  obtain ⟨haad, hiv, hciphertext⟩ :=
    ContentEncryptionAlgorithm.taggedBytes_injective (hiv.trans hiv'.symm) haad haad' htagged
  obtain ⟨htext, haad⟩ := hbinds haad
  exact ⟨htext, haad, hiv, hciphertext⟩

/-! ### A token in two forms -/

/-- A token with a vector of zeros, in the compact form. -/
def compactForm : String := "e30.AA.AAAAAAAAAAAAAAAAAAAAAA.AQID.BA"

/-- The same token with other members around it. -/
def jsonForm : String :=
  "\x7b\"unprotected\":\x7b\"cty\":\"text\"\x7d,\"protected\":\"e30\"," ++
    "\"iv\":\"AAAAAAAAAAAAAAAAAAAAAA\",\"ciphertext\":\"AQID\",\"tag\":\"BQ\"\x7d"

/-- What the compact form is read as. -/
def compactToken : Jwe where
  plaintext := none
  protectedHeader := some .empty
  protectedText := "e30"
  sharedHeader := none
  recipients := [⟨none, ⟨#[0]⟩⟩]
  content := some ⟨Bytes.zeros 16, ⟨#[1, 2, 3]⟩, ⟨#[4]⟩⟩

/-- What the other form is read as. -/
def jsonToken : Jwe where
  plaintext := none
  protectedHeader := some .empty
  protectedText := "e30"
  sharedHeader := some (.ofMembers [("cty", .str "text")])
  recipients := [⟨none, .empty⟩]
  content := some ⟨Bytes.zeros 16, ⟨#[1, 2, 3]⟩, ⟨#[5]⟩⟩

/-- Both are tagged as the same, and what is tagged is the same in each part. -/
theorem tag_of_two_forms :
    ∃ content content', compactToken.content = some content ∧ jsonToken.content = some content' ∧
      compactToken.protectedText = jsonToken.protectedText ∧ compactToken.aad = jsonToken.aad ∧
      content.iv = content'.iv ∧ content.ciphertext = content'.ciphertext := by
  have hcompact : deserialize compactForm = .ok compactToken :=
    toOption_eq_some.1 (by decide +kernel)
  have hjson : deserialize jsonForm = .ok jsonToken := toOption_eq_some.1 (by decide +kernel)
  obtain ⟨-, content, content', hcontent, hcontent', hbinds⟩ := tag_binds_parts hcompact hjson
  refine ⟨content, content', hcontent, hcontent', ?_⟩
  obtain rfl := Option.some.inj hcontent
  obtain rfl := Option.some.inj hcontent'
  exact hbinds rfl rfl (by decide +kernel) (by decide +kernel) rfl

end Jwe

end SealedToken
