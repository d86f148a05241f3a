import SealedToken.Jwe.Encrypt
import SealedToken.Jwe.Text
import SealedToken.Proofs.Outcome

/-!
What adding a recipient and writing a token do to it. The content is encrypted when
the first recipient is added, and again when the header of a recipient becomes
protected; neither touches the plaintext.
-/

namespace SealedToken.Jwe

variable {p : Primitives} {rng : Entropy} {t after : Jwe} {a : ContentEncryptionAlgorithm}
  {contentKey : ByteArray} {key : Jwk} {r : Recipient}

theorem sealContent_eq_ok :
    t.sealContent p rng a contentKey = .ok after ↔
      ∃ plaintext compressed content, t.plaintext = some plaintext ∧
        compresses t.protectedHeader = .ok compressed ∧
        a.encrypt p rng contentKey (contentAad (Header.encode t.protectedHeader) t.aad)
          (if compressed then Deflate.deflate plaintext else plaintext) = .ok content ∧
        after = { t with
          protectedText := Header.encode t.protectedHeader
          content := some content } := by
  unfold sealContent
  split
  · next hnone => simp [hnone]
  · next plaintext hsome =>
      simp only [hsome, bind_eq_ok, pure_eq_ok, Except.ok.injEq]
      constructor
      · rintro ⟨compressed, hcompressed, content, hcontent, rfl⟩
        exact ⟨plaintext, compressed, content, rfl, hcompressed, hcontent, rfl⟩
      · rintro ⟨plaintext', compressed, content, hplaintext, hcompressed, hcontent, rfl⟩
        obtain rfl := Option.some.inj hplaintext
        exact ⟨compressed, hcompressed, content, hcontent, rfl⟩

theorem checkKeySize_eq_ok {expected : Nat} :
    checkKeySize expected contentKey = .ok () ↔ contentKey.size = expected := by
  unfold checkKeySize
  split <;> simp [*]

/-- An encryption only asks for a key of the right size. -/
theorem exists_encrypt {aad text : ByteArray} (hsize : contentKey.size = a.keyBytes) :
    ∃ content, a.encrypt p rng contentKey aad text = .ok content := by
  have hchecked := checkKeySize_eq_ok.2 hsize
  cases a with
  | cbcHmac s => exact ⟨_, bind_eq_ok.2 ⟨(), hchecked, rfl⟩⟩
  | gcm s => exact ⟨_, bind_eq_ok.2 ⟨(), hchecked, rfl⟩⟩

theorem size_of_encrypt {aad text : ByteArray} {content : EncryptedContent}
    (h : a.encrypt p rng contentKey aad text = .ok content) : contentKey.size = a.keyBytes :=
  checkKeySize_eq_ok.1 (seq_eq_ok.1 h).1

theorem size_of_decrypt {aad text : ByteArray} {content : EncryptedContent}
    (h : a.decrypt p contentKey aad content = .ok text) : contentKey.size = a.keyBytes :=
  checkKeySize_eq_ok.1 (seq_eq_ok.1 h).1

theorem exists_sealContent (hplaintext : t.plaintext.isSome = true)
    (hcompresses : (compresses t.protectedHeader).isOk = true)
    (hsize : contentKey.size = a.keyBytes) :
    ∃ after, t.sealContent p rng a contentKey = .ok after := by
  obtain ⟨plaintext, hplaintext⟩ := Option.isSome_iff_exists.1 hplaintext
  obtain ⟨compressed, hcompressed⟩ := isOk_iff.1 hcompresses
  obtain ⟨content, hcontent⟩ := exists_encrypt hsize
  exact ⟨_, sealContent_eq_ok.2
    ⟨plaintext, compressed, content, hplaintext, hcompressed, hcontent, rfl⟩⟩

theorem sealContent_protectedText (h : t.sealContent p rng a contentKey = .ok after) :
    after.protectedText = Header.encode after.protectedHeader := by
  obtain ⟨_, _, _, _, _, _, rfl⟩ := sealContent_eq_ok.1 h
  rfl

theorem sealContent_plaintext (h : t.sealContent p rng a contentKey = .ok after) :
    after.plaintext = t.plaintext := by
  obtain ⟨_, _, _, _, _, _, rfl⟩ := sealContent_eq_ok.1 h
  rfl

theorem withContent_plaintext (h : t.withContent p rng a contentKey = .ok after) :
    after.plaintext = t.plaintext := by
  unfold withContent at h
  split at h
  · obtain rfl := Except.ok.inj h
    rfl
  · obtain ⟨t', hsealed, h⟩ := bind_eq_ok.1 h
    obtain rfl := Except.ok.inj h
    have hkept := sealContent_plaintext hsealed
    exact hkept

/-- A recipient is added by wrapping the content key under the algorithms of its
merged header. -/
theorem addRecipient_eq_ok {header : Option Object} :
    t.addRecipient p rng key header = .ok after ↔
      t.plaintext.isSome = true ∧ ∃ merged management encryption wrapped sealed,
        t.merged (some (header.getD .empty)) = .ok merged ∧
        algorithms t.options merged = .ok (management, encryption) ∧
        t.checkSameAlgorithm encryption = .ok () ∧
        management.wrap p (rng.fork 0) key encryption.keySize t.contentKey merged
          t.options.limits = .ok wrapped ∧
        t.withContent p (rng.fork 1) encryption wrapped.contentKey = .ok sealed ∧
        after = { sealed with
          recipients := sealed.recipients ++
            [{ header := Header.nonempty
                (some (addParameters (header.getD .empty) merged wrapped.header))
               encryptedKey := wrapped.encryptedKey }] } := by
  unfold addRecipient
  cases hplaintext : t.plaintext with
  | none => simp
  | some plaintext =>
      simp only [Option.isNone_some, Bool.false_eq_true, if_false, bind_eq_ok, pure_eq_ok,
        Except.ok.injEq, Option.isSome_some, true_and]
      constructor
      · rintro ⟨merged, hmerged, ⟨management, encryption⟩, halgorithms, _, hsame, wrapped, hwrapped,
          sealed, hsealed, rfl⟩
        exact ⟨merged, management, encryption, wrapped, sealed, hmerged, halgorithms, hsame,
          hwrapped, hsealed, rfl⟩
      · rintro ⟨merged, management, encryption, wrapped, sealed, hmerged, halgorithms, hsame,
          hwrapped, hsealed, rfl⟩
        exact ⟨merged, hmerged, (management, encryption), halgorithms, (), hsame, wrapped, hwrapped,
          sealed, hsealed, rfl⟩

theorem addRecipient_plaintext {header : Option Object}
    (h : t.addRecipient p rng key header = .ok after) : after.plaintext = t.plaintext := by
  obtain ⟨_, _, _, _, _, sealed, _, _, _, _, hsealed, rfl⟩ := addRecipient_eq_ok.1 h
  have hkept := withContent_plaintext hsealed
  exact hkept

/-! ### Writing -/

theorem protectHeader_plaintext (p : Primitives) (rng : Entropy) (t : Jwe) (r : Recipient) :
    (t.protectHeader p rng r).2.plaintext = t.plaintext := by
  unfold protectHeader
  split
  · dsimp only
    split
    · rfl
    · split
      · next sealed hsealed =>
          -- what is encrypted again has its headers moved, and still its plaintext
          have hkept := sealContent_plaintext hsealed
          exact hkept
      · rfl
  · rfl

theorem serializeCompact_plaintext : (t.serializeCompact p rng).2.plaintext = t.plaintext := by
  unfold serializeCompact
  split
  · rfl
  · next r hr =>
      have hplaintext := protectHeader_plaintext p rng t r
      split
      · rfl
      · split
        · next hprotect => rwa [hprotect] at hplaintext
        · next hprotect => rwa [hprotect] at hplaintext

/-- Writing a token may encrypt its content again, and leaves the plaintext. -/
theorem serialize_plaintext {compact : Bool} :
    (t.serialize p rng compact).2.plaintext = t.plaintext := by
  unfold serialize
  split
  · rfl
  · cases compact with
    | false => rfl
    | true => exact serializeCompact_plaintext

end SealedToken.Jwe
