import SealedToken.Jwe.Decrypt
import SealedToken.Proofs.Algorithm
import SealedToken.Proofs.Deflate.Limit
import SealedToken.Proofs.Header

/-!
What a decryption opens. A recipient opens the content when its header passes every
check and one of the keys offered for it leads to the content key; what is decrypted
under that key is expanded if the protected header says so.
-/

namespace SealedToken.Jwe

variable {p : Primitives} {supply : Recipient → Jwk → Entropy} {options : JweOptions} {t : Jwe}
  {content : EncryptedContent} {keys : KeySource} {r : Recipient} {header : Object}

/-! ### The header of a recipient -/

/-- A header names an algorithm that is permitted. -/
structure Names (options : JweOptions) (header : Object) (parameter name : String) : Prop where
  named : header.find? parameter = some (.str name)
  permitted : Algorithm.Permitted options.allowed name

theorem Names.name_eq {options : JweOptions} {header : Object} {parameter name other : String}
    (h : Names options header parameter name)
    (hnamed : header.find? parameter = some (.str other)) : name = other :=
  Json.str.inj (Option.some.inj (h.named.symm.trans hnamed))

theorem allowedName_eq_ok {parameter name : String} :
    allowedName options header parameter = .ok name ↔ Names options header parameter name := by
  rw [allowedName, bind_eq_ok]
  constructor
  · rintro ⟨_ | name', hnamed, h⟩
    · simp at h
    · simp only [bind_eq_ok, pure_eq_ok, Except.ok.injEq] at h
      obtain ⟨_, hpermitted, rfl⟩ := h
      exact ⟨Header.text?_eq_ok_some.1 hnamed, Algorithm.checkAllowed_eq_ok.1 hpermitted⟩
  · rintro ⟨hnamed, hpermitted⟩
    refine ⟨some name, Header.text?_eq_ok_some.2 hnamed, ?_⟩
    simp [Algorithm.checkAllowed_eq_ok.2 hpermitted]

theorem algorithms_eq_ok {management : KeyManagementAlgorithm}
    {encryption : ContentEncryptionAlgorithm} :
    algorithms options header = .ok (management, encryption) ↔
      (∃ name, Names options header "alg" name ∧
        KeyManagementAlgorithm.lookup name = .ok management) ∧
      ∃ name, Names options header "enc" name ∧
        ContentEncryptionAlgorithm.lookup name = .ok encryption := by
  simp only [algorithms, bind_eq_ok, pure_eq_ok, Except.ok.injEq, Prod.mk.injEq,
    allowedName_eq_ok]
  constructor
  · rintro ⟨alg, halg, management, hmanagement, enc, henc, encryption, hencryption, rfl, rfl⟩
    exact ⟨⟨alg, halg, hmanagement⟩, enc, henc, hencryption⟩
  · rintro ⟨⟨alg, halg, hmanagement⟩, enc, henc, hencryption⟩
    exact ⟨alg, halg, management, hmanagement, enc, henc, encryption, hencryption, rfl, rfl⟩

/-- Does the protected header ask for compression? -/
def Compressed (t : Jwe) : Prop := t.protectedHeader.any (·.contains "zip") = true

/-- The compression that is found is the one the protected header asks for. -/
theorem compressed_of_compresses {compressed : Bool}
    (h : compresses t.protectedHeader = .ok compressed) : compressed = true ↔ Compressed t := by
  unfold compresses at h
  unfold Compressed
  split at h
  · next hnone =>
      obtain rfl := Except.ok.inj h
      simp [hnone]
  · next header hsome =>
      obtain ⟨zip, hzip, h⟩ := bind_eq_ok.1 h
      rw [hsome, Option.any_some]
      cases zip with
      | none =>
          obtain rfl := Except.ok.inj h
          simp [Object.contains_eq_isSome, Header.text?_eq_ok_none.1 hzip]
      | some name =>
          dsimp only at h
          split at h
          · obtain rfl := Except.ok.inj h
            simp [Object.contains_eq_isSome, Header.text?_eq_ok_some.1 hzip]
          · simp at h

/-- The header of a recipient that passes every check. No key has a part in it. -/
structure Checked (t : Jwe) (r : Recipient) where
  /-- The union of the protected, the shared and the recipient's own header. -/
  header : Object
  managementName : String
  encryptionName : String
  management : KeyManagementAlgorithm
  encryption : ContentEncryptionAlgorithm
  kid : Option String
  merged : t.merged r.header = .ok header
  managementNamed : Names t.options header "alg" managementName
  managementRegistered : KeyManagementAlgorithm.lookup managementName = .ok management
  encryptionNamed : Names t.options header "enc" encryptionName
  encryptionRegistered : ContentEncryptionAlgorithm.lookup encryptionName = .ok encryption
  compressible : ∃ compressed, compresses t.protectedHeader = .ok compressed
  identified : Header.text? header "kid" = .ok kid

theorem checked_of_prepare {pending : Pending} (h : t.prepare keys r = .ok pending) :
    ∃ checked : Checked t r, keys.candidates checked.kid = .ok pending.keys ∧
      compresses t.protectedHeader = .ok pending.compressed ∧
      pending.header = checked.header ∧ pending.management = checked.management ∧
      pending.encryption = checked.encryption := by
  simp only [prepare, bind_eq_ok, pure_eq_ok, Except.ok.injEq] at h
  obtain ⟨header, merged, ⟨management, encryption⟩, halgorithms, compressed, hcompressed, kid,
    identified, offered, hoffered, rfl⟩ := h
  obtain ⟨⟨alg, halg, hmanagement⟩, enc, henc, hencryption⟩ := algorithms_eq_ok.1 halgorithms
  exact ⟨⟨header, alg, enc, management, encryption, kid, merged, halg, hmanagement, henc,
    hencryption, ⟨compressed, hcompressed⟩, identified⟩, hoffered, hcompressed, rfl, rfl, rfl⟩

/-! ### The content -/

/-- What was encrypted, as it stands behind a compression: nothing is changed without
one, and an expansion keeps to the limit. -/
def Expands (t : Jwe) (text plaintext : ByteArray) : Prop :=
  (¬ Compressed t → plaintext = text) ∧
  (Compressed t → Deflate.inflate text t.options.maxSize = .ok plaintext ∧
    plaintext.size ≤ t.options.maxSize)

theorem expands_of_expand {compressed : Bool} {text plaintext : ByteArray}
    (hcompressed : compresses t.protectedHeader = .ok compressed)
    (h : expand t.options compressed text = .ok plaintext) : Expands t text plaintext := by
  have hiff := compressed_of_compresses hcompressed
  cases compressed with
  | false =>
      have hnot : ¬ Compressed t := fun hc => Bool.false_ne_true (hiff.2 hc)
      rw [expand, if_neg Bool.false_ne_true, Except.ok.injEq] at h
      exact ⟨fun _ => h.symm, fun hc => absurd hc hnot⟩
  | true =>
      rw [expand, if_pos rfl] at h
      exact ⟨fun hc => absurd (hiff.1 rfl) hc, fun _ => ⟨h, Deflate.inflate_size_le h⟩⟩

/-- A recipient whose header passes opens the content with one of the keys offered for
it: the key gives the content key, and under that the content is authentic. -/
def Checked.Unlocks (checked : Checked t r) (p : Primitives)
    (supply : Recipient → Jwk → Entropy) (content : EncryptedContent) (keys : KeySource)
    (opened : Opened) : Prop :=
  ∃ offered, keys.candidates checked.kid = .ok offered ∧
    ∃ key ∈ offered, ∃ text,
      checked.management.unwrap p (supply r key) key checked.encryption.keySize r.encryptedKey
        checked.header t.options.limits = .ok opened.contentKey ∧
      checked.encryption.decrypt p opened.contentKey (contentAad t.protectedText t.aad) content =
        .ok text ∧
      opened.algorithm = checked.encryption ∧ Expands t text opened.plaintext

/-- A recipient opens the content when its header passes and a key unlocks it. -/
def Opens (p : Primitives) (supply : Recipient → Jwk → Entropy) (t : Jwe)
    (content : EncryptedContent) (keys : KeySource) (r : Recipient) (opened : Opened) : Prop :=
  ∃ checked : Checked t r, checked.Unlocks p supply content keys opened

theorem opens_of_openFor {opened : Opened}
    (h : (t.openFor p supply content keys r).1 = .ok opened) :
    Opens p supply t content keys r opened := by
  unfold openFor at h
  split at h
  · simp at h
  · next pending hpending =>
      obtain ⟨checked, hoffered, hcompressed, hheader, hmanagement, hencryption⟩ :=
        checked_of_prepare hpending
      dsimp only at h
      split at h
      · next hsuccess =>
          -- the key that succeeded has given both the content key and the text
          obtain ⟨key, hkey, hattempt⟩ := tryEach_success hsuccess
          simp only [attempt, bind_eq_ok, pure_eq_ok, Except.ok.injEq, Prod.mk.injEq] at hattempt
          obtain ⟨contentKey, hunwrap, text, hdecrypt, rfl, rfl⟩ := hattempt
          rw [map_eq_ok] at h
          obtain ⟨plaintext, hexpand, rfl⟩ := h
          rw [hmanagement, hencryption, hheader] at hunwrap
          rw [hencryption] at hdecrypt
          exact ⟨checked, pending.keys, hoffered, key, hkey, text, hunwrap, hdecrypt, hencryption,
            expands_of_expand hcompressed hexpand⟩
      · simp at h

/-- The walk goes on behind a recipient that fails, unless the plaintext is too large. -/
def GoesPast (p : Primitives) (supply : Recipient → Jwk → Entropy) (t : Jwe)
    (content : EncryptedContent) (keys : KeySource) (r : Recipient) : Prop :=
  ∃ error, (t.openFor p supply content keys r).1 = .error error ∧
    ∀ limit, error ≠ .compressionLimitExceeded limit

/-- The walk gives what the first recipient opens that is not gone past. -/
theorem openFirst_eq_ok {rs : List Recipient} {failure : Option Error}
    {log : List FailedAttempt} {opened : Opened} :
    (t.openFirst p supply content keys failure log rs).1 = .ok opened ↔
      ∃ before r rest, rs = before ++ r :: rest ∧
        (t.openFor p supply content keys r).1 = .ok opened ∧
        ∀ q ∈ before, GoesPast p supply t content keys q := by
  induction rs generalizing failure log with
  | nil => simp [openFirst]
  | cons r rest ih =>
      rw [openFirst]
      split
      · next opened' more hopen =>
          constructor
          · rintro h
            obtain rfl := Except.ok.inj h
            exact ⟨[], r, rest, rfl, by rw [hopen], by simp⟩
          · rintro ⟨_ | ⟨q, before⟩, r', rest', heq, hopens, hbefore⟩
            · obtain ⟨rfl, -⟩ := List.cons.inj heq
              rw [hopen] at hopens
              exact hopens
            · -- a recipient that opens the content is not gone past
              obtain ⟨rfl, -⟩ := List.cons.inj heq
              obtain ⟨error, herror, -⟩ := hbefore r (by simp)
              simp [hopen] at herror
      · next limit more hopen =>
          simp only [reduceCtorEq, false_iff]
          rintro ⟨_ | ⟨q, before⟩, r', rest', heq, hopens, hbefore⟩
          · obtain ⟨rfl, -⟩ := List.cons.inj heq
            simp [hopen] at hopens
          · obtain ⟨rfl, -⟩ := List.cons.inj heq
            obtain ⟨error, herror, hlimit⟩ := hbefore r (by simp)
            exact absurd (by simpa [hopen] using herror.symm) (hlimit limit)
      · next error more hlimit hopen =>
          have hpast : GoesPast p supply t content keys r :=
            ⟨error, by rw [hopen], fun limit heq => hlimit limit heq⟩
          rw [ih]
          constructor
          · rintro ⟨before, r', rest', rfl, hopens, hbefore⟩
            exact ⟨r :: before, r', rest', rfl, hopens, by simpa [hpast] using hbefore⟩
          · rintro ⟨_ | ⟨q, before⟩, r', rest', heq, hopens, hbefore⟩
            · obtain ⟨rfl, -⟩ := List.cons.inj heq
              simp [hopen] at hopens
            · obtain ⟨-, rfl⟩ := List.cons.inj heq
              exact ⟨before, r', rest', rfl, hopens, fun q hq => hbefore q (by simp [hq])⟩

/-- What is opened was opened through one of the recipients. -/
theorem opens_of_openFirst {rs : List Recipient} {failure : Option Error}
    {log : List FailedAttempt} {opened : Opened}
    (h : (t.openFirst p supply content keys failure log rs).1 = .ok opened) :
    ∃ r ∈ rs, Opens p supply t content keys r opened := by
  obtain ⟨before, r, rest, rfl, hopens, -⟩ := openFirst_eq_ok.1 h
  exact ⟨r, by simp, opens_of_openFor hopens⟩

end SealedToken.Jwe
