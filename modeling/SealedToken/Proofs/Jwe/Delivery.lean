import SealedToken.Proofs.Aes.Gcm
import SealedToken.Proofs.Jwe.Reading
import SealedToken.Proofs.Jwe.Sharing
import SealedToken.Proofs.Jwe.Unlocking
import SealedToken.Proofs.KeyManagement.Recovery

/-!
The content reaches every recipient. Each addition of a recipient wraps the one key of the
content for it, under parameters that it finds again in its merged header; what is written
in the JSON form is read with all of them, and the owner of its key opens the content.
-/

namespace SealedToken.Jwe

variable {p : Primitives} {start t : Jwe}

/-! ### The header of a recipient -/

section Added

variable {rng : Entropy} {key : Jwk} {header : Option Object} (added : Added p rng t key header)

/-- A recipient finds in its merged header all that its algorithm has added, even where a
parameter was there already. -/
theorem Added.carries (hlimit : t.options.limits.maxIterations < 2 ^ 32) :
    added.management.Carries added.merged added.wrapped.header
      (t.parameters added.recipient.header) where
  added name value hvalue := by
    rw [added.find?_parameters]
    cases hextra : added.extra.find? name with
    | some other =>
        obtain ⟨hother, -⟩ := added.find?_extra.1 hextra
        rw [Option.some_or, ← hvalue, hother]
    | none =>
        -- it was left out because the merged header has it, and there is one way to write it
        cases hsame : (added.merged.find? name).any (·.same value) with
        | false => simp [added.find?_extra.2 ⟨hvalue, hsame⟩] at hextra
        | true =>
            obtain ⟨other, hother, hsame⟩ := (Option.any_eq_true _ _).1 hsame
            rw [Option.none_or, hother,
              (KeyManagementAlgorithm.plain_of_wrap hlimit added.wraps _ _ hvalue).eq_of_same hsame]
  kept _ hname := added.find?_parameters_of_not_mem hname

/-- What an algorithm adds can be written wherever the header of a recipient can. -/
theorem Added.codable_recipient {levels : Nat} (hlimit : t.options.limits.maxIterations < 2 ^ 32)
    (h : (header.getD .empty).Codable (levels + 1)) :
    Header.Codable (levels + 1) added.recipient.header := by
  refine ⟨by simp [Added.recipient, Header.nonempty], ?_⟩
  rw [added.recipient_header_getD]
  refine h.union (Object.Codable.filter fun name value hvalue => ?_)
  exact (KeyManagementAlgorithm.plain_of_wrap hlimit added.wraps _ _ hvalue).codable

end Added

/-! ### The run of additions -/

/-- A token before the first recipient is added to it. -/
def draft (plaintext : ByteArray) (protectedHeader sharedHeader : Option Object)
    (aad : Option ByteArray) (options : JweOptions) : Jwe :=
  { ofPlaintext plaintext protectedHeader sharedHeader with aad, options }

/-- A call that adds a recipient. -/
structure Addition where
  rng : Entropy
  key : Jwk
  header : Option Object

/-- The token with recipients added one after the other. -/
def addAll (p : Primitives) (t : Jwe) (additions : List Addition) : Except Error Jwe :=
  additions.foldlM (fun t c => t.addRecipient p c.rng c.key c.header) t

variable {c : Addition} {r : Recipient} {additions : List Addition} {plaintext : ByteArray}

/-- A recipient was added by a call, and the key that is held was wrapped for it. -/
def Brought (p : Primitives) (t : Jwe) (c : Addition) (r : Recipient) : Prop :=
  ∃ (before : Jwe) (added : Added p c.rng before c.key c.header), r = added.recipient ∧
    before.options = t.options ∧ before.common = t.common ∧
    t.algorithm = some added.encryption ∧ t.contentKey = some added.wrapped.contentKey

/-- What holds of a token after a run of additions. -/
structure Delivered (p : Primitives) (plaintext : ByteArray) (start t : Jwe)
    (additions : List Addition) : Prop where
  started : Started t
  /-- Apart from the encryption and the recipients it is the token it was. -/
  kept : t.unsealed = { start.unsealed with recipients := t.recipients }
  brought : List.Forall₂ (Brought p t) additions t.recipients
  text : t.content.isSome = true → t.protectedText = Header.encode t.protectedHeader
  contains : ∀ content, t.content = some content → ∃ a contentKey, t.algorithm = some a ∧
    t.contentKey = some contentKey ∧ (a.Inverts p → Contains p t content a contentKey plaintext)

namespace Delivered

variable (h : Delivered p plaintext start t additions)
include h

theorem options_eq : t.options = start.options := by
  simpa only [unsealed] using congrArg Jwe.options h.kept

theorem protectedHeader_eq : t.protectedHeader = start.protectedHeader := by
  simpa only [unsealed] using congrArg Jwe.protectedHeader h.kept

theorem sharedHeader_eq : t.sharedHeader = start.sharedHeader := by
  simpa only [unsealed] using congrArg Jwe.sharedHeader h.kept

theorem plaintext_eq : t.plaintext = start.plaintext := by
  simpa only [unsealed] using congrArg Jwe.plaintext h.kept

section Step

variable (added : Added p c.rng t c.key c.header)

/-- Behind the first recipient nothing is encrypted. -/
theorem add_later (hcontent : t.content.isSome = true)
    (hafter : added.after = { t with recipients := t.recipients ++ [added.recipient] }) :
    Delivered p plaintext start added.after (additions ++ [c]) := by
  have hne : t.recipients ≠ [] := h.started.coherent.content.1 hcontent
  have hheld := (h.started.wraps_held added hne).2
  have halgorithm : t.algorithm = some added.encryption := by
    obtain ⟨chosen, hchosen⟩ := Option.isSome_iff_exists.1
      (h.started.coherent.algorithm.2 (by simp [hheld]))
    have hchecked := added.sameEncryption
    rw [checkSameAlgorithm, hchosen] at hchecked
    dsimp only at hchecked
    split at hchecked
    · next heq => rw [hchosen, heq]
    · simp at hchecked
  refine ⟨h.started.addRecipient added, ?_, ?_, ?_, ?_⟩
  · rw [added.unsealed_eq, h.kept, added.recipients_eq]
  · rw [added.recipients_eq]
    refine List.rel_append (h.brought.imp fun c' r hr => ?_) (.cons ?_ .nil)
    · rw [hafter]
      exact hr
    · rw [hafter]
      exact ⟨t, added, rfl, rfl, rfl, halgorithm, hheld⟩
  · rw [hafter]
    exact h.text
  · rw [hafter]
    intro content hsome
    obtain ⟨a, contentKey, ha, hkey, hcontains⟩ := h.contains content hsome
    exact ⟨a, contentKey, ha, hkey, fun hinverts => ⟨(hcontains hinverts).opens⟩⟩

/-- The content is encrypted for the first recipient. -/
theorem add_first {encrypted : Jwe} (hnone : t.content = none)
    (hheld : start.plaintext = some plaintext)
    (hexpands : compresses start.protectedHeader = .ok true →
      Deflate.inflate (Deflate.deflate plaintext) start.options.maxSize = .ok plaintext)
    (hsealed : t.sealContent p (c.rng.fork 1) added.encryption added.wrapped.contentKey =
      .ok encrypted)
    (hafter : added.after = { encrypted with
      algorithm := some added.encryption
      contentKey := some added.wrapped.contentKey
      recipients := t.recipients ++ [added.recipient] }) :
    Delivered p plaintext start added.after (additions ++ [c]) := by
  have hempty := h.started.coherent.recipients_eq_nil hnone
  obtain rfl : additions = [] := by
    have hbrought := h.brought
    rw [hempty] at hbrought
    exact List.forall₂_nil_right_iff.1 hbrought
  have halgorithm : added.after.algorithm = some added.encryption := by rw [hafter]
  have hcontentKey : added.after.contentKey = some added.wrapped.contentKey := by rw [hafter]
  refine ⟨h.started.addRecipient added, ?_, ?_, fun _ => ?_, fun content hcontent => ?_⟩
  · rw [added.unsealed_eq, h.kept, added.recipients_eq]
  · rw [added.recipients_eq, hempty]
    exact .cons ⟨t, added, rfl, added.options_eq.symm, added.common_eq.symm, halgorithm,
      hcontentKey⟩ .nil
  · have htext := sealContent_protectedText hsealed
    rwa [hafter]
  · refine ⟨_, _, halgorithm, hcontentKey, fun hinverts => ?_⟩
    have hexpands' : compresses encrypted.protectedHeader = .ok true →
        Deflate.inflate (Deflate.deflate plaintext) encrypted.options.maxSize = .ok plaintext := by
      obtain ⟨_, _, _, _, _, _, rfl⟩ := sealContent_eq_ok.1 hsealed
      rwa [h.protectedHeader_eq, h.options_eq]
    obtain ⟨content', hcontent', hcontains⟩ := contains_of_sealContent hinverts
      (h.plaintext_eq.trans hheld) hexpands' hsealed
    have hcontent : encrypted.content = some content := by rwa [hafter] at hcontent
    obtain rfl := Option.some.inj (hcontent'.symm.trans hcontent)
    rw [hafter]
    exact ⟨hcontains.opens⟩

end Step

end Delivered

/-- One addition. -/
theorem Delivered.addRecipient {after : Jwe} (h : Delivered p plaintext start t additions)
    (hheld : start.plaintext = some plaintext)
    (hexpands : compresses start.protectedHeader = .ok true →
      Deflate.inflate (Deflate.deflate plaintext) start.options.maxSize = .ok plaintext)
    (hadd : t.addRecipient p c.rng c.key c.header = .ok after) :
    Delivered p plaintext start after (additions ++ [c]) := by
  obtain ⟨added, rfl⟩ := addRecipient_iff.1 hadd
  rcases added.after_cases with ⟨hcontent, hafter⟩ | ⟨hnone, encrypted, hsealed, hafter⟩
  · exact h.add_later added hcontent hafter
  · exact h.add_first added hnone hheld hexpands hsealed hafter

/-- All of them. -/
theorem Delivered.addAll {done : List Addition} (h : Delivered p plaintext start t done)
    (hheld : start.plaintext = some plaintext)
    (hexpands : compresses start.protectedHeader = .ok true →
      Deflate.inflate (Deflate.deflate plaintext) start.options.maxSize = .ok plaintext)
    {after : Jwe} (hrun : t.addAll p additions = .ok after) :
    Delivered p plaintext start after (done ++ additions) := by
  induction additions generalizing t done with
  | nil =>
      obtain rfl := Except.ok.inj hrun
      rwa [List.append_nil]
  | cons c rest ih =>
      rw [Jwe.addAll, List.foldlM_cons] at hrun
      obtain ⟨next, hadd, hrun⟩ := bind_eq_ok.1 hrun
      rw [← List.singleton_append, ← List.append_assoc]
      exact ih (h.addRecipient hheld hexpands hadd) hrun

/-! ### What a recipient finds -/

/-- The owner of the key of a recipient recovers the key of the content, when the header of
the recipient can be merged. -/
theorem Brought.unwraps {own : Jwk} {header : Object} {kid : Option String}
    (h : Brought p t c r) (hlimit : t.options.limits.maxIterations < 2 ^ 32)
    (hmerged : t.merged r.header = .ok header) (hkid : Header.text? header "kid" = .ok kid)
    (hcompressible : ∃ compressed, compresses t.protectedHeader = .ok compressed)
    (howner : c.key.PrivateOf own)
    (hrecovers : ∀ a : KeyManagementAlgorithm, header.find? "alg" = some (.str a.name) →
      own.permits a.recoveryOperation = true ∧ a.Inverts p own) :
    ∃ (checked : Checked t r) (contentKey : ByteArray), t.algorithm = some checked.encryption ∧
      t.contentKey = some contentKey ∧ ∀ rng, checked.management.unwrap p rng own
        checked.encryption.keySize r.encryptedKey checked.header t.options.limits =
          .ok contentKey := by
  obtain ⟨before, added, rfl, hoptions, hcommon, halgorithm, hcontentKey⟩ := h
  have hheader : before.parameters added.recipient.header = header := by
    rw [parameters, hcommon]
    exact parameters_of_merged hmerged
  have halg := added.find?_alg
  have henc := added.find?_enc
  rw [hheader] at halg henc
  rw [KeyManagementAlgorithm.name_of_lookup added.managementRegistered] at halg
  have hlimit' : before.options.limits.maxIterations < 2 ^ 32 := by rwa [hoptions]
  have hcarries := added.carries hlimit'
  rw [hheader] at hcarries
  obtain ⟨hpermits, hinverts⟩ := hrecovers added.management
    (by rw [halg, KeyManagementAlgorithm.name_of_lookup added.managementRegistered])
  have hunwrap (rng : Entropy) : added.management.unwrap p rng own added.encryption.keySize
      added.recipient.encryptedKey header t.options.limits = .ok added.wrapped.contentKey := by
    rw [← hoptions]
    exact KeyManagementAlgorithm.unwrap_wrap rng howner hpermits hinverts hlimit' added.wraps
      hcarries
  exact ⟨{
    header, kid
    managementName := added.managementName
    encryptionName := added.encryptionName
    management := added.management
    encryption := added.encryption
    merged := hmerged
    managementNamed := ⟨halg, hoptions ▸ added.managementNamed.permitted⟩
    managementRegistered := added.managementRegistered
    encryptionNamed := ⟨henc, hoptions ▸ added.encryptionNamed.permitted⟩
    encryptionRegistered := added.encryptionRegistered
    compressible := hcompressible
    identified := hkid }, _, halgorithm, hcontentKey, hunwrap⟩

/-- The algorithms of a recipient are those that its merged header names. -/
theorem Checked.management_eq (checked : Checked t r) {a : KeyManagementAlgorithm} {name : String}
    (hnamed : (t.parameters r.header).find? "alg" = some (.str name))
    (hregistered : KeyManagementAlgorithm.lookup name = .ok a) : checked.management = a := by
  rw [parameters_of_merged checked.merged] at hnamed
  have hlookup := checked.managementRegistered
  rw [checked.managementNamed.name_eq hnamed, hregistered] at hlookup
  exact (Except.ok.inj hlookup).symm

theorem Checked.encryption_eq (checked : Checked t r) {a : ContentEncryptionAlgorithm}
    {name : String} (hnamed : (t.parameters r.header).find? "enc" = some (.str name))
    (hregistered : ContentEncryptionAlgorithm.lookup name = .ok a) : checked.encryption = a := by
  rw [parameters_of_merged checked.merged] at hnamed
  have hlookup := checked.encryptionRegistered
  rw [checked.encryptionNamed.name_eq hnamed, hregistered] at hlookup
  exact (Except.ok.inj hlookup).symm

/-- All recipients agree on the algorithm of the content. -/
theorem Brought.encryption_eq (h : Brought p t c r) (checked : Checked t r) :
    t.algorithm = some checked.encryption := by
  obtain ⟨before, added, rfl, -, hcommon, halgorithm, -⟩ := h
  have henc : (t.parameters added.recipient.header).find? "enc" =
      some (.str added.encryptionName) := by
    rw [parameters, ← hcommon]
    exact added.find?_enc
  rw [checked.encryption_eq henc added.encryptionRegistered]
  exact halgorithm

/-- Through a recipient a key leads to no key that opens the content but the one that is
held. -/
def OpensNoOther (p : Primitives) (supply : Recipient → Jwk → Entropy) (t : Jwe) (key : Jwk)
    (r : Recipient) : Prop :=
  ∀ content (checked : Checked t r) contentKey text, t.content = some content →
    checked.management.unwrap p (supply r key) key checked.encryption.keySize r.encryptedKey
      checked.header t.options.limits = .ok contentKey →
    checked.encryption.decrypt p contentKey (contentAad t.protectedText t.aad) content = .ok text →
    t.contentKey = some contentKey

/-- The owner of the key of a recipient opens the content, if the recipients before it give
nothing else. -/
theorem Delivered.decrypt {supply : Recipient → Jwk → Entropy} {own : Jwk} {header : Object}
    {kid : Option String} {content : EncryptedContent} {before rest : List Recipient}
    (h : Delivered p plaintext start t additions) (hcontent : t.content = some content)
    (hinverts : ∀ a : ContentEncryptionAlgorithm, t.algorithm = some a → a.Inverts p)
    (hlimit : t.options.limits.maxIterations < 2 ^ 32)
    (hrecipients : t.recipients = before ++ r :: rest) (hbrought : Brought p t c r)
    (hmerged : t.merged r.header = .ok header) (hkid : Header.text? header "kid" = .ok kid)
    (howner : c.key.PrivateOf own)
    (hrecovers : ∀ a : KeyManagementAlgorithm, header.find? "alg" = some (.str a.name) →
      own.permits a.recoveryOperation = true ∧ a.Inverts p own)
    (hforeign : ∀ q ∈ before, OpensNoOther p supply t own q) :
    ∃ after, t.undecrypted.decrypt p supply (.single own) = (.ok (), after) ∧
      after.plaintext = some plaintext := by
  obtain ⟨a, contentKey, ha, hheld, hcontains⟩ := h.contains content hcontent
  have hcontains := hcontains (hinverts a ha)
  obtain ⟨-, compressed, hcompressed, -⟩ := hcontains.opens
  obtain ⟨checked, contentKey', halgorithm, hheld', hunwrap⟩ :=
    hbrought.unwraps hlimit hmerged hkid ⟨_, hcompressed⟩ howner hrecovers
  obtain rfl := Option.some.inj (hheld.symm.trans hheld')
  obtain rfl := Option.some.inj (ha.symm.trans halgorithm)
  have hbefore (q) (hq : q ∈ before) : GoesPast p supply t content (.single own) q ∨
      ∃ opened, (t.openFor p supply content (.single own) q).1 = .ok opened ∧
        opened.plaintext = plaintext := by
    refine goesPast_or_opens fun checked' contentKey' text hunwrap' hdecrypt => ?_
    obtain ⟨c', -, hbrought'⟩ :=
      exists_of_forall₂ h.brought (hrecipients ▸ List.mem_append_left _ hq)
    have hheld' := hforeign q hq content checked' contentKey' text hcontent hunwrap' hdecrypt
    obtain rfl := Option.some.inj (hheld.symm.trans hheld')
    have halgorithm' := hbrought'.encryption_eq checked'
    rwa [Option.some.inj (halgorithm'.symm.trans ha)]
  -- nothing that a decryption reads is among what the sender holds
  exact decrypt_of_opens (t := t.undecrypted) hcontent hrecipients
    ⟨_, openFor_of_unwrap checked hcontains (hunwrap _), rfl⟩ hbefore

/-! ### The written form -/

/-- Headers that are given for a token and for its recipients, and that their texts stand
for. How deep the values may be is a matter of the place that the header has in the JSON
form. -/
structure HeadersCodable (protectedHeader sharedHeader : Option Object)
    (additions : List Addition) : Prop where
  protectedHeader : (protectedHeader.getD .empty).Codable (Json.nestingLimit - 1)
  sharedHeader : (sharedHeader.getD .empty).Codable (Json.nestingLimit - 2)
  own : ∀ c ∈ additions, (c.header.getD .empty).Codable (ownLevels additions)

theorem codable_nonempty {levels : Nat} {header : Option Object}
    (h : (header.getD .empty).Codable levels) : Header.Codable levels (Header.nonempty header) := by
  refine ⟨by simp [Header.nonempty], ?_⟩
  rwa [Header.getD_nonempty]

theorem ownLevels_eq {α : Type} (as : List α) :
    ownLevels as =
      (if as.length = 1 then Json.nestingLimit - 3 else Json.nestingLimit - 5) + 1 := by
  match as with
  | [] | [_] | _ :: _ :: _ => rfl

section Sent

variable {protectedHeader sharedHeader : Option Object} {aad : Option ByteArray}
  {options : JweOptions}

theorem delivered_draft :
    Delivered p plaintext (draft plaintext protectedHeader sharedHeader aad options)
      (draft plaintext protectedHeader sharedHeader aad options) [] where
  started := started_ofPlaintext.changes (p := p) (.beside (some plaintext) aad options [])
  kept := rfl
  brought := .nil
  text := by simp [draft, ofPlaintext]
  contains := by simp [draft, ofPlaintext]

/-- Such a token can be written with all that its algorithms have added. -/
theorem Delivered.writable
    (h : Delivered p plaintext (draft plaintext protectedHeader sharedHeader aad options) t
      additions)
    (hcontent : t.content.isSome = true) (hlimit : options.limits.maxIterations < 2 ^ 32)
    (hcodable : HeadersCodable protectedHeader sharedHeader additions) : Writable t where
  text := by
    rw [h.text hcontent, h.protectedHeader_eq]
    exact Header.decode_encode (codable_nonempty hcodable.protectedHeader)
  shared := by
    rw [h.sharedHeader_eq]
    exact codable_nonempty hcodable.sharedHeader
  own r hr := by
    obtain ⟨c, hc, before, added, rfl, hoptions, -⟩ := exists_of_forall₂ h.brought hr
    have hlimit' : before.options.limits.maxIterations < 2 ^ 32 := by
      rwa [hoptions, h.options_eq]
    have hown := hcodable.own c hc
    rw [ownLevels_eq, h.brought.length_eq] at hown
    rw [ownLevels_eq]
    exact added.codable_recipient hlimit' hown

/-- Let a token be started from a plaintext, and let recipients be added to it with keys
for any algorithms. When it is written in the JSON form, the text is read as a token of
which the owner of each of these keys opens the content and gets the plaintext, if the
header of that recipient can be merged. A limit on repetitions is a number of 32 bits. -/
theorem every_recipient_decrypts {supply : Recipient → Jwk → Entropy} {rng : Entropy}
    {text : String} {i : Nat} {header : Object} {kid : Option String} {own : Jwk}
    (hrun : (draft plaintext protectedHeader sharedHeader aad options).addAll p additions = .ok t)
    (hwritten : (t.serialize p rng false).1 = .ok text)
    (hcodable : HeadersCodable protectedHeader sharedHeader additions)
    (hlimit : options.limits.maxIterations < 2 ^ 32)
    (hsize : compresses (Header.nonempty protectedHeader) = .ok true →
      plaintext.size ≤ options.maxSize)
    (hdeflate : plaintext.size ≤ options.maxSize →
      Deflate.inflate (Deflate.deflate plaintext) options.maxSize = .ok plaintext)
    (hinverts : ∀ a : ContentEncryptionAlgorithm, t.algorithm = some a → a.Inverts p)
    (hadded : additions[i]? = some c) (hheader : t.headerAt i = .ok header)
    (hkid : Header.text? header "kid" = .ok kid) (howner : c.key.PrivateOf own)
    (hrecovers : ∀ a : KeyManagementAlgorithm, header.find? "alg" = some (.str a.name) →
      own.permits a.recoveryOperation = true ∧ a.Inverts p own)
    (hforeign : ∀ q ∈ t.recipients.take i, OpensNoOther p supply t own q) :
    ∃ read, deserialize text = .ok read ∧ ∃ after,
      Jwe.decrypt p supply { read with options } (.single own) = (.ok (), after) ∧
        after.plaintext = some plaintext := by
  have h : Delivered p plaintext (draft plaintext protectedHeader sharedHeader aad options) t
      additions := delivered_draft.addAll rfl (fun hzip => hdeflate (hsize hzip)) hrun
  have hlimit' : t.options.limits.maxIterations < 2 ^ 32 := by rwa [h.options_eq]
  -- the recipient at this place was brought the key by the call at this place
  have hi : i < additions.length := (List.getElem?_eq_some_iff.1 hadded).1
  have hi' : i < t.recipients.length := h.brought.length_eq ▸ hi
  have hbrought : Brought p t c t.recipients[i] := by
    have hbrought := h.brought.get hi hi'
    rwa [List.get_eq_getElem, (List.getElem?_eq_some_iff.1 hadded).2] at hbrought
  have hrecipients : t.recipients =
      t.recipients.take i ++ t.recipients[i] :: t.recipients.drop (i + 1) := by
    simp
  have hmerged : t.merged t.recipients[i].header = .ok header := by
    simpa [headerAt, hi'] using hheader
  cases hcontent : t.content with
  | none => simp [serialize, hcontent] at hwritten
  | some content =>
      have hne : t.recipients ≠ [] := List.ne_nil_of_length_pos (Nat.zero_lt_of_lt hi')
      have hwritable := h.writable (by simp [hcontent]) hlimit hcodable
      have hread := deserialize_jsonText hwritable hne hcontent
      rw [serialize, hcontent] at hwritten
      obtain rfl := Except.ok.inj hwritten
      refine ⟨_, hread, ?_⟩
      have hsame : ({ t.undecrypted with options } : Jwe) = t.undecrypted := by
        rw [show options = t.options from h.options_eq.symm]
        rfl
      obtain ⟨after, hdecrypt, hplaintext⟩ := h.decrypt hcontent hinverts hlimit' hrecipients
        hbrought hmerged hkid howner hrecovers hforeign
      exact ⟨after, hsame ▸ hdecrypt, hplaintext⟩

end Sent

/-! ### Two recipients -/

def gcmWrapHeader : Object :=
  .ofMembers [("alg", .str (KeyManagementAlgorithm.aesGcmKeyWrap .aes256).name)]

/-- A key of the other size. -/
def wideKey : Jwk := .ofOctets (Bytes.zeros 32)

/-- A recipient whose secret becomes the key of the content, and one for whom it is
encrypted. -/
def twoAdditions : List Addition :=
  [⟨zeros, zeroKey, some directHeader⟩, ⟨zeros, wideKey, some gcmWrapHeader⟩]

theorem exists_twoAdded :
    ∃ (first : Added .standard zeros unshared zeroKey (some directHeader))
      (second : Added .standard zeros first.after wideKey (some gcmWrapHeader)),
      unshared.addAll .standard twoAdditions = .ok second.after ∧
        second.after.content.isSome = true ∧ second.after.algorithm = some (.gcm .aes128) ∧
        first.recipient.header = some directHeader ∧
        second.merged = unshared.parameters (some gcmWrapHeader) ∧
        second.management = .aesGcmKeyWrap .aes256 := by
  obtain ⟨first, hheld, hcontent, halgorithm, hcontentKey, hheader⟩ := exists_directAdded
  let merged := unshared.parameters (some gcmWrapHeader)
  have halg : Names first.after.options merged "alg"
      (KeyManagementAlgorithm.aesGcmKeyWrap .aes256).name :=
    .of_registered (by rw [first.options_eq]; rfl) (by decide +kernel) (by decide +kernel)
      (by decide +kernel)
  have henc : Names first.after.options merged "enc"
      (ContentEncryptionAlgorithm.gcm .aes128).name :=
    .of_registered (by rw [first.options_eq]; rfl) (by decide +kernel) (by decide +kernel)
      (by decide +kernel)
  have hmerges : first.after.merged (some gcmWrapHeader) = .ok merged :=
    (first.merged_eq _).trans (toOption_eq_some.1 (by decide +kernel))
  have hwraps : ∃ wrapped, KeyManagementAlgorithm.wrap .standard (zeros.fork 0)
      (.aesGcmKeyWrap .aes256) wideKey (ContentEncryptionAlgorithm.gcm .aes128).keySize
      (some (Bytes.zeros 16)) merged {} = .ok wrapped :=
    ⟨_, bind_eq_ok.2 ⟨_, rfl, bind_eq_ok.2 ⟨_, rfl, rfl⟩⟩⟩
  obtain ⟨wrapped, hwraps⟩ := hwraps
  obtain ⟨second⟩ :=
    @Added.exists_later .standard zeros first.after wideKey (some gcmWrapHeader) merged
      (.aesGcmKeyWrap .aes256) (.gcm .aes128) wrapped hheld hcontent halgorithm hmerges halg henc
      (by rw [hcontentKey, first.options_eq]; exact hwraps)
  have hmerged : second.merged = merged := Except.ok.inj (second.merges.symm.trans hmerges)
  have hlater := second.after_cases.resolve_right fun hfirst => by simp [hfirst.1] at hcontent
  obtain ⟨-, hafter⟩ := hlater
  have hmanagement : second.management = .aesGcmKeyWrap .aes256 :=
    second.management_eq (by rw [hmerged, halg.named])
  refine ⟨first, second, ?_, ?_, ?_, hheader, hmerged, hmanagement⟩
  · rw [addAll, twoAdditions, List.foldlM_cons, addRecipient_iff.2 ⟨first, rfl⟩, ok_bind,
      List.foldlM_cons, addRecipient_iff.2 ⟨second, rfl⟩, ok_bind]
    rfl
  · rw [hafter]
    exact hcontent
  · rw [hafter]
    exact halgorithm

section TwoAdded

variable {first : Added .standard zeros unshared zeroKey (some directHeader)}
  (second : Added .standard zeros first.after wideKey (some gcmWrapHeader))

/-- What the algorithm of the second recipient adds is in nobody's way. -/
theorem exists_headerAt_second (hmerged : second.merged = unshared.parameters (some gcmWrapHeader))
    (hmanagement : second.management = .aesGcmKeyWrap .aes256) :
    ∃ header, second.after.headerAt 1 = .ok header ∧ Header.text? header "kid" = .ok none ∧
      header.find? "alg" = some (.str (KeyManagementAlgorithm.aesGcmKeyWrap .aes256).name) := by
  have hadmits : first.after.options.registry.Admits first.after.common second.extra := by
    intro name hname
    have hadded := second.mem_parameters_of_extra hname
    rw [hmanagement] at hadded
    rw [first.options_eq, first.common_eq]
    clear hname
    revert name
    decide +kernel
  have hheader := second.headerAt_length
  rw [second.merged_recipient_eq_ok.2 ⟨hadmits, rfl⟩, first.recipients_eq] at hheader
  refine ⟨_, hheader, Header.text?_eq_ok_none.2 ?_, ?_⟩
  · have hkid : "kid" ∉ second.management.parameters := by
      simp [hmanagement, KeyManagementAlgorithm.parameters]
    rw [second.find?_parameters_of_not_mem hkid, hmerged]
    decide +kernel
  · rw [second.find?_alg, hmanagement]

end TwoAdded

/-- The wide key opens nothing through a recipient whose secret is the key of the content. -/
theorem opensNoOther_direct {supply : Recipient → Jwk → Entropy}
    (halg : (t.parameters r.header).find? "alg" = some (.str KeyManagementAlgorithm.direct.name))
    (henc : (t.parameters r.header).find? "enc" =
      some (.str (ContentEncryptionAlgorithm.gcm .aes128).name)) :
    OpensNoOther p supply t wideKey r := by
  intro content checked contentKey text _ hunwrap
  rw [checked.management_eq halg (KeyManagementAlgorithm.lookup_name _),
    checked.encryption_eq henc (ContentEncryptionAlgorithm.lookup_name _)] at hunwrap
  -- its size is another
  obtain ⟨recovered, hrecover, hchecked⟩ := bind_eq_ok.1 hunwrap
  have hsize := checkKeySize_eq_ok.1 (seq_eq_ok.1 hchecked).1
  obtain ⟨-, hrecover⟩ := seq_eq_ok.1 hrecover
  have hmaterial := (Jwk.octets_eq_ok.1 hrecover).2
  obtain rfl : Bytes.zeros 32 = recovered := by simpa [wideKey, Jwk.ofOctets] using hmaterial
  exact absurd hsize (by decide)

/-- The second recipient opens what the first one has determined the key of. -/
theorem second_recipient_decrypts :
    ∃ t text, unshared.addAll .standard twoAdditions = .ok t ∧
      (t.serialize .standard zeros false).1 = .ok text ∧
      ∃ read, deserialize text = .ok read ∧ ∃ after,
        Jwe.decrypt .standard (fun _ _ => zeros) { read with options := {} } (.single wideKey) =
          (.ok (), after) ∧ after.plaintext = some "hi".toUTF8 := by
  obtain ⟨first, second, hrun, hcontent, halgorithm, hheader, hmerged, hmanagement⟩ :=
    exists_twoAdded
  obtain ⟨content, hcontent⟩ := Option.isSome_iff_exists.1 hcontent
  have hwritten : (second.after.serialize .standard zeros false).1 =
      .ok (second.after.jsonText content) := by
    rw [serialize, hcontent]
    rfl
  obtain ⟨header, hheaderAt, hkid, halg⟩ := exists_headerAt_second second hmerged hmanagement
  have hcodable : HeadersCodable (some (.ofMembers
      [("enc", .str (ContentEncryptionAlgorithm.gcm .aes128).name)])) none twoAdditions := by
    refine ⟨Object.codable_empty.insert (Json.codable_str _), Object.codable_empty, ?_⟩
    simp only [twoAdditions, List.forall_mem_cons]
    exact ⟨Object.codable_empty.insert (Json.codable_str _),
      Object.codable_empty.insert (Json.codable_str _), by simp⟩
  have hrecovers (a : KeyManagementAlgorithm) (ha : header.find? "alg" = some (.str a.name)) :
      wideKey.permits a.recoveryOperation = true ∧
        a.Inverts Primitives.standard wideKey := by
    rw [halg, Option.some.injEq, Json.str.injEq] at ha
    obtain rfl := KeyManagementAlgorithm.name_injective ha
    exact ⟨rfl, Primitives.standard_opensSealed⟩
  have hinverts (a : ContentEncryptionAlgorithm) (ha : second.after.algorithm = some a) :
      a.Inverts Primitives.standard := by
    obtain rfl := Option.some.inj (halgorithm.symm.trans ha)
    exact Primitives.standard_opensSealed
  have hforeign : ∀ q ∈ second.after.recipients.take 1,
      OpensNoOther .standard (fun _ _ => zeros) second.after wideKey q := by
    rw [second.recipients_eq, first.recipients_eq]
    intro q hq
    obtain rfl : q = first.recipient := by simpa [unshared, ofPlaintext] using hq
    refine opensNoOther_direct ?_ ?_ <;>
    · rw [second.parameters_eq, first.parameters_eq, hheader]
      decide +kernel
  have hdraft : (draft "hi".toUTF8 (some (.ofMembers
      [("enc", .str (ContentEncryptionAlgorithm.gcm .aes128).name)])) none none {}).addAll .standard
        twoAdditions = .ok second.after := hrun
  exact ⟨second.after, _, hrun, hwritten, every_recipient_decrypts hdraft hwritten hcodable
    (by decide) (by decide +kernel) (fun _ => toOption_eq_some.1 (by decide +kernel)) hinverts rfl
    hheaderAt hkid ⟨rfl, .inl rfl⟩ hrecovers hforeign⟩

end SealedToken.Jwe
