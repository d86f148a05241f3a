import SealedToken.Primitives.Standard
import SealedToken.Proofs.Header.Union
import SealedToken.Proofs.Jwe.Opening
import SealedToken.Proofs.Jwe.Sealing
import SealedToken.Proofs.KeyManagement.Wrapping

/-!
The headers of recipients. Adding a recipient leaves the headers of all others as they
are. The header of the one that is added was a union of disjoint headers before its key
was wrapped; what the algorithm adds to it may be in the way of the protected or the
shared header.
-/

namespace SealedToken.Jwe

variable {p : Primitives} {rng : Entropy} {t : Jwe} {key : Jwk} {header : Option Object}
  {name : String}

/-! ### Merged headers -/

/-- The parameters that all recipients share. -/
def common (t : Jwe) : Object := (t.protectedHeader.getD .empty).union (t.sharedHeader.getD .empty)

/-- The parameters of a recipient with a header, whether or not they may stand side by
side. -/
def parameters (t : Jwe) (header : Option Object) : Object := t.common.union (header.getD .empty)

theorem merged_eq_ok {out : Object} :
    t.merged header = .ok out ↔
      t.options.registry.Admits (t.protectedHeader.getD .empty) (t.sharedHeader.getD .empty) ∧
        t.options.registry.Admits t.common (header.getD .empty) ∧ out = t.parameters header ∧
        t.options.registry.checkCritical out = .ok () :=
  HeaderRegistry.merge_eq_ok

theorem parameters_of_merged {out : Object} (h : t.merged header = .ok out) :
    t.parameters header = out :=
  (merged_eq_ok.1 h).2.2.1.symm

/-! ### What adding a recipient does -/

/-- The token without all that an encryption gives. -/
def unsealed (t : Jwe) : Jwe :=
  { t with protectedText := "", content := none, algorithm := none, contentKey := none }

theorem sealContent_unsealed {a : ContentEncryptionAlgorithm} {contentKey : ByteArray} {after : Jwe}
    (h : t.sealContent p rng a contentKey = .ok after) : after.unsealed = t.unsealed := by
  obtain ⟨_, _, _, _, _, _, rfl⟩ := sealContent_eq_ok.1 h
  rfl

/-- The content is encrypted for the first recipient only. -/
theorem withContent_eq_ok {a : ContentEncryptionAlgorithm} {contentKey : ByteArray} {after : Jwe} :
    t.withContent p rng a contentKey = .ok after ↔
      t.content.isSome = true ∧ after = t ∨
        t.content = none ∧ ∃ encrypted, t.sealContent p rng a contentKey = .ok encrypted ∧
          after = { encrypted with algorithm := some a, contentKey := some contentKey } := by
  unfold withContent
  cases hcontent : t.content with
  | none => simp [@eq_comm _ after]
  | some content => simp [@eq_comm _ after]

theorem withContent_unsealed {a : ContentEncryptionAlgorithm} {contentKey : ByteArray} {after : Jwe}
    (h : t.withContent p rng a contentKey = .ok after) : after.unsealed = t.unsealed := by
  rcases withContent_eq_ok.1 h with ⟨-, rfl⟩ | ⟨-, encrypted, hencrypted, rfl⟩
  · rfl
  · simpa only [unsealed] using sealContent_unsealed hencrypted

/-- All that adding a recipient goes through. -/
structure Added (p : Primitives) (rng : Entropy) (t : Jwe) (key : Jwk)
    (header : Option Object) where
  /-- The merged header before the key is wrapped. -/
  merged : Object
  managementName : String
  encryptionName : String
  management : KeyManagementAlgorithm
  encryption : ContentEncryptionAlgorithm
  wrapped : WrappedKey
  /-- The token with its content encrypted. -/
  encrypted : Jwe
  held : t.plaintext.isSome = true
  merges : t.merged (some (header.getD .empty)) = .ok merged
  managementNamed : Names t.options merged "alg" managementName
  managementRegistered : KeyManagementAlgorithm.lookup managementName = .ok management
  encryptionNamed : Names t.options merged "enc" encryptionName
  encryptionRegistered : ContentEncryptionAlgorithm.lookup encryptionName = .ok encryption
  sameEncryption : t.checkSameAlgorithm encryption = .ok ()
  wraps : management.wrap p (rng.fork 0) key encryption.keySize t.contentKey merged
    t.options.limits = .ok wrapped
  encrypts : t.withContent p (rng.fork 1) encryption wrapped.contentKey = .ok encrypted

namespace Added

variable (added : Added p rng t key header)

/-- The recipient that is added. -/
def recipient : Recipient :=
  { header := Header.nonempty
      (some (addParameters (header.getD .empty) added.merged added.wrapped.header))
    encryptedKey := added.wrapped.encryptedKey }

/-- The token with the recipient. -/
def after : Jwe :=
  { added.encrypted with recipients := added.encrypted.recipients ++ [added.recipient] }

end Added

theorem addRecipient_iff {after : Jwe} :
    t.addRecipient p rng key header = .ok after ↔
      ∃ added : Added p rng t key header, after = added.after := by
  rw [addRecipient_eq_ok]
  constructor
  · rintro ⟨held, merged, management, encryption, wrapped, encrypted, merges, halgorithms, same,
      wraps, encrypts, rfl⟩
    obtain ⟨⟨alg, hnamed, hregistered⟩, enc, hnamed', hregistered'⟩ :=
      algorithms_eq_ok.1 halgorithms
    exact ⟨⟨merged, alg, enc, management, encryption, wrapped, encrypted, held, merges, hnamed,
      hregistered, hnamed', hregistered', same, wraps, encrypts⟩, rfl⟩
  · rintro ⟨added, rfl⟩
    exact ⟨added.held, added.merged, added.management, added.encryption, added.wrapped,
      added.encrypted, added.merges,
      algorithms_eq_ok.2 ⟨⟨_, added.managementNamed, added.managementRegistered⟩, _,
        added.encryptionNamed, added.encryptionRegistered⟩,
      added.sameEncryption, added.wraps, added.encrypts, rfl⟩

section Exists

variable {merged : Object} {management : KeyManagementAlgorithm}
  {encryption : ContentEncryptionAlgorithm} {wrapped : WrappedKey}

/-- A first recipient is added when the content can be encrypted under the key that its
algorithm takes. -/
theorem Added.exists_first (held : t.plaintext.isSome = true) (fresh : t.content = none)
    (unchosen : t.algorithm = none) (compressible : (compresses t.protectedHeader).isOk = true)
    (merges : t.merged (some (header.getD .empty)) = .ok merged)
    (managementNamed : Names t.options merged "alg" management.name)
    (encryptionNamed : Names t.options merged "enc" encryption.name)
    (wraps : management.wrap p (rng.fork 0) key encryption.keySize t.contentKey merged
      t.options.limits = .ok wrapped)
    (size : wrapped.contentKey.size = encryption.keyBytes) :
    ∃ added : Added p rng t key header, added.merged = merged ∧ added.wrapped = wrapped ∧
      added.after.plaintext = t.plaintext ∧ added.after.content.isSome = true ∧
      added.after.algorithm = some encryption ∧
      added.after.contentKey = some wrapped.contentKey := by
  have hsealed : ∃ encrypted, t.sealContent p (rng.fork 1) encryption wrapped.contentKey =
      .ok encrypted := exists_sealContent held compressible size
  obtain ⟨encrypted, hencrypted⟩ := hsealed
  refine ⟨{
    merged, managementNamed, encryptionNamed, management, encryption, wrapped, held, merges, wraps
    managementName := management.name
    encryptionName := encryption.name
    encrypted := { encrypted with
      algorithm := some encryption
      contentKey := some wrapped.contentKey }
    managementRegistered := management.lookup_name
    encryptionRegistered := encryption.lookup_name
    sameEncryption := by rw [checkSameAlgorithm, unchosen]
    encrypts := withContent_eq_ok.2 (.inr ⟨fresh, encrypted, hencrypted, rfl⟩) }, ?_⟩
  obtain ⟨_, _, _, _, _, _, rfl⟩ := sealContent_eq_ok.1 hencrypted
  exact ⟨rfl, rfl, rfl, rfl, rfl, rfl⟩

/-- A later recipient is added when the key of the content can be wrapped for it. -/
theorem Added.exists_later (held : t.plaintext.isSome = true) (written : t.content.isSome = true)
    (same : t.algorithm = some encryption)
    (merges : t.merged (some (header.getD .empty)) = .ok merged)
    (managementNamed : Names t.options merged "alg" management.name)
    (encryptionNamed : Names t.options merged "enc" encryption.name)
    (wraps : management.wrap p (rng.fork 0) key encryption.keySize t.contentKey merged
      t.options.limits = .ok wrapped) :
    Nonempty (Added p rng t key header) :=
  ⟨{
    merged, managementNamed, encryptionNamed, management, encryption, wrapped, held, merges, wraps
    managementName := management.name
    encryptionName := encryption.name
    encrypted := t
    managementRegistered := management.lookup_name
    encryptionRegistered := encryption.lookup_name
    sameEncryption := by rw [checkSameAlgorithm, same]; simp
    encrypts := withContent_eq_ok.2 (.inl ⟨written, rfl⟩) }⟩

end Exists

namespace Added

variable (added : Added p rng t key header)

/-- Apart from what the encryption gives, only the recipients are others. -/
theorem unsealed_eq :
    added.after.unsealed = { t.unsealed with recipients := t.recipients ++ [added.recipient] } := by
  change { added.encrypted.unsealed with
    recipients := added.encrypted.unsealed.recipients ++ [added.recipient] } = _
  rw [withContent_unsealed added.encrypts]
  rfl

theorem recipients_eq : added.after.recipients = t.recipients ++ [added.recipient] :=
  congrArg Jwe.recipients added.unsealed_eq

/-- Behind another recipient nothing else is new. With the first one the content is
encrypted. -/
theorem after_cases :
    t.content.isSome = true ∧
        added.after = { t with recipients := t.recipients ++ [added.recipient] } ∨
      t.content = none ∧ ∃ encrypted,
        t.sealContent p (rng.fork 1) added.encryption added.wrapped.contentKey = .ok encrypted ∧
          added.after = { encrypted with
            algorithm := some added.encryption
            contentKey := some added.wrapped.contentKey
            recipients := t.recipients ++ [added.recipient] } := by
  rcases withContent_eq_ok.1 added.encrypts with
    ⟨hcontent, hsame⟩ | ⟨hnone, encrypted, hsealed, hencrypted⟩
  · exact .inl ⟨hcontent, by rw [after, hsame]⟩
  · refine .inr ⟨hnone, encrypted, hsealed, ?_⟩
    rw [after, hencrypted]
    obtain ⟨_, _, _, _, _, _, rfl⟩ := sealContent_eq_ok.1 hsealed
    rfl

theorem options_eq : added.after.options = t.options := by
  simpa only [unsealed] using congrArg Jwe.options added.unsealed_eq

theorem protectedHeader_eq : added.after.protectedHeader = t.protectedHeader := by
  simpa only [unsealed] using congrArg Jwe.protectedHeader added.unsealed_eq

theorem sharedHeader_eq : added.after.sharedHeader = t.sharedHeader := by
  simpa only [unsealed] using congrArg Jwe.sharedHeader added.unsealed_eq

theorem aad_eq : added.after.aad = t.aad := by
  simpa only [unsealed] using congrArg Jwe.aad added.unsealed_eq

theorem common_eq : added.after.common = t.common := by
  rw [common, common, added.protectedHeader_eq, added.sharedHeader_eq]

theorem merged_eq (other : Option Object) : added.after.merged other = t.merged other := by
  rw [Jwe.merged, Jwe.merged, added.options_eq, added.protectedHeader_eq, added.sharedHeader_eq]

/-- The headers of all recipients before it stay as they are. -/
theorem headerAt_of_lt {i : Nat} (hi : i < t.recipients.length) :
    added.after.headerAt i = t.headerAt i := by
  rw [headerAt, headerAt, added.recipients_eq, List.getElem?_append_left hi]
  cases t.recipients[i]? with
  | none => rfl
  | some r => exact added.merged_eq r.header

theorem headerAt_length :
    added.after.headerAt t.recipients.length = t.merged added.recipient.header := by
  rw [headerAt, added.recipients_eq, List.getElem?_concat_length]
  exact added.merged_eq _

/-! ### What the algorithm adds -/

/-- The parameters that the recipient gets on top of the header it was given: what the
algorithm adds, except for what was there before with the same value. -/
def extra : Object :=
  added.wrapped.header.filter fun name value =>
    !(added.merged.find? name).any (·.same value)

theorem addParameters_eq_union :
    addParameters (header.getD .empty) added.merged added.wrapped.header =
      (header.getD .empty).union added.extra := by
  rw [Object.union, extra, Object.filter, List.foldl_filter, addParameters]
  congr 1
  funext out m
  cases (added.merged.find? m.1).any (·.same m.2) <;> rfl

theorem wraps_key :
    KeyManagementAlgorithm.Wraps (rng.fork 0) added.management added.encryption.keySize
      t.contentKey added.wrapped :=
  KeyManagementAlgorithm.wraps_of_wrap added.wraps

theorem find?_extra {value : Json} :
    added.extra.find? name = some value ↔ added.wrapped.header.find? name = some value ∧
      (added.merged.find? name).any (·.same value) = false := by
  rw [extra, Object.find?_filter, Option.filter_eq_some_iff, Bool.not_eq_true']

theorem mem_parameters_of_extra (h : added.extra.contains name = true) :
    name ∈ added.management.parameters := by
  obtain ⟨value, hvalue⟩ := Object.contains_iff.1 h
  have hadded := (added.find?_extra.1 hvalue).1
  exact (added.wraps_key.added name).1 (Object.contains_iff.2 ⟨value, hadded⟩)

/-- A parameter of the algorithm has its place in the header of the recipient: it was
there before with this value, or it need not be protected and no header that all
recipients share has it. -/
def Fits (name : String) (value : Json) : Prop :=
  (added.merged.find? name).any (·.same value) = true ∨
    t.options.registry.mustProtect name = false ∧ t.common.contains name = false

theorem admits_extra :
    t.options.registry.Admits t.common added.extra ↔
      ∀ name value, added.wrapped.header.find? name = some value → added.Fits name value := by
  constructor
  · intro h name value hvalue
    cases hkept : (added.merged.find? name).any (·.same value) with
    | true => exact .inl hkept
    | false =>
        have hextra := added.find?_extra.2 ⟨hvalue, hkept⟩
        exact .inr (h name (Object.contains_iff.2 ⟨value, hextra⟩))
  · intro h name hname
    obtain ⟨value, hvalue⟩ := Object.contains_iff.1 hname
    obtain ⟨hadded, hkept⟩ := added.find?_extra.1 hvalue
    exact (h name value hadded).resolve_left (by simp [hkept])

theorem parameters_merged : t.parameters header = added.merged := by
  have hsame : t.parameters (some (header.getD .empty)) = t.parameters header := rfl
  rw [← hsame]
  exact parameters_of_merged added.merges

/-- What the recipient gets on top is found first. -/
theorem find?_parameters :
    (t.parameters added.recipient.header).find? name =
      (added.extra.find? name).or (added.merged.find? name) := by
  rw [← added.parameters_merged, recipient, parameters, parameters, Header.getD_nonempty,
    Option.getD_some, addParameters_eq_union]
  simp [Option.or_assoc]

/-- All other parameters are those of the merged header. -/
theorem find?_parameters_of_not_mem (hname : name ∉ added.management.parameters) :
    (t.parameters added.recipient.header).find? name = added.merged.find? name := by
  have hnone : added.extra.find? name = none := by
    rw [← Object.contains_eq_false_iff, ← Bool.not_eq_true]
    exact mt added.mem_parameters_of_extra hname
  rw [find?_parameters, hnone, Option.none_or]

/-- What the algorithm adds leaves the critical parameters understood. -/
theorem checkCritical_recipient :
    t.options.registry.checkCritical (t.parameters added.recipient.header) = .ok () := by
  have hcritical := (merged_eq_ok.1 added.merges).2.2.2
  refine HeaderRegistry.checkCritical_mono ?_ (fun name hname => ?_) hcritical
  · -- no algorithm adds critical parameters
    exact added.find?_parameters_of_not_mem fun h =>
      (KeyManagementAlgorithm.ne_of_mem_parameters h).2.2 rfl
  · rw [Object.contains_eq_isSome, find?_parameters, Option.isSome_or,
      ← Object.contains_eq_isSome (o := added.merged), hname, Bool.or_true]

theorem recipient_header_getD :
    added.recipient.header.getD .empty = (header.getD .empty).union added.extra := by
  rw [recipient, Header.getD_nonempty, Option.getD_some, addParameters_eq_union]

/-- The header of the recipient can be merged when what it gets on top does not meet
what all recipients share. -/
theorem merged_recipient_eq_ok {out : Object} :
    t.merged added.recipient.header = .ok out ↔
      t.options.registry.Admits t.common added.extra ∧
        out = t.parameters added.recipient.header := by
  obtain ⟨hshared, hown, -, -⟩ := merged_eq_ok.1 added.merges
  rw [merged_eq_ok, recipient_header_getD, HeaderRegistry.admits_union]
  constructor
  · rintro ⟨-, ⟨-, hextra⟩, rfl, -⟩
    exact ⟨hextra, rfl⟩
  · rintro ⟨hextra, rfl⟩
    exact ⟨hshared, ⟨hown, hextra⟩, rfl, added.checkCritical_recipient⟩

/-- Otherwise the error is about a parameter that it gets on top. -/
theorem merged_recipient_error {error : Error}
    (h : t.merged added.recipient.header = .error error) :
    ∃ name, added.extra.contains name = true ∧
      t.options.registry.Refuses t.common name error := by
  obtain ⟨hshared, hown, -, -⟩ := merged_eq_ok.1 added.merges
  rw [Jwe.merged, HeaderRegistry.merge_eq_bind,
    HeaderRegistry.addMembers_eq_ok.2 ⟨hshared, rfl⟩, ok_bind] at h
  cases hmembers : t.options.registry.addMembers t.common
      (added.recipient.header.getD .empty).members with
  | error error' =>
      rw [common] at hmembers
      rw [hmembers, error_bind] at h
      obtain rfl := Except.error.inj h
      obtain ⟨name, hname, hrefuses⟩ := HeaderRegistry.refuses_of_addMembers hmembers
      refine ⟨name, ?_, hrefuses⟩
      -- the header it was given had its place before
      rw [recipient_header_getD, Object.contains_union, Bool.or_eq_true] at hname
      refine hname.resolve_left fun hgiven => ?_
      obtain ⟨hprotect, hnew⟩ := hown name hgiven
      rw [common] at hnew
      rcases hrefuses with ⟨hrefused, -⟩ | ⟨hrefused, -⟩ <;> simp_all
  | ok out =>
      obtain ⟨-, hout⟩ := HeaderRegistry.addMembers_eq_ok.1 hmembers
      have hcritical := added.checkCritical_recipient
      rw [parameters, ← hout] at hcritical
      rw [common] at hmembers
      rw [hmembers, ok_bind, hcritical] at h
      simp at h

/-- A password is used with the salt and the repetitions that are there. -/
theorem not_common_of_pbes2 {s : AesSize} (hs : added.management = .pbes2 s)
    (hname : added.extra.contains name = true) : t.common.contains name = false := by
  by_contra hcommon
  obtain ⟨value, hvalue⟩ := Object.contains_iff.1 hname
  obtain ⟨hadded, hkept⟩ := added.find?_extra.1 hvalue
  have hcontains : added.merged.contains name = true := by
    rw [Bool.not_eq_false] at hcommon
    rw [← added.parameters_merged, parameters, Object.contains_union, hcommon, Bool.true_or]
  obtain ⟨named, hnamed⟩ := Object.contains_iff.1 hcontains
  have hwrap := added.wraps
  rw [hs] at hwrap
  rw [hnamed, Option.any_some,
    KeyManagementAlgorithm.wrap_pbes2_named hwrap hadded hnamed] at hkept
  simp at hkept

/-- The recipient has the algorithms that its key was wrapped for. -/
theorem find?_alg :
    (t.parameters added.recipient.header).find? "alg" = some (.str added.management.name) := by
  rw [added.find?_parameters_of_not_mem fun h =>
      (KeyManagementAlgorithm.ne_of_mem_parameters h).1 rfl,
    added.managementNamed.named,
    KeyManagementAlgorithm.name_of_lookup added.managementRegistered]

theorem find?_enc :
    (t.parameters added.recipient.header).find? "enc" = some (.str added.encryptionName) := by
  rw [added.find?_parameters_of_not_mem fun h =>
      (KeyManagementAlgorithm.ne_of_mem_parameters h).2.1 rfl,
    added.encryptionNamed.named]

theorem management_eq {a : KeyManagementAlgorithm}
    (h : added.merged.find? "alg" = some (.str a.name)) : added.management = a := by
  have hname := KeyManagementAlgorithm.name_of_lookup added.managementRegistered
  exact KeyManagementAlgorithm.name_injective (hname.trans (added.managementNamed.name_eq h))

/-- What becomes of the headers of recipients when one is added. -/
structure Headers : Prop where
  /-- The others keep theirs. -/
  others : ∀ i < t.recipients.length, added.after.headerAt i = t.headerAt i
  /-- It can be merged when every parameter of the algorithm has a place. -/
  own : (added.after.headerAt t.recipients.length).isOk = true ↔
    ∀ name value, added.wrapped.header.find? name = some value → added.Fits name value
  /-- Otherwise such a parameter has to be protected, or is there already. It is never the
  salt of a password or its repetitions, which are taken from there. -/
  refused : ∀ error, added.after.headerAt t.recipients.length = .error error →
    ∃ name ∈ added.management.parameters,
      t.options.registry.mustProtect name = true ∧ error = .misplacedHeader name ∨
      t.common.contains name = true ∧ error = .duplicateHeader name ∧
        ∀ s, added.management ≠ .pbes2 s

end Added

/-- Adding a recipient leaves the header of every other as it is. Whether its own header
can be merged is a matter of the parameters that its algorithm adds, and of nothing
else. -/
theorem headers_of_addRecipient {after : Jwe} (h : t.addRecipient p rng key header = .ok after) :
    ∃ added : Added p rng t key header, after = added.after ∧ added.Headers := by
  obtain ⟨added, rfl⟩ := addRecipient_iff.1 h
  refine ⟨added, rfl, fun i hi => added.headerAt_of_lt hi, ?_, fun error herror => ?_⟩
  · rw [added.headerAt_length, isOk_iff, ← added.admits_extra]
    constructor
    · rintro ⟨out, hout⟩
      exact (added.merged_recipient_eq_ok.1 hout).1
    · intro hextra
      exact ⟨_, added.merged_recipient_eq_ok.2 ⟨hextra, rfl⟩⟩
  · rw [added.headerAt_length] at herror
    obtain ⟨name, hname, hrefuses⟩ := added.merged_recipient_error herror
    refine ⟨name, added.mem_parameters_of_extra hname, ?_⟩
    refine hrefuses.imp_right fun ⟨hcommon, heq⟩ => ⟨hcommon, heq, fun s hs => ?_⟩
    simp [added.not_common_of_pbes2 hs hname] at hcommon

/-! ### A parameter that is in the way -/

/-- A supply of zeros. -/
def zeros : Entropy where
  bytes _ count := Bytes.zeros count
  size_bytes _ _ := by simp [Bytes.zeros, ByteArray.size]

def zeroKey : Jwk := .ofOctets (Bytes.zeros 16)

/-- A header with an initialisation vector of the sender. -/
def ivHeader : Object :=
  .ofMembers [("alg", .str (KeyManagementAlgorithm.aesGcmKeyWrap .aes128).name),
    ("enc", .str (ContentEncryptionAlgorithm.gcm .aes128).name), ("iv", .str "BBBBBBBBBBBBBBBB")]

/-- A token that protects it. -/
def ivProtected : Jwe := ofPlaintext "hi".toUTF8 (some ivHeader) none

/-- The key of its content for a recipient, with another initialisation vector. -/
def ivWrapped : WrappedKey :=
  KeyManagementAlgorithm.wrapAesGcm .standard zeros (Bytes.zeros 16) (Bytes.zeros 16)

theorem Names.of_registered {options : JweOptions} {merged : Object} {parameter : String}
    (hallowed : options.allowed = none) (hnamed : merged.find? parameter = some (.str name))
    (hregistered : ∃ a ∈ Algorithm.registered, a.name = name)
    (hopen : name ∉ Algorithm.restricted) : Names options merged parameter name :=
  ⟨hnamed, hallowed ▸ Algorithm.mem_defaultAllowed.2 ⟨hregistered, hopen⟩⟩

theorem exists_ivAdded :
    ∃ added : Added .standard zeros ivProtected zeroKey none,
      added.merged = ivHeader ∧ added.wrapped = ivWrapped := by
  have halg : Names {} ivHeader "alg" (KeyManagementAlgorithm.aesGcmKeyWrap .aes128).name :=
    .of_registered rfl (by decide +kernel) (by decide +kernel) (by decide +kernel)
  have henc : Names {} ivHeader "enc" (ContentEncryptionAlgorithm.gcm .aes128).name :=
    .of_registered rfl (by decide +kernel) (by decide +kernel) (by decide +kernel)
  have hmerges : ivProtected.merged (some .empty) = .ok ivHeader :=
    toOption_eq_some.1 (by decide +kernel)
  obtain ⟨added, hmerged, hwrapped, -⟩ :=
    @Added.exists_first .standard zeros ivProtected zeroKey none ivHeader
      (.aesGcmKeyWrap .aes128) (.gcm .aes128) ivWrapped rfl rfl rfl (by decide +kernel) hmerges
      halg henc rfl rfl
  exact ⟨added, hmerged, hwrapped⟩

theorem ivProtected_recipient :
    ∃ added : Added .standard zeros ivProtected zeroKey none,
      ivProtected.addRecipient .standard zeros zeroKey none = .ok added.after ∧ added.Headers := by
  obtain ⟨added, -⟩ := exists_ivAdded
  obtain ⟨added, -, hheaders⟩ := headers_of_addRecipient (addRecipient_iff.2 ⟨added, rfl⟩)
  exact ⟨added, addRecipient_iff.2 ⟨added, rfl⟩, hheaders⟩

/-- The token encrypts for the recipient, and the header of the recipient is refused. -/
theorem iv_in_the_way :
    ∃ after, ivProtected.addRecipient .standard zeros zeroKey none = .ok after ∧
      after.headerAt 0 = .error (.duplicateHeader "iv") := by
  obtain ⟨added, hmerged, hwrapped⟩ := exists_ivAdded
  refine ⟨added.after, addRecipient_iff.2 ⟨added, rfl⟩, ?_⟩
  have hheader := added.headerAt_length
  rw [Added.recipient, hmerged, hwrapped] at hheader
  rw [show 0 = ivProtected.recipients.length from rfl, hheader]
  rfl

end SealedToken.Jwe
