import SealedToken.Proofs.Aes.Gcm
import SealedToken.Proofs.Deflate.Window
import SealedToken.Proofs.Jwe.Held
import SealedToken.Proofs.Jwe.Reading

/-!
The compact form stands for the token that is written. Where the header of the recipient
has to be protected for it, the content is encrypted again; the wrapped key stays, and its
owner finds all parameters in the header that is protected now.
-/

namespace SealedToken.Jwe

variable {p : Primitives} {rng : Entropy} {t after : Jwe} {r : Recipient}
  {a : ContentEncryptionAlgorithm} {contentKey plaintext : ByteArray} {header : Object}
  {text : String} {content : EncryptedContent}

/-- What a token encloses it contains, when the plaintext comes back from its compressed form
within the limit. A text that the plaintext was expanded from under another limit is no
trouble then. -/
theorem Encloses.contains (h : Encloses p t content a contentKey plaintext)
    (hsize : compresses t.protectedHeader = .ok true → plaintext.size ≤ t.options.maxSize)
    (hdeflate : plaintext.size ≤ t.options.maxSize →
      Deflate.inflate (Deflate.deflate plaintext) t.options.maxSize = .ok plaintext) :
    Contains p t content a contentKey plaintext := by
  obtain ⟨text, compressed, hcompressed, hdecrypt, hpacks⟩ := h.opens
  refine ⟨text, compressed, hcompressed, hdecrypt, ?_⟩
  cases hpacks with
  | plain => simp [expand]
  | deflated =>
      rw [expand, if_pos rfl]
      exact hdeflate (hsize hcompressed)
  | expanded h =>
      rw [expand, if_pos rfl]
      exact Deflate.inflate_of_size_le h (hsize hcompressed)

/-! ### A token in compact form -/

/-- A token that has a place in the compact form for all its parts. -/
structure Compact (t : Jwe) (r : Recipient) (header : Object) : Prop where
  recipients : t.recipients = [r]
  own : r.header = none
  shared : t.sharedHeader = none
  aad : t.aad = none
  protectedHeader : t.protectedHeader = some header

/-- The compact form of such a token. -/
theorem compactText_eq_ok :
    t.compactText = .ok text ↔ ∃ header content r, t.protectedHeader = some header ∧
      header.contains "alg" = true ∧ header.contains "enc" = true ∧ t.content = some content ∧
      t.recipients = [r] ∧ text = Text.joinSegments (t.compactSegments content r) := by
  unfold compactText
  constructor
  · intro h
    split at h
    · simp at h
    · next hnames =>
        split at h
        · next content r hcontent hr =>
            obtain rfl := Except.ok.inj h
            cases hprotected : t.protectedHeader with
            | none => simp [hprotected] at hnames
            | some header =>
                simp only [hprotected, Option.any_some, Bool.not_eq_true, Bool.not_eq_false',
                  Bool.and_eq_true] at hnames
                exact ⟨header, content, r, rfl, hnames.1, hnames.2, hcontent, hr, rfl⟩
        · simp at h
  · rintro ⟨header, content, r, hprotected, halg, henc, hcontent, hr, rfl⟩
    simp [hprotected, halg, henc, hcontent, hr, compactSegments]

namespace Compact

variable (h : Compact t r header)
include h

theorem parameters_eq : t.parameters r.header = header := by
  rw [parameters, common, h.protectedHeader, h.shared, h.own]
  simp

/-- It is written as it stands. -/
theorem serialize (htext : t.compactText = .ok text) : t.serialize p rng true = (.ok text, t) := by
  obtain ⟨_, content, _, -, -, -, hcontent, -, -⟩ := compactText_eq_ok.1 htext
  have hr : t.compactRecipient = .ok r := compactRecipient_eq_ok.2 ⟨h.recipients, h.aad, h.shared⟩
  have hheader : (Header.nonempty r.header).isNone = true := by rw [h.own]; rfl
  rw [Jwe.serialize, hcontent]
  dsimp only
  rw [if_pos rfl, serializeCompact, hr]
  dsimp only
  rw [if_pos hheader, htext]

/-- It is read as it was written. -/
theorem deserialize (hdecode : Header.decode t.protectedText = .ok t.protectedHeader)
    (htext : t.compactText = .ok text) :
    deserialize text = .ok { t.undecrypted with options := {} } := by
  obtain ⟨_, content, r', -, -, -, hcontent, hr', rfl⟩ := compactText_eq_ok.1 htext
  obtain rfl := List.singleton_inj.1 (hr'.symm.trans h.recipients)
  have hne : t.protectedText ≠ "" := by
    intro hempty
    rw [hempty, h.protectedHeader] at hdecode
    simp [Header.decode] at hdecode
  exact deserialize_compactSegments hdecode hne hcontent h.recipients h.own h.shared h.aad

theorem merged_eq (hcritical : t.options.registry.checkCritical header = .ok ()) :
    t.merged r.header = .ok header := by
  refine merged_eq_ok.2 ⟨?_, ?_, h.parameters_eq.symm, hcritical⟩
  · rw [h.shared]
    exact HeaderRegistry.admits_empty
  · rw [h.own]
    exact HeaderRegistry.admits_empty

/-- Whoever recovers the key that is held gets the plaintext that is held. -/
theorem decrypt {supply : Recipient → Jwk → Entropy} {key : Jwk} {kid : Option String}
    {management : KeyManagementAlgorithm} (hcontent : t.content = some content)
    (hcontains : Contains p t content a contentKey plaintext)
    (hcritical : t.options.registry.checkCritical header = .ok ())
    (hkid : Header.text? header "kid" = .ok kid)
    (halg : Names t.options header "alg" management.name)
    (henc : Names t.options header "enc" a.name)
    (hunwrap : management.unwrap p (supply r key) key a.keySize r.encryptedKey header
      t.options.limits = .ok contentKey) :
    ∃ after, t.undecrypted.decrypt p supply (.single key) = (.ok (), after) ∧
      after.plaintext = some plaintext := by
  obtain ⟨-, compressed, hcompressed, -⟩ := hcontains.opens
  let checked : Checked t r := {
    header, management, kid
    managementName := management.name
    encryptionName := a.name
    encryption := a
    merged := h.merged_eq hcritical
    managementNamed := halg
    managementRegistered := management.lookup_name
    encryptionNamed := henc
    encryptionRegistered := a.lookup_name
    compressible := ⟨_, hcompressed⟩
    identified := hkid }
  have hrecipients : t.undecrypted.recipients = [] ++ r :: [] := h.recipients
  exact decrypt_of_opens (t := t.undecrypted) hcontent hrecipients
    ⟨_, openFor_of_unwrap checked hcontains hunwrap, rfl⟩ (by simp)

end Compact

/-! ### The conversion -/

/-- What a writing in compact form leaves. -/
structure Compacts (t : Jwe) (r : Recipient) (header : Object) (text : String) (after : Jwe) :
    Prop where
  compact : Compact after { r with header := none } header
  written : after.compactText = .ok text
  options : after.options = t.options
  plaintext : after.plaintext = t.plaintext
  algorithm : after.algorithm = t.algorithm
  contentKey : after.contentKey = t.contentKey

/-- With a header of its own the recipient loses it to the protected one. -/
theorem compacts_of_moves (moves : Moves t r a contentKey)
    (hheader : t.parameters r.header = header)
    (hwritten : t.serialize p rng true = (.ok text, after)) : Compacts t r header text after := by
  obtain ⟨-, haad, hshared⟩ := compactRecipient_eq_ok.1 moves.recipient
  rw [serialize_of_moves moves] at hwritten
  cases htwice : t.nameTwice r with
  | some name => simp [htwice] at hwritten
  | none =>
      cases hsealed : (t.moved r).sealContent p rng a contentKey with
      | error error => simp [htwice, hsealed] at hwritten
      | ok sealed =>
          simp only [htwice, hsealed, Prod.mk.injEq] at hwritten
          obtain ⟨htext, rfl⟩ := hwritten
          have hprotected := protectedHeader_moved hshared htwice
          rw [hheader] at hprotected
          obtain ⟨_, _, _, _, _, _, rfl⟩ := sealContent_eq_ok.1 hsealed
          exact ⟨⟨rfl, rfl, hshared, haad, hprotected⟩, htext, rfl, rfl, rfl, rfl⟩

/-- Without one the token is written as it stands. -/
theorem compacts_of_none (hrecipient : t.compactRecipient = .ok r) (hown : r.header = none)
    (hheader : t.parameters r.header = header)
    (hwritten : t.serialize p rng true = (.ok text, after)) : Compacts t r header text after := by
  obtain ⟨hr, haad, hshared⟩ := compactRecipient_eq_ok.1 hrecipient
  have hnone : (Header.nonempty r.header).isNone = true := by rw [hown]; rfl
  cases hcontent : t.content with
  | none => simp [Jwe.serialize, hcontent] at hwritten
  | some content =>
      rw [Jwe.serialize, hcontent] at hwritten
      dsimp only at hwritten
      rw [if_pos rfl, serializeCompact, hrecipient] at hwritten
      dsimp only at hwritten
      rw [if_pos hnone] at hwritten
      obtain ⟨htext, rfl⟩ := Prod.mk.inj hwritten
      obtain ⟨named, _, _, hprotected, -⟩ := compactText_eq_ok.1 htext
      obtain rfl : named = header := by
        rw [← hheader, parameters, common, hprotected, hshared, hown]
        simp
      refine ⟨?_, htext, rfl, rfl, rfl, rfl⟩
      rw [show ({ r with header := none } : Recipient) = r by rw [← hown]]
      exact ⟨hr, hown, hshared, haad, hprotected⟩

theorem Held.compacts (h : Held p t) (ha : t.algorithm = some a)
    (hkey : t.contentKey = some contentKey) (hr : t.recipients = [r])
    (hheader : t.parameters r.header = header)
    (hwritten : t.serialize p rng true = (.ok text, after)) : Compacts t r header text after := by
  have hcontent := h.coherent.content.2 (by simp [hr])
  obtain ⟨content, hsome⟩ := Option.isSome_iff_exists.1 hcontent
  cases hrecipient : t.compactRecipient with
  | error error => simp [Jwe.serialize, hsome, serializeCompact, hrecipient] at hwritten
  | ok r' =>
      obtain rfl := List.singleton_inj.1 ((compactRecipient_eq_ok.1 hrecipient).1.symm.trans hr)
      cases hown : r'.header with
      | none => exact compacts_of_none hrecipient hown hheader hwritten
      | some own =>
          have hnonempty : (Header.nonempty r'.header).isSome = true := by
            rw [h.nonempty r' (by simp [hr]), hown]
            rfl
          exact compacts_of_moves ⟨hcontent, hrecipient, hnonempty, ha, hkey⟩ hheader hwritten

/-- It holds together behind the writing, and its header is read again. -/
theorem Held.reads (h : Held p t) (ha : t.algorithm = some a)
    (hkey : t.contentKey = some contentKey) (hr : t.recipients = [r])
    (hheader : t.parameters r.header = header)
    (hcodec : Header.decode (Header.encode (some header)) = .ok (some header))
    (hwritten : t.serialize p rng true = (.ok text, after)) :
    Held p after ∧ Jwe.deserialize text = .ok { after.undecrypted with options := {} } := by
  have hcompacts := h.compacts ha hkey hr hheader hwritten
  have hheld : Held p after := by
    have hok : (t.serialize p rng true).1.isOk = true := by rw [hwritten]; rfl
    have hheld := h.serialize hok
    rwa [hwritten] at hheld
  obtain ⟨_, content, _, -, -, -, hcontent, -⟩ := compactText_eq_ok.1 hcompacts.written
  refine ⟨hheld, hcompacts.compact.deserialize ?_ hcompacts.written⟩
  rcases hheld.text (by simp [hcontent]) with hdecode | hencode
  · exact hdecode
  · rw [hencode, hcompacts.compact.protectedHeader, hcodec]

/-- What a compact form preserves of a token with a plaintext, of which a recipient has a
key for the content. -/
structure Preserves (p : Primitives) (t : Jwe) (r : Recipient) (header : Object)
    (a : ContentEncryptionAlgorithm) (contentKey plaintext : ByteArray) (text : String)
    (after : Jwe) : Prop where
  /-- Writing the token again gives the same and leaves it alone. -/
  settled : ∀ rng, after.serialize p rng true = (.ok text, after)
  /-- The only recipient that is read has no header. What was its merged header is
  protected. Whoever recovers the key under the options of the token opens the plaintext,
  if they permit the algorithms. -/
  read : ∃ read, Jwe.deserialize text = .ok read ∧
    read.recipients = [{ r with header := none }] ∧ read.protectedHeader = some header ∧
    ∀ (management : KeyManagementAlgorithm) (supply : Recipient → Jwk → Entropy) (key : Jwk),
      Names t.options header "alg" management.name → Algorithm.Permitted t.options.allowed a.name →
      management.unwrap p (supply { r with header := none } key) key a.keySize r.encryptedKey
        header t.options.limits = .ok contentKey →
      ∃ opened, Jwe.decrypt p supply { read with options := t.options } (.single key) =
        (.ok (), opened) ∧ opened.plaintext = some plaintext

/-- Let a token be started or read and any calls be made on it, of which no writing fails,
and let it hold a plaintext, its key and its algorithm then. When it has one recipient and
is written in compact form, that form preserves it. -/
theorem compact_form_preserves {kid : Option String} (h : Orderly p t)
    (hplaintext : t.plaintext = some plaintext) (ha : t.algorithm = some a)
    (hkey : t.contentKey = some contentKey) (hr : t.recipients = [r])
    (hheader : t.headerAt 0 = .ok header) (hkid : Header.text? header "kid" = .ok kid)
    (hwritten : t.serialize p rng true = (.ok text, after)) (hinverts : a.Inverts p)
    (hcodec : Header.decode (Header.encode (some header)) = .ok (some header))
    (hsize : compresses (some header) = .ok true → plaintext.size ≤ t.options.maxSize)
    (hdeflate : plaintext.size ≤ t.options.maxSize →
      Deflate.inflate (Deflate.deflate plaintext) t.options.maxSize = .ok plaintext) :
    Preserves p t r header a contentKey plaintext text after := by
  have hmerged : t.merged r.header = .ok header := by simpa [headerAt, hr] using hheader
  have hcritical := (merged_eq_ok.1 hmerged).2.2.2
  have hnames := h.held.names r a hr ha
  rw [parameters_of_merged hmerged] at hnames
  have hcompacts := h.held.compacts ha hkey hr (parameters_of_merged hmerged) hwritten
  obtain ⟨hheld, hread⟩ := h.held.reads ha hkey hr (parameters_of_merged hmerged) hcodec hwritten
  obtain ⟨_, content, _, -, -, -, hcontent, -⟩ := compactText_eq_ok.1 hcompacts.written
  have hcontains : Contains p after content a contentKey plaintext := by
    refine (hheld.encloses content a contentKey plaintext hcontent (hcompacts.algorithm.trans ha)
      (hcompacts.contentKey.trans hkey) (hcompacts.plaintext.trans hplaintext) hinverts).contains ?_ ?_
    · rwa [hcompacts.compact.protectedHeader, hcompacts.options]
    · rwa [hcompacts.options]
  refine ⟨fun rng => hcompacts.compact.serialize hcompacts.written, _, hread,
    hcompacts.compact.recipients, hcompacts.compact.protectedHeader,
    fun management supply key halg henc hunwrap => ?_⟩
  rw [← hcompacts.options] at hcritical halg henc hunwrap
  have hdecrypt := hcompacts.compact.decrypt hcontent hcontains hcritical hkid halg
    ⟨hnames.enc, henc⟩ hunwrap
  have hsame : ({ after.undecrypted with options := t.options } : Jwe) = after.undecrypted := by
    rw [← hcompacts.options]
    rfl
  rw [← hsame] at hdecrypt
  exact hdecrypt

/-- The compact form is there when the header can be moved and the plaintext is held. -/
theorem Coherent.exists_compact_form (h : Coherent t) (moves : Moves t r a contentKey)
    (honce : t.nameTwice r = none) (hplaintext : t.plaintext.isSome = true)
    (hcompresses : (compresses (t.moved r).protectedHeader).isOk = true) :
    ∃ text after, t.serialize p rng true = (.ok text, after) := by
  have hsize := h.size a contentKey moves.algorithm moves.contentKey
  have hsealed : ∃ after, (t.moved r).sealContent p rng a contentKey = .ok after :=
    exists_sealContent hplaintext hcompresses hsize
  obtain ⟨after, hsealed⟩ := hsealed
  obtain ⟨text, htext⟩ := isOk_iff.1 (isOk_compactText_of_sealed h moves honce hsealed)
  refine ⟨text, after, ?_⟩
  rw [serialize_of_moves moves, honce]
  dsimp only
  rw [hsealed]
  dsimp only
  rw [htext]

/-! ### Options that are narrowed -/

/-- A recipient of a shared key is added, and options are set behind it. -/
def optionCalls (options : JweOptions) : List Call :=
  [.addRecipient zeros zeroKey (some directHeader), .setOptions options]

def directRecipient : Recipient := { header := some directHeader, encryptedKey := .empty }

/-- Its merged header. -/
def directMerged : Object := unshared.parameters (some directHeader)

/-- A token with a recipient of a shared key. -/
structure Direct (t : Jwe) (options : JweOptions) : Prop where
  orderly : Orderly .standard t
  options : t.options = options
  plaintext : t.plaintext = some "hi".toUTF8
  protectedHeader : t.protectedHeader = unshared.protectedHeader
  sharedHeader : t.sharedHeader = none
  aad : t.aad = none
  recipients : t.recipients = [directRecipient]
  content : t.content.isSome = true
  algorithm : t.algorithm = some (.gcm .aes128)
  contentKey : t.contentKey = some (Bytes.zeros 16)

theorem direct_run (options : JweOptions) :
    Direct (unshared.run .standard (optionCalls options)) options := by
  obtain ⟨added, -, hcontent, halgorithm, hcontentKey, hheader⟩ := exists_directAdded
  have hadd : unshared.addRecipient .standard zeros zeroKey (some directHeader) = .ok added.after :=
    addRecipient_iff.2 ⟨added, rfl⟩
  have hrun : unshared.run .standard (optionCalls options) = { added.after with options } := by
    rw [run, optionCalls, List.foldl_cons, List.foldl_cons, List.foldl_nil]
    simp only [Call.after, hadd]
  have horderly : Orderly .standard (unshared.run .standard (optionCalls options)) :=
    .called (c := .setOptions options)
      (.called (c := .addRecipient zeros zeroKey (some directHeader)) (.started _ _ _) trivial)
      trivial
  have hmanagement : added.management = .direct := by
    refine added.management_eq ?_
    rw [← added.parameters_merged]
    decide +kernel
  have hencryptedKey : added.recipient.encryptedKey = .empty := by
    have hwraps := added.wraps
    rw [hmanagement] at hwraps
    simp only [KeyManagementAlgorithm.wrap, bind_eq_ok, pure_eq_ok, Except.ok.injEq] at hwraps
    obtain ⟨_, -, _, -, _, -, hwrapped⟩ := hwraps
    rw [Added.recipient, ← hwrapped]
  have hrecipient : added.recipient = directRecipient := by
    change Recipient.mk added.recipient.header added.recipient.encryptedKey = _
    rw [hheader, hencryptedKey, directRecipient]
  have hr : added.after.recipients = [directRecipient] := by
    rw [added.recipients_eq, hrecipient]
    rfl
  rw [hrun] at horderly ⊢
  exact ⟨horderly, rfl, addRecipient_plaintext hadd, added.protectedHeader_eq,
    added.sharedHeader_eq, added.aad_eq, hr, hcontent, halgorithm, hcontentKey⟩

namespace Direct

variable {options : JweOptions} (h : Direct t options)
include h

theorem parameters_eq : t.parameters directRecipient.header = directMerged := by
  rw [parameters, common, h.protectedHeader, h.sharedHeader]
  rfl

theorem headerAt (hregistry : options.registry = .encrypted) : t.headerAt 0 = .ok directMerged := by
  rw [Jwe.headerAt, h.recipients]
  change t.merged directRecipient.header = _
  rw [merged, h.options, hregistry, h.protectedHeader, h.sharedHeader]
  exact toOption_eq_some.1 (by decide +kernel)

/-- It can be written in compact form, whatever options are set. -/
theorem exists_compact_form :
    ∃ text after, t.serialize .standard zeros true = (.ok text, after) := by
  have moves : Moves t directRecipient (.gcm .aes128) (Bytes.zeros 16) :=
    ⟨h.content, compactRecipient_eq_ok.2 ⟨h.recipients, h.aad, h.sharedHeader⟩, by decide +kernel,
      h.algorithm, h.contentKey⟩
  have honce : t.nameTwice directRecipient = none := by
    rw [nameTwice, h.protectedHeader]
    decide +kernel
  refine h.orderly.held.coherent.exists_compact_form moves honce (by rw [h.plaintext]; rfl) ?_
  rw [protectedHeader_moved h.sharedHeader honce, h.parameters_eq]
  decide +kernel

end Direct

/-- The only recipient has to pass before any key is tried. -/
theorem decrypt_of_prepare_error {supply : Recipient → Jwk → Entropy} {keys : KeySource}
    {error : Error} (hcontent : t.content.isSome = true) (hr : t.recipients = [r])
    (hprepare : t.prepare keys r = .error error) :
    ∃ opened, t.decrypt p supply keys = (.error error, opened) := by
  have hfirst (content) : t.openFirst p supply content keys none [] [r] = (.error error, []) := by
    rw [openFirst, openFor, hprepare]
    split
    · next heq => simp at heq
    · next limit more heq =>
        obtain ⟨herror, rfl⟩ := Prod.mk.inj heq
        rw [herror]
        rfl
    · next kept more _ heq =>
        obtain ⟨herror, rfl⟩ := Prod.mk.inj heq
        rw [Except.error.inj herror]
        rfl
  unfold decrypt
  dsimp only
  split
  · next hnone => simp [hnone] at hcontent
  · rw [openFirst_fresh, hr, hfirst]
    exact ⟨_, rfl⟩

theorem codec_directMerged :
    Header.decode (Header.encode (some directMerged)) = .ok (some directMerged) :=
  toOption_eq_some.1 (by decide +kernel)

theorem anonymous_directMerged : Header.text? directMerged "kid" = .ok none :=
  toOption_eq_some.1 (by decide +kernel)

/-- Its secret is the key of the content. -/
theorem unwrap_zeroKey :
    KeyManagementAlgorithm.direct.unwrap .standard zeros zeroKey
      (ContentEncryptionAlgorithm.gcm .aes128).keySize directRecipient.encryptedKey directMerged {} =
        .ok (Bytes.zeros 16) :=
  toOption_eq_some.1 (by decide +kernel)

/-- With the options that are there by default the form is read and decrypted. -/
theorem direct_form_preserves :
    ∃ t text after, Direct t {} ∧ t.serialize .standard zeros true = (.ok text, after) ∧
      Preserves .standard t directRecipient directMerged (.gcm .aes128) (Bytes.zeros 16)
        "hi".toUTF8 text after ∧
      ∃ read opened, deserialize text = .ok read ∧
        decrypt .standard (fun _ _ => zeros) { read with options := {} } (.single zeroKey) =
          (.ok (), opened) ∧ opened.plaintext = some "hi".toUTF8 := by
  have h := direct_run {}
  obtain ⟨text, after, hwritten⟩ := h.exists_compact_form
  have hplain : compresses (some directMerged) ≠ .ok true := fun hzip =>
    absurd (toOption_eq_some.2 hzip) (by decide +kernel)
  have hpreserves := compact_form_preserves h.orderly h.plaintext h.algorithm h.contentKey
    h.recipients (h.headerAt rfl) anonymous_directMerged hwritten Primitives.standard_opensSealed
    codec_directMerged (fun hzip => absurd hzip hplain)
    (fun _ => by rw [h.options]; exact toOption_eq_some.1 (by decide +kernel))
  obtain ⟨read, hread, -, -, hopens⟩ := hpreserves.read
  have halg : Names {} directMerged "alg" KeyManagementAlgorithm.direct.name :=
    .of_registered rfl (by decide +kernel) (by decide +kernel) (by decide +kernel)
  have henc : Names {} directMerged "enc" (ContentEncryptionAlgorithm.gcm .aes128).name :=
    .of_registered rfl (by decide +kernel) (by decide +kernel) (by decide +kernel)
  rw [h.options] at hopens
  obtain ⟨opened, hopened⟩ := hopens .direct (fun _ _ => zeros) zeroKey halg henc.permitted
    unwrap_zeroKey
  exact ⟨_, text, after, h, hwritten, hpreserves, read, opened, hread, hopened⟩

/-- Options that permit none of the algorithms of the token. -/
def narrowed : JweOptions :=
  { allowed := some [(KeyManagementAlgorithm.aesKeyWrap .aes128).name] }

/-- Everything is there that is asked of the token, and the key leads to the key of the
content. Yet the compact form is not decrypted under the options that the token has by then. -/
theorem narrowed_options_refuse :
    ∃ t text after read opened, Direct t narrowed ∧ t.headerAt 0 = .ok directMerged ∧
      Header.text? directMerged "kid" = .ok none ∧
      t.serialize .standard zeros true = (.ok text, after) ∧ deserialize text = .ok read ∧
      KeyManagementAlgorithm.direct.unwrap .standard zeros zeroKey
        (ContentEncryptionAlgorithm.gcm .aes128).keySize directRecipient.encryptedKey directMerged
          t.options.limits = .ok (Bytes.zeros 16) ∧
      decrypt .standard (fun _ _ => zeros) { read with options := t.options } (.single zeroKey) =
        (.error (.algorithmNotAllowed KeyManagementAlgorithm.direct.name), opened) := by
  have h := direct_run narrowed
  obtain ⟨text, after, hwritten⟩ := h.exists_compact_form
  have hcompacts := h.orderly.held.compacts h.algorithm h.contentKey h.recipients h.parameters_eq
    hwritten
  obtain ⟨-, hread⟩ := h.orderly.held.reads h.algorithm h.contentKey h.recipients h.parameters_eq
    codec_directMerged hwritten
  have hoptions : after.options = narrowed := hcompacts.options.trans h.options
  have hmerged : after.merged none = .ok directMerged := by
    refine hcompacts.compact.merged_eq ?_
    rw [hoptions]
    exact toOption_eq_some.1 (by decide +kernel)
  have hrefused : algorithms after.options directMerged =
      .error (.algorithmNotAllowed KeyManagementAlgorithm.direct.name) := by
    rw [hoptions]
    rfl
  have hprepare : after.prepare (.single zeroKey) { directRecipient with header := none } =
      .error (.algorithmNotAllowed KeyManagementAlgorithm.direct.name) := by
    rw [prepare]
    dsimp only
    rw [hmerged, ok_bind, hrefused, error_bind]
  obtain ⟨_, content, _, -, -, -, hcontent, -⟩ := compactText_eq_ok.1 hcompacts.written
  have hrefuses : ∃ opened, after.undecrypted.decrypt .standard (fun _ _ => zeros)
      (.single zeroKey) = (.error (.algorithmNotAllowed KeyManagementAlgorithm.direct.name),
        opened) :=
    decrypt_of_prepare_error (t := after.undecrypted) (Option.isSome_iff_exists.2 ⟨_, hcontent⟩)
      hcompacts.compact.recipients hprepare
  obtain ⟨opened, hrefuses⟩ := hrefuses
  refine ⟨_, text, after, _, opened, h, h.headerAt rfl, anonymous_directMerged, hwritten, hread,
    ?_, ?_⟩
  · rw [h.options]
    exact unwrap_zeroKey
  · rw [h.options, ← hoptions]
    exact hrefuses

end SealedToken.Jwe
