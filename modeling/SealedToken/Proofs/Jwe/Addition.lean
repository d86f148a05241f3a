import SealedToken.Proofs.Aes.Gcm
import SealedToken.Proofs.InPlace
import SealedToken.Proofs.Jwe.Serialization
import SealedToken.Proofs.Jwe.Unlocking

/-!
Adding a recipient as a change in place. Everything that can fail comes before the first
write, the encryption of the content included, so a failure leaves the token alone. A first
recipient has the content encrypted under its key; all others share what is there.
-/

namespace SealedToken.Jwe

variable {p : Primitives} {rng : Entropy} {t after : Jwe} {key : Jwk} {header : Option Object}

/-! ### The steps in place -/

/-- Encrypt the plaintext, and write the protected header with it. -/
def sealInPlace (p : Primitives) (rng : Entropy) (a : ContentEncryptionAlgorithm)
    (contentKey : ByteArray) : InPlace Jwe Unit := do
  let plaintext ← InPlace.look fun t =>
    match t.plaintext with
    | none => .error (.invalidOperation .noPlaintext)
    | some plaintext => .ok plaintext
  let compressed ← InPlace.look fun t => compresses t.protectedHeader
  let text := if compressed then Deflate.deflate plaintext else plaintext
  let protectedText ← InPlace.look fun t => .ok (Header.encode t.protectedHeader)
  let content ← InPlace.look fun t =>
    a.encrypt p rng contentKey (contentAad protectedText t.aad) text
  modify fun t => { t with protectedText }
  modify fun t => { t with content := some content }

/-- Encrypt the content for the first recipient, and write its algorithm and its key. -/
def withContentInPlace (p : Primitives) (rng : Entropy) (a : ContentEncryptionAlgorithm)
    (contentKey : ByteArray) : InPlace Jwe Unit := do
  let unsealed ← InPlace.look fun t => .ok t.content.isNone
  if unsealed then
    sealInPlace p rng a contentKey
    modify fun t => { t with algorithm := some a }
    modify fun t => { t with contentKey := some contentKey }

/-- Bring the content key to one more recipient, and write the token as it goes. -/
def addRecipientInPlace (p : Primitives) (rng : Entropy) (key : Jwk) (header : Option Object) :
    InPlace Jwe Unit := do
  InPlace.look fun t =>
    if t.plaintext.isNone then .error (.invalidOperation .noPlaintext) else .ok ()
  let header := header.getD .empty
  let merged ← InPlace.look fun t => t.merged (some header)
  let (management, encryption) ← InPlace.look fun t => algorithms t.options merged
  InPlace.look fun t => t.checkSameAlgorithm encryption
  let wrapped ← InPlace.look fun t =>
    management.wrap p (rng.fork 0) key encryption.keySize t.contentKey merged t.options.limits
  let header := addParameters header merged wrapped.header
  withContentInPlace p (rng.fork 1) encryption wrapped.contentKey
  modify fun t => { t with
    recipients := t.recipients ++
      [{ header := Header.nonempty (some header), encryptedKey := wrapped.encryptedKey }] }

section Whole

variable {a : ContentEncryptionAlgorithm} {contentKey : ByteArray}

theorem sealInPlace_eq_whole :
    sealInPlace p rng a contentKey = InPlace.whole (·.sealContent p rng a contentKey) := by
  unfold sealInPlace
  rw [InPlace.look_bind fun plaintext => InPlace.look_bind fun compressed =>
    InPlace.look_bind fun protectedText => InPlace.look_bind fun content => by
      rw [InPlace.modify_eq_whole, InPlace.whole_bind_modify]]
  congr 1
  funext t
  rw [sealContent]
  cases t.plaintext <;> rfl

theorem withContentInPlace_eq_whole :
    withContentInPlace p rng a contentKey = InPlace.whole (·.withContent p rng a contentKey) := by
  have hunsealed (unsealed : Bool) :
      (if unsealed then do
        sealInPlace p rng a contentKey
        modify fun t : Jwe => { t with algorithm := some a }
        modify fun t : Jwe => { t with contentKey := some contentKey }
      else pure () : InPlace Jwe Unit) = InPlace.whole fun t => if unsealed then
        (t.sealContent p rng a contentKey).map fun t =>
          { t with algorithm := some a, contentKey := some contentKey }
        else .ok t := by
    cases unsealed with
    | false => rfl
    | true =>
        rw [if_pos rfl, sealInPlace_eq_whole, ← bind_assoc, InPlace.whole_bind_modify,
          InPlace.whole_bind_modify]
        congr 1
        funext t
        rw [if_pos rfl]
        cases t.sealContent p rng a contentKey <;> rfl
  unfold withContentInPlace
  rw [InPlace.look_bind hunsealed]
  congr 1
  funext t
  rw [withContent]
  cases t.content <;> rfl

theorem addRecipientInPlace_eq_whole :
    addRecipientInPlace p rng key header = InPlace.whole (·.addRecipient p rng key header) := by
  unfold addRecipientInPlace
  rw [InPlace.look_bind fun _ => InPlace.look_bind fun merged =>
    InPlace.look_bind fun algorithms => InPlace.look_bind fun _ =>
      InPlace.look_bind fun wrapped => by
        rw [withContentInPlace_eq_whole, InPlace.whole_bind_modify]]
  congr 1
  funext t
  rw [addRecipient]
  cases t.plaintext <;> rfl

end Whole

/-! ### The key that is held -/

/-- Whoever has the plaintext of an encrypted content has its key. -/
def KeyHeld (t : Jwe) : Prop :=
  t.plaintext.isSome = true → t.content.isSome = true → t.contentKey.isSome = true

/-- A decryption finds the plaintext and the key together. -/
theorem keyHeld_decrypt {supply : Recipient → Jwk → Entropy} {keys : KeySource} :
    KeyHeld (t.decrypt p supply keys).2 := by
  intro hplaintext _
  cases hdecrypt : t.decrypt p supply keys with
  | mk outcome after =>
      rw [hdecrypt] at hplaintext
      cases outcome with
      | error error => simp [decrypt_plaintext_of_error hdecrypt] at hplaintext
      | ok _ =>
          obtain ⟨_, _, _, _, _, rfl⟩ := decrypt_eq_ok.1 hdecrypt
          rfl

theorem KeyHeld.changes (h : KeyHeld t) (hplaintext : after.plaintext = t.plaintext)
    (hchanges : Changes p t after) : KeyHeld after := by
  intro hheld hcontent
  rw [hplaintext] at hheld
  cases hchanges with
  | beside plaintext aad options log => exact h hheld hcontent
  | added added =>
      rcases added.after_cases with ⟨hcontent, hafter⟩ | ⟨-, _, -, hafter⟩
      · rw [hafter]
        exact h hheld hcontent
      · rw [hafter]
        rfl
  | opened => rfl
  | moved moves => simp [moved, moves.contentKey]
  | sealed moves sealed =>
      obtain ⟨_, _, _, _, _, _, rfl⟩ := sealContent_eq_ok.1 sealed
      simp [moved, moves.contentKey]

theorem keyHeld_after (h : KeyHeld t) (c : Call) : KeyHeld (c.after p t) := by
  cases c with
  | decrypt supply keys => exact keyHeld_decrypt
  | _ => exact h.changes (after_plaintext rfl) (changes_of_call _)

theorem KeyHeld.run (h : KeyHeld t) (calls : List Call) : KeyHeld (t.run p calls) :=
  List.foldlRecOn calls (Call.after p) h fun _ hbefore c _ => keyHeld_after hbefore c

theorem Reachable.keyHeld (h : Reachable p t) : KeyHeld t := by
  cases h with
  | started plaintext protectedHeader sharedHeader calls =>
      exact KeyHeld.run (by simp [KeyHeld, ofPlaintext]) calls
  | read h calls => exact KeyHeld.run (by simp [KeyHeld, deserialize_plaintext h]) calls

theorem Reachable.run (h : Reachable p t) (calls : List Call) : Reachable p (t.run p calls) := by
  cases h with
  | started plaintext protectedHeader sharedHeader before =>
      rw [Jwe.run, Jwe.run, ← List.foldl_append]
      exact .started plaintext protectedHeader sharedHeader (before ++ calls)
  | read h before =>
      rw [Jwe.run, Jwe.run, ← List.foldl_append]
      exact .read h (before ++ calls)

/-! ### What a recipient is added to -/

/-- A recipient is added to a content that is there. -/
structure Shares (added : Added p rng t key header) : Prop where
  /-- But for the recipients nothing is new: neither a header or its text, nor the content,
  its algorithm or its key. -/
  kept : added.after = { t with recipients := t.recipients ++ [added.recipient] }
  /-- The key that is wrapped is the one that is held. -/
  wrapped : t.contentKey = some added.wrapped.contentKey

/-- With a recipient the content is encrypted. -/
structure Seals (added : Added p rng t key header) : Prop where
  /-- But for what the encryption gives and the recipient nothing is new. -/
  kept : added.after.unsealed =
    { t.unsealed with recipients := t.recipients ++ [added.recipient] }
  algorithm : added.after.algorithm = some added.encryption
  contentKey : added.after.contentKey = some added.wrapped.contentKey
  /-- The content is the plaintext, or what it is compressed to, under the key and under all
  that is written beside it. -/
  opens : added.encryption.Inverts p → ∃ content plaintext compressed,
    added.after.content = some content ∧ t.plaintext = some plaintext ∧
    compresses added.after.protectedHeader = .ok compressed ∧
    added.encryption.decrypt p added.wrapped.contentKey
        (contentAad added.after.protectedText added.after.aad) content =
      .ok (if compressed then Deflate.deflate plaintext else plaintext)

theorem Reachable.shares (h : Reachable p t) (hcontent : t.content.isSome = true)
    (added : Added p rng t key header) : Shares added := by
  obtain ⟨contentKey, hheld⟩ := Option.isSome_iff_exists.1 (h.keyHeld added.held hcontent)
  have hwraps := added.wraps_key
  rw [hheld] at hwraps
  refine ⟨?_, by rw [hheld, hwraps.of_held.2]⟩
  rcases added.after_cases with ⟨-, hafter⟩ | ⟨hnone, -⟩
  · exact hafter
  · simp [hnone] at hcontent

theorem Added.seals (hcontent : t.content = none) (added : Added p rng t key header) :
    Seals added := by
  rcases added.after_cases with ⟨hsome, -⟩ | ⟨-, encrypted, hsealed, hafter⟩
  · simp [hcontent] at hsome
  · refine ⟨added.unsealed_eq, by rw [hafter], by rw [hafter], fun hinverts => ?_⟩
    obtain ⟨plaintext, hplaintext⟩ := Option.isSome_iff_exists.1 added.held
    obtain ⟨content, compressed, hcontent, hcompressed, hdecrypt⟩ :=
      decrypt_of_sealContent hinverts hplaintext hsealed
    rw [hafter]
    exact ⟨content, plaintext, compressed, hcontent, hplaintext, hcompressed, hdecrypt⟩

/-- A plaintext that is not compressed is itself what the content is opened to. -/
theorem Seals.opens_plaintext {added : Added p rng t key header} (h : Seals added)
    (hinverts : added.encryption.Inverts p) {plaintext : ByteArray}
    (hplaintext : t.plaintext = some plaintext)
    (hplain : compresses added.after.protectedHeader = .ok false) :
    ∃ content, added.after.content = some content ∧
      added.encryption.decrypt p added.wrapped.contentKey
        (contentAad added.after.protectedText added.after.aad) content = .ok plaintext := by
  obtain ⟨content, found, compressed, hcontent, hfound, hcompressed, hdecrypt⟩ := h.opens hinverts
  obtain rfl := Option.some.inj (hfound.symm.trans hplaintext)
  obtain rfl := Except.ok.inj (hcompressed.symm.trans hplain)
  exact ⟨content, hcontent, hdecrypt⟩

/-- What adding a recipient step by step does to a token. -/
structure AddsRecipient (p : Primitives) (rng : Entropy) (t : Jwe) (key : Jwk)
    (header : Option Object) : Prop where
  /-- A failure leaves the token as it was, wherever it comes. -/
  failed : ∀ error after, (addRecipientInPlace p rng key header).run t = .error error after →
    after = t ∧ t.addRecipient p rng key header = .error error
  /-- A success appends one recipient, which shares the content or has it encrypted. -/
  succeeded : ∀ after, (addRecipientInPlace p rng key header).run t = .ok () after →
    t.addRecipient p rng key header = .ok after ∧
      ∃ added : Added p rng t key header, after = added.after ∧
        after.recipients = t.recipients ++ [added.recipient] ∧
        (t.content.isSome = true → Shares added) ∧ (t.content = none → Seals added)

/-- Let a token be started or read and any calls be made on it, and let a recipient be added
to it then, step by step and in place. If that fails, the token is as it was. Otherwise it
has one recipient more, which is given the key of the content: the one that is held, or
else the one that the content is encrypted under with it. -/
theorem addsRecipient_of_reachable (h : Reachable p t) : AddsRecipient p rng t key header := by
  constructor
  · intro error after hrun
    rw [addRecipientInPlace_eq_whole] at hrun
    exact InPlace.whole_eq_error.1 hrun
  · intro after hrun
    rw [addRecipientInPlace_eq_whole] at hrun
    have hadd := InPlace.whole_eq_ok.1 hrun
    obtain ⟨added, rfl⟩ := addRecipient_iff.1 hadd
    exact ⟨hadd, added, rfl, added.recipients_eq, fun hcontent => h.shares hcontent added,
      fun hnone => added.seals hnone⟩

/-- Without an algorithm no second recipient is added. -/
theorem unnamed_recipient_refused (added : Added .standard rng unshared key (some directHeader)) :
    (addRecipientInPlace .standard zeros otherKey none).run added.after =
      .error .missingAlgorithm added.after := by
  have hmerges : added.after.merged (some .empty) = .ok (unshared.parameters none) :=
    (added.merged_eq _).trans (toOption_eq_some.1 (by decide +kernel))
  have hunnamed : algorithms added.after.options (unshared.parameters none) =
      .error .missingAlgorithm := by
    rw [added.options_eq]
    rfl
  have hplaintext : added.after.plaintext = some "hi".toUTF8 :=
    addRecipient_plaintext (addRecipient_iff.2 ⟨added, rfl⟩)
  rw [addRecipientInPlace_eq_whole, InPlace.whole_eq_error]
  exact ⟨rfl, by simp [addRecipient, hplaintext, hmerges, hunnamed]⟩

/-- A first recipient is added, and the content is opened with the key that it was given. A
second one without an algorithm is refused, and leaves the token. -/
theorem direct_recipient_added :
    ∃ one, Reachable .standard one ∧
      (addRecipientInPlace .standard zeros zeroKey (some directHeader)).run unshared =
        .ok () one ∧
      (∃ content, one.content = some content ∧
        (ContentEncryptionAlgorithm.gcm .aes128).decrypt .standard (Bytes.zeros 16)
          (contentAad one.protectedText one.aad) content = .ok "hi".toUTF8) ∧
      (addRecipientInPlace .standard zeros otherKey none).run one =
        .error .missingAlgorithm one ∧
      AddsRecipient .standard zeros unshared zeroKey (some directHeader) ∧
      AddsRecipient .standard zeros one otherKey none := by
  obtain ⟨first, -, -, halgorithm, hcontentKey, -⟩ := exists_directAdded
  have hadd : unshared.addRecipient .standard zeros zeroKey (some directHeader) =
      .ok first.after :=
    addRecipient_iff.2 ⟨first, rfl⟩
  have hrun : (addRecipientInPlace .standard zeros zeroKey (some directHeader)).run unshared =
      .ok () first.after := by
    rw [addRecipientInPlace_eq_whole, InPlace.whole_eq_ok]
    exact hadd
  have hunshared : Reachable .standard unshared := .started _ _ _ []
  have hone : Reachable .standard first.after := by
    have hcalled := hunshared.run [.addRecipient zeros zeroKey (some directHeader)]
    rw [run, List.foldl_cons, List.foldl_nil] at hcalled
    simpa only [Call.after, hadd] using hcalled
  have hadds : AddsRecipient .standard zeros unshared zeroKey (some directHeader) :=
    addsRecipient_of_reachable hunshared
  refine ⟨first.after, hone, hrun, ?_, unnamed_recipient_refused first, hadds,
    addsRecipient_of_reachable hone⟩
  obtain ⟨-, added, hafter, -, -, hseals⟩ := hadds.succeeded _ hrun
  have hplain : compresses first.after.protectedHeader = .ok false := by
    rw [first.protectedHeader_eq]
    exact toOption_eq_some.1 (by decide +kernel)
  rw [hafter] at halgorithm hcontentKey hplain ⊢
  have halgorithm := Option.some.inj ((hseals rfl).algorithm.symm.trans halgorithm)
  have hcontentKey := Option.some.inj ((hseals rfl).contentKey.symm.trans hcontentKey)
  have hinverts : added.encryption.Inverts .standard := by
    rw [halgorithm]
    exact Primitives.standard_opensSealed
  have hopens := (hseals rfl).opens_plaintext hinverts rfl hplain
  rwa [halgorithm, hcontentKey] at hopens

end SealedToken.Jwe
