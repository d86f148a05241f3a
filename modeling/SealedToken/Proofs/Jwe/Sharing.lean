import SealedToken.Proofs.Jwe.Invariant

/-!
Who shares the key of the content. An algorithm that determines this key takes no other,
so it can only be the one of the first recipient. Nothing keeps others from being added
behind it: they are given the key that it has determined.
-/

namespace SealedToken.Jwe

variable {p : Primitives} {t after : Jwe}

/-- A header gives an algorithm that does not determine the key of the content. -/
def Receives (header : Object) : Prop :=
  ∃ a : KeyManagementAlgorithm, a.determinesKey = false ∧ header.find? "alg" = some (.str a.name)

/-- What holds of a token that was started from a plaintext. -/
structure Started (t : Jwe) : Prop where
  coherent : Coherent t
  /-- The key of the content is held. -/
  held : t.content.isSome = true → t.contentKey.isSome = true
  /-- All recipients behind the first are given this key. -/
  later : ∀ r ∈ t.recipients.tail, Receives (t.parameters r.header)

theorem started_ofPlaintext {plaintext : ByteArray} {protectedHeader sharedHeader : Option Object} :
    Started (ofPlaintext plaintext protectedHeader sharedHeader) :=
  ⟨coherent_ofPlaintext, by simp [ofPlaintext], by simp [ofPlaintext]⟩

/-! ### Adding a recipient -/

section Adding

variable {rng : Entropy} {key : Jwk} {header : Option Object} (added : Added p rng t key header)

/-- The parameters of all other recipients stay as they are. -/
theorem Added.parameters_eq (other : Option Object) :
    added.after.parameters other = t.parameters other := by
  rw [parameters, parameters, added.common_eq]

/-- Behind the first recipient the key that is held is wrapped, by an algorithm that
determines none. -/
theorem Started.wraps_held (h : Started t) (hne : t.recipients ≠ []) :
    added.management.determinesKey = false ∧ t.contentKey = some added.wrapped.contentKey := by
  obtain ⟨contentKey, hheld⟩ := Option.isSome_iff_exists.1 (h.held (h.coherent.content.2 hne))
  have hwraps := added.wraps_key
  rw [hheld] at hwraps
  obtain ⟨hdetermines, hsame⟩ := hwraps.of_held
  exact ⟨hdetermines, by rw [hheld, hsame]⟩

theorem Started.addRecipient (h : Started t) : Started added.after where
  coherent := h.coherent.added added
  held hcontent := by
    rcases added.after_cases with ⟨hbefore, hafter⟩ | ⟨-, encrypted, -, hafter⟩
    · rw [hafter]
      exact h.held hbefore
    · rw [hafter]
      rfl
  later r hr := by
    rw [added.recipients_eq] at hr
    rw [added.parameters_eq]
    by_cases hnone : t.recipients = []
    · simp [hnone] at hr
    · rw [List.tail_append_of_ne_nil hnone, List.mem_append, List.mem_singleton] at hr
      rcases hr with hr | rfl
      · exact h.later r hr
      · exact ⟨added.management, (h.wraps_held added hnone).1, added.find?_alg⟩

end Adding

/-! ### Any calls -/

theorem Started.changes (h : Started t) (hchanges : Changes p t after) : Started after := by
  have hcoherent := h.coherent.changes hchanges
  cases hchanges with
  | beside plaintext aad options log => exact ⟨hcoherent, h.held, h.later⟩
  | added added => exact h.addRecipient added
  | opened => exact ⟨hcoherent, fun _ => rfl, h.later⟩
  | moved moves =>
      exact ⟨hcoherent, fun _ => by simp [moved, moves.contentKey], by simp [moved]⟩
  | sealed moves sealed =>
      obtain ⟨_, _, _, _, _, _, rfl⟩ := sealContent_eq_ok.1 sealed
      exact ⟨hcoherent, fun _ => by simp [moved, moves.contentKey], by simp [moved]⟩

theorem Started.run (h : Started t) (calls : List Call) : Started (t.run p calls) :=
  List.foldlRecOn calls (Call.after p) h fun _ hbefore c _ => hbefore.changes (changes_of_call c)

/-- A recipient whose header can be merged. -/
theorem headerAt_eq_ok {i : Nat} {header : Object} (h : t.headerAt i = .ok header) :
    ∃ r, t.recipients[i]? = some r ∧ t.parameters r.header = header := by
  unfold headerAt at h
  split at h
  · next r hr => exact ⟨r, hr, parameters_of_merged h⟩
  · simp at h

theorem Started.eq_zero_of_determinesKey (h : Started t) {i : Nat} {header : Object}
    {a : KeyManagementAlgorithm} (hheader : t.headerAt i = .ok header)
    (halg : header.find? "alg" = some (.str a.name)) (ha : a.determinesKey = true) : i = 0 := by
  obtain ⟨r, hr, rfl⟩ := headerAt_eq_ok hheader
  cases i with
  | zero => rfl
  | succ i =>
      rw [← List.getElem?_tail] at hr
      obtain ⟨b, hb, hnamed⟩ := h.later r (List.mem_of_getElem? hr)
      rw [halg, Option.some.injEq, Json.str.injEq] at hnamed
      obtain rfl := KeyManagementAlgorithm.name_injective hnamed
      simp [ha] at hb

/-- Who shares the key of the content. -/
structure Sharing (p : Primitives) (t : Jwe) : Prop where
  /-- A recipient whose algorithm determines the key is the first one. -/
  first : ∀ i header a, t.headerAt i = .ok header → header.find? "alg" = some (.str a.name) →
    KeyManagementAlgorithm.determinesKey a = true → i = 0
  /-- There is no adding one behind another. -/
  refused : t.recipients ≠ [] → ∀ rng key header merged a,
    t.merged (some (Option.getD header .empty)) = .ok merged →
    merged.find? "alg" = some (.str (KeyManagementAlgorithm.name a)) → a.determinesKey = true →
    (t.addRecipient p rng key header).isOk = false
  /-- Whoever is added behind another is given the key that is held. -/
  given : t.recipients ≠ [] → ∀ rng key header after, t.addRecipient p rng key header = .ok after →
    ∃ added : Added p rng t key header, after = added.after ∧
      added.management.determinesKey = false ∧ t.contentKey = some added.wrapped.contentKey

/-- Let a token be started from a plaintext and any calls be made on it. An algorithm
that determines the key of the content is that of the first recipient only, and everyone
behind the first, whoever that is, is given the key of the first. -/
theorem determining_recipient_is_first (plaintext : ByteArray)
    (protectedHeader sharedHeader : Option Object) (calls : List Call) :
    Sharing p ((ofPlaintext plaintext protectedHeader sharedHeader).run p calls) := by
  have h : Started ((ofPlaintext plaintext protectedHeader sharedHeader).run p calls) :=
    started_ofPlaintext.run calls
  refine ⟨fun i header a => h.eq_zero_of_determinesKey,
    fun hne rng key header merged a hmerged halg ha => ?_, fun hne rng key header after hadd => ?_⟩
  · cases hadd : addRecipient p rng _ key header with
    | error error => rfl
    | ok after =>
        obtain ⟨added, -⟩ := addRecipient_iff.1 hadd
        have hdetermines := (h.wraps_held added hne).1
        obtain rfl := Except.ok.inj (added.merges.symm.trans hmerged)
        rw [added.managementNamed.named, Option.some.injEq, Json.str.injEq,
          ← KeyManagementAlgorithm.name_of_lookup added.managementRegistered] at halg
        obtain rfl := KeyManagementAlgorithm.name_injective halg
        simp [ha] at hdetermines
  · obtain ⟨added, rfl⟩ := addRecipient_iff.1 hadd
    exact ⟨added, rfl, h.wraps_held added hne⟩

/-! ### A key that is given away -/

/-- A token that is started, and the headers of two recipients. -/
def unshared : Jwe :=
  ofPlaintext "hi".toUTF8
    (some (.ofMembers [("enc", .str (ContentEncryptionAlgorithm.gcm .aes128).name)])) none

def directHeader : Object := .ofMembers [("alg", .str KeyManagementAlgorithm.direct.name)]

def wrappedHeader : Object :=
  .ofMembers [("alg", .str (KeyManagementAlgorithm.aesKeyWrap .aes128).name)]

/-- The key of the other recipient. -/
def otherKey : Jwk := .ofOctets ⟨Array.replicate 16 1⟩

theorem exists_directAdded :
    ∃ added : Added .standard zeros unshared zeroKey (some directHeader),
      added.after.plaintext.isSome = true ∧ added.after.content.isSome = true ∧
        added.after.algorithm = some (.gcm .aes128) ∧
        added.after.contentKey = some (Bytes.zeros 16) ∧
        added.recipient.header = some directHeader := by
  let merged := unshared.parameters (some directHeader)
  have halg : Names {} merged "alg" KeyManagementAlgorithm.direct.name :=
    .of_registered rfl (by decide +kernel) (by decide +kernel) (by decide +kernel)
  have henc : Names {} merged "enc" (ContentEncryptionAlgorithm.gcm .aes128).name :=
    .of_registered rfl (by decide +kernel) (by decide +kernel) (by decide +kernel)
  have hmerges : unshared.merged (some directHeader) = .ok merged :=
    toOption_eq_some.1 (by decide +kernel)
  obtain ⟨added, hmerged, hwrapped, hplaintext, hcontent, halgorithm, hcontentKey⟩ :=
    @Added.exists_first .standard zeros unshared zeroKey (some directHeader) merged .direct
      (.gcm .aes128) ⟨Bytes.zeros 16, .empty, .empty⟩ rfl rfl rfl (by decide +kernel) hmerges
      halg henc rfl rfl
  refine ⟨added, by rw [hplaintext]; rfl, hcontent, halgorithm, hcontentKey, ?_⟩
  rw [Added.recipient, hmerged, hwrapped]
  rfl

/-- A key of half blocks can be wrapped. -/
theorem exists_keyWrap? {kek key : ByteArray} (h : key.size % 8 = 0) :
    ∃ wrapped, Primitives.standard.keyWrap? kek key = some wrapped := by
  rw [← Option.isSome_iff_exists]
  change (Aes.keyWrap? kek key).isSome = true
  simp [Aes.keyWrap?, h]

theorem exists_wrappedKey {header : Object} :
    ∃ wrapped, KeyManagementAlgorithm.wrap .standard (zeros.fork 0) (.aesKeyWrap .aes128) otherKey
      (ContentEncryptionAlgorithm.gcm .aes128).keySize (some (Bytes.zeros 16)) header {} =
        .ok wrapped := by
  obtain ⟨encryptedKey, hwrapped⟩ :=
    @exists_keyWrap? ⟨Array.replicate 16 1⟩ (Bytes.zeros 16) rfl
  exact ⟨_, bind_eq_ok.2 ⟨_, rfl, bind_eq_ok.2 ⟨_, rfl,
    bind_eq_ok.2 ⟨encryptedKey, by rw [KeyManagementAlgorithm.wrapUnder, hwrapped], rfl⟩⟩⟩⟩

/-- The secret of the first recipient becomes the key of the content, and another recipient
is given it. -/
theorem direct_key_shared :
    ∃ one two, unshared.addRecipient .standard zeros zeroKey (some directHeader) = .ok one ∧
      one.addRecipient .standard zeros otherKey (some wrappedHeader) = .ok two ∧
      one.contentKey = some (Bytes.zeros 16) ∧ two.recipients.length = 2 ∧
      ∃ header, two.headerAt 0 = .ok header ∧
        header.find? "alg" = some (.str KeyManagementAlgorithm.direct.name) := by
  obtain ⟨first, hheld, hcontent, halgorithm, hcontentKey, hheader⟩ := exists_directAdded
  let merged := unshared.parameters (some wrappedHeader)
  have halg : Names first.after.options merged "alg"
      (KeyManagementAlgorithm.aesKeyWrap .aes128).name :=
    .of_registered (by rw [first.options_eq]; rfl) (by decide +kernel) (by decide +kernel)
      (by decide +kernel)
  have henc : Names first.after.options merged "enc"
      (ContentEncryptionAlgorithm.gcm .aes128).name :=
    .of_registered (by rw [first.options_eq]; rfl) (by decide +kernel) (by decide +kernel)
      (by decide +kernel)
  have hmerges : first.after.merged (some wrappedHeader) = .ok merged :=
    (first.merged_eq _).trans (toOption_eq_some.1 (by decide +kernel))
  obtain ⟨wrapped, hwraps⟩ := @exists_wrappedKey merged
  obtain ⟨second⟩ :=
    @Added.exists_later .standard zeros first.after otherKey (some wrappedHeader) merged
      (.aesKeyWrap .aes128) (.gcm .aes128) wrapped hheld hcontent halgorithm hmerges halg henc
      (by rw [hcontentKey, first.options_eq]; exact hwraps)
  refine ⟨first.after, second.after, addRecipient_iff.2 ⟨first, rfl⟩,
    addRecipient_iff.2 ⟨second, rfl⟩, hcontentKey, ?_, unshared.parameters (some directHeader), ?_,
    by decide +kernel⟩
  · rw [second.recipients_eq, first.recipients_eq]
    rfl
  · rw [second.headerAt_of_lt (by simp [first.recipients_eq]),
      show 0 = unshared.recipients.length from rfl, first.headerAt_length, hheader]
    exact toOption_eq_some.1 (by decide +kernel)

end SealedToken.Jwe
