import SealedToken.Proofs.Jwe.Serialization
import SealedToken.Proofs.Jwe.Unlocking

/-!
What a token holds belongs together. Unless a writing of it has failed, its content is the
plaintext that it holds, under the key that it holds, and the parameters of its recipient
name the algorithm.
-/

namespace SealedToken.Jwe

variable {p : Primitives} {t after : Jwe}

/-! ### Calls without a failed writing -/

/-- A call that is no failed writing. -/
def Call.Completes (p : Primitives) (t : Jwe) : Call → Prop
  | .serialize rng compact => (t.serialize p rng compact).1.isOk = true
  | _ => True

/-- A token that was started or read, after calls none of which is a failed writing. -/
inductive Orderly (p : Primitives) : Jwe → Prop
  | started (plaintext : ByteArray) (protectedHeader sharedHeader : Option Object) :
      Orderly p (ofPlaintext plaintext protectedHeader sharedHeader)
  | read {raw : String} {t : Jwe} (h : deserialize raw = .ok t) : Orderly p t
  | called {t : Jwe} {c : Call} (h : Orderly p t) (hc : c.Completes p t) : Orderly p (c.after p t)

/-! ### The invariant -/

/-- What is encrypted for a plaintext: itself, or a text that it is expanded from. -/
inductive Packs : (compressed : Bool) → (text plaintext : ByteArray) → Prop
  | plain {plaintext : ByteArray} : Packs false plaintext plaintext
  | deflated {plaintext : ByteArray} : Packs true (Deflate.deflate plaintext) plaintext
  | expanded {text plaintext : ByteArray} {limit : Nat}
      (h : Deflate.inflate text limit = .ok plaintext) : Packs true text plaintext

/-- The content of a token is a plaintext under a key, whatever limit is set on its size. -/
structure Encloses (p : Primitives) (t : Jwe) (content : EncryptedContent)
    (a : ContentEncryptionAlgorithm) (contentKey plaintext : ByteArray) : Prop where
  opens : ∃ text compressed, compresses t.protectedHeader = .ok compressed ∧
    a.decrypt p contentKey (contentAad t.protectedText t.aad) content = .ok text ∧
    Packs compressed text plaintext

/-- Parameters name both algorithms of a recipient. -/
structure NamesBoth (parameters : Object) (a : ContentEncryptionAlgorithm) : Prop where
  alg : ∃ management : KeyManagementAlgorithm,
    parameters.find? "alg" = some (.str management.name)
  enc : parameters.find? "enc" = some (.str a.name)

/-- What is held belongs together. -/
structure Held (p : Primitives) (t : Jwe) : Prop where
  coherent : Coherent t
  /-- The written header is the header, or was written from it. -/
  text : t.content.isSome = true → Header.decode t.protectedText = .ok t.protectedHeader ∨
    t.protectedText = Header.encode t.protectedHeader
  nonempty : ∀ r ∈ t.recipients, Header.nonempty r.header = r.header
  names : ∀ r a, t.recipients = [r] → t.algorithm = some a → NamesBoth (t.parameters r.header) a
  encloses : ∀ content a contentKey plaintext, t.content = some content → t.algorithm = some a →
    t.contentKey = some contentKey → t.plaintext = some plaintext → a.Inverts p →
      Encloses p t content a contentKey plaintext

/-! ### At the beginning -/

theorem held_ofPlaintext {plaintext : ByteArray} {protectedHeader sharedHeader : Option Object} :
    Held p (ofPlaintext plaintext protectedHeader sharedHeader) where
  coherent := coherent_ofPlaintext
  text := by simp [ofPlaintext]
  nonempty := by simp [ofPlaintext]
  names := by simp [ofPlaintext]
  encloses := by simp [ofPlaintext]

theorem nonempty_readRecipient {w : WrittenRecipient} {r : Recipient}
    (h : readRecipient w = .ok r) : Header.nonempty r.header = r.header := by
  obtain ⟨encryptedKey, -, h⟩ := bind_eq_ok.1 h
  obtain rfl := Except.ok.inj h
  simp [Header.nonempty]

theorem held_of_deserialize {raw : String} (h : deserialize raw = .ok t) : Held p t := by
  obtain ⟨w, recipients, hread⟩ := readOf_of_deserialize h
  have hplaintext : t.plaintext = none := by rw [hread.rest]
  have halgorithm : t.algorithm = none := by rw [hread.rest]
  have htext : t.protectedText = w.protectedText := by rw [hread.rest]
  refine ⟨coherent_of_deserialize h, fun _ => .inl ?_, fun r hr => ?_, by simp [halgorithm],
    by simp [hplaintext]⟩
  · rw [htext]
    exact hread.protectedHeader
  · obtain ⟨w, -, hw⟩ := exists_of_mapM_eq_ok hread.recipients hr
    exact nonempty_readRecipient hw

/-! ### The calls -/

section Sealing

variable {rng : Entropy} {a : ContentEncryptionAlgorithm} {contentKey plaintext : ByteArray}

theorem encloses_of_sealContent {content : EncryptedContent} (hinverts : a.Inverts p)
    (hplaintext : t.plaintext = some plaintext) (hcontent : after.content = some content)
    (h : t.sealContent p rng a contentKey = .ok after) :
    Encloses p after content a contentKey plaintext := by
  obtain ⟨content', compressed, hcontent', hcompressed, hdecrypt⟩ :=
    decrypt_of_sealContent hinverts hplaintext h
  obtain rfl := Option.some.inj (hcontent'.symm.trans hcontent)
  refine ⟨_, compressed, hcompressed, hdecrypt, ?_⟩
  cases compressed with
  | true => exact .deflated
  | false => exact .plain

end Sealing

theorem packs_of_expands {compressed : Bool} {text plaintext : ByteArray}
    (hcompressed : compresses t.protectedHeader = .ok compressed)
    (h : Expands t text plaintext) : Packs compressed text plaintext := by
  have hiff := compressed_of_compresses hcompressed
  cases compressed with
  | true => exact .expanded (h.2 (hiff.1 rfl)).1
  | false =>
      obtain rfl := h.1 fun hc => Bool.false_ne_true (hiff.2 hc)
      exact .plain

theorem Checked.namesBoth {r : Recipient} (checked : Checked t r) :
    NamesBoth (t.parameters r.header) checked.encryption := by
  have halg := checked.managementNamed.named
  have henc := checked.encryptionNamed.named
  rw [← KeyManagementAlgorithm.name_of_lookup checked.managementRegistered] at halg
  rw [← ContentEncryptionAlgorithm.name_of_lookup checked.encryptionRegistered] at henc
  rw [parameters_of_merged checked.merged]
  exact ⟨⟨_, halg⟩, henc⟩

/-- The parameters of a recipient stay the same when its header is moved. -/
theorem parameters_moved {r : Recipient} (hshared : t.sharedHeader = none)
    (honce : t.nameTwice r = none) : (t.moved r).parameters none = t.parameters r.header := by
  rw [parameters, common, protectedHeader_moved hshared honce, moved, hshared]
  simp

namespace Held

variable (h : Held p t)
include h

theorem setOptions (options : JweOptions) : Held p { t with options } :=
  ⟨h.coherent.changes (p := p) (.beside t.plaintext t.aad options t.log), h.text, h.nonempty,
    h.names, fun content a contentKey plaintext hcontent ha hkey hplaintext hinverts =>
      ⟨(h.encloses content a contentKey plaintext hcontent ha hkey hplaintext hinverts).opens⟩⟩

theorem setAad {aad : ByteArray} (hset : t.setAad aad = .ok after) : Held p after := by
  unfold Jwe.setAad at hset
  obtain ⟨hcontent, hset⟩ := ite_error_eq_ok.1 hset
  obtain rfl := Except.ok.inj hset
  -- nothing is encrypted yet
  have hnone : t.content = none := by simpa using hcontent
  exact ⟨h.coherent.changes (p := p) (.beside t.plaintext (some aad) t.options t.log), h.text,
    h.nonempty, h.names, by simp [hnone]⟩

theorem addRecipient {rng : Entropy} {key : Jwk} {header : Option Object}
    (added : Added p rng t key header) : Held p added.after := by
  have hcoherent := h.coherent.added added
  have hnonempty : ∀ r ∈ added.after.recipients, Header.nonempty r.header = r.header := by
    rw [added.recipients_eq]
    intro r hr
    rcases List.mem_append.1 hr with hr | hr
    · exact h.nonempty r hr
    · obtain rfl := List.mem_singleton.1 hr
      simp [Added.recipient, Header.nonempty]
  rcases added.after_cases with ⟨hcontent, hafter⟩ | ⟨hnone, encrypted, hsealed, hafter⟩
  · rw [hafter] at hcoherent hnonempty ⊢
    refine ⟨hcoherent, h.text, hnonempty, fun r a hr => ?_,
      fun content a contentKey plaintext hcontent ha hkey hplaintext hinverts =>
        ⟨(h.encloses content a contentKey plaintext hcontent ha hkey hplaintext hinverts).opens⟩⟩
    -- there are two recipients by now
    have hlength := congrArg List.length hr
    simp [h.coherent.content.1 hcontent] at hlength
  · have hempty := h.coherent.recipients_eq_nil hnone
    have halgorithm : added.after.algorithm = some added.encryption := by rw [hafter]
    have hcontentKey : added.after.contentKey = some added.wrapped.contentKey := by rw [hafter]
    refine ⟨hcoherent, fun _ => .inr ?_, hnonempty, fun r a hr ha => ?_,
      fun content a contentKey plaintext hcontent ha hkey hplaintext hinverts => ?_⟩
    · have htext := sealContent_protectedText hsealed
      rwa [hafter]
    · obtain rfl : added.recipient = r := by simpa [added.recipients_eq, hempty] using hr
      obtain rfl := Option.some.inj (halgorithm.symm.trans ha)
      have henc := added.find?_enc
      rw [← ContentEncryptionAlgorithm.name_of_lookup added.encryptionRegistered] at henc
      rw [added.parameters_eq]
      exact ⟨⟨_, added.find?_alg⟩, henc⟩
    · obtain rfl := Option.some.inj (halgorithm.symm.trans ha)
      obtain rfl := Option.some.inj (hcontentKey.symm.trans hkey)
      have hheld : t.plaintext = some plaintext := by
        rw [hafter] at hplaintext
        exact (sealContent_plaintext hsealed).symm.trans hplaintext
      have hcontent : encrypted.content = some content := by rwa [hafter] at hcontent
      have hencloses := encloses_of_sealContent hinverts hheld hcontent hsealed
      rw [hafter]
      exact ⟨hencloses.opens⟩

theorem decrypt {supply : Recipient → Jwk → Entropy} {keys : KeySource} :
    Held p (t.decrypt p supply keys).2 := by
  have hcoherent := h.coherent.changes (@changes_of_decrypt p t supply keys)
  cases hdecrypt : t.decrypt p supply keys with
  | mk outcome after =>
      rw [hdecrypt] at hcoherent
      cases outcome with
      | error error =>
          obtain ⟨log, rfl⟩ := decrypt_eq_error hdecrypt
          exact ⟨hcoherent, h.text, h.nonempty, h.names, by simp⟩
      | ok _ =>
          obtain ⟨content, opened, log, hcontent, hopen, rfl⟩ := decrypt_eq_ok.1 hdecrypt
          obtain ⟨r, hr, checked, _, -, _, -, text, -, hdecrypt, halgorithm, hexpands⟩ :=
            opens_of_openFirst (by rw [hopen])
          refine ⟨hcoherent, h.text, h.nonempty, fun r' a hr' ha => ?_,
            fun content' a contentKey plaintext hcontent' ha hkey hplaintext _ => ?_⟩
          · have hr' : t.recipients = [r'] := hr'
            obtain rfl : r = r' := by simpa [hr'] using hr
            obtain rfl := Option.some.inj ha
            rw [halgorithm]
            exact checked.namesBoth
          · obtain rfl := Option.some.inj (hcontent.symm.trans hcontent')
            obtain rfl := Option.some.inj ha
            obtain rfl := Option.some.inj hkey
            obtain rfl := Option.some.inj hplaintext
            obtain ⟨compressed, hcompressed⟩ := checked.compressible
            rw [halgorithm]
            exact ⟨text, compressed, hcompressed, hdecrypt, packs_of_expands hcompressed hexpands⟩

section Moves

variable {rng : Entropy} {r : Recipient} {a : ContentEncryptionAlgorithm} {contentKey : ByteArray}

theorem moved (moves : Moves t r a contentKey) (honce : t.nameTwice r = none)
    (hsealed : (t.moved r).sealContent p rng a contentKey = .ok after) : Held p after := by
  have hcoherent := h.coherent.changes (.sealed moves hsealed)
  obtain ⟨hr, -, hshared⟩ := compactRecipient_eq_ok.1 moves.recipient
  have hencloses (content plaintext) (hinverts : a.Inverts p)
      (hplaintext : t.plaintext = some plaintext) (hcontent : after.content = some content) :
      Encloses p after content a contentKey plaintext :=
    encloses_of_sealContent (t := t.moved r) hinverts hplaintext hcontent hsealed
  obtain ⟨_, _, _, _, _, _, rfl⟩ := sealContent_eq_ok.1 hsealed
  refine ⟨hcoherent, fun _ => .inr rfl, ?_, fun r' a' hr' ha' => ?_,
    fun content a' contentKey' plaintext hcontent ha hkey hplaintext hinverts => ?_⟩
  · simp [Jwe.moved, Header.nonempty]
  · obtain rfl := List.singleton_inj.1 hr'
    have hparameters := parameters_moved hshared honce
    have hnames := h.names r a' hr ha'
    rw [← hparameters] at hnames
    exact hnames
  · obtain rfl := Option.some.inj (moves.algorithm.symm.trans ha)
    obtain rfl := Option.some.inj (moves.contentKey.symm.trans hkey)
    exact hencloses content plaintext hinverts hplaintext hcontent

end Moves

theorem serialize {rng : Entropy} {compact : Bool}
    (hok : (t.serialize p rng compact).1.isOk = true) : Held p (t.serialize p rng compact).2 := by
  by_cases hmoves : ∃ r a contentKey, Moves t r a contentKey
  · obtain ⟨r, a, contentKey, moves⟩ := hmoves
    cases compact with
    | false => rwa [serialize_json]
    | true =>
        rw [serialize_of_moves moves] at hok ⊢
        cases htwice : t.nameTwice r with
        | some name => simp [htwice] at hok
        | none =>
            cases hsealed : (t.moved r).sealContent p rng a contentKey with
            | error error => simp [htwice, hsealed] at hok
            | ok after => exact h.moved moves htwice hsealed
  · rwa [serialize_of_not_moves hmoves]

theorem call {c : Call} (hc : c.Completes p t) : Held p (c.after p t) := by
  cases c with
  | setOptions options => exact h.setOptions options
  | setAad aad =>
      rw [Call.after]
      split
      · next after hset => exact h.setAad hset
      · exact h
  | addRecipient rng key header =>
      rw [Call.after]
      split
      · next after hadd =>
          obtain ⟨added, rfl⟩ := addRecipient_iff.1 hadd
          exact h.addRecipient added
      · exact h
  | decrypt supply keys => exact h.decrypt
  | serialize rng compact => exact h.serialize hc
  | headerAt index => exact h

end Held

theorem Orderly.held (h : Orderly p t) : Held p t := by
  induction h with
  | started plaintext protectedHeader sharedHeader => exact held_ofPlaintext
  | read h => exact held_of_deserialize h
  | called _ hc ih => exact ih.call hc

end SealedToken.Jwe
