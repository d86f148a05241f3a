import SealedToken.Proofs.Jwe.Moving
import SealedToken.Proofs.Jwe.Recipients
import SealedToken.Proofs.Jwe.Release

/-!
What holds of every token, whether it was read or started from a plaintext, and whatever
was called on it. First it is said once what a call can change; an invariant is then a
case for each kind of change.
-/

namespace SealedToken.Jwe

variable {p : Primitives} {t after : Jwe}

/-! ### What a call can change -/

/-- What a call can change. -/
inductive Changes (p : Primitives) (t : Jwe) : Jwe → Prop
  /-- Neither the content nor its key, nor any header. -/
  | beside (plaintext aad : Option ByteArray) (options : JweOptions) (log : List FailedAttempt) :
      Changes p t { t with plaintext, aad, options, log }
  /-- A recipient is added. -/
  | added {rng : Entropy} {key : Jwk} {header : Option Object} (added : Added p rng t key header) :
      Changes p t added.after
  /-- The key of the content is found by a recipient. -/
  | opened {r : Recipient} (plaintext contentKey : ByteArray) (log : List FailedAttempt)
      (mem : r ∈ t.recipients) (checked : Checked t r)
      (size : contentKey.size = checked.encryption.keyBytes) :
      Changes p t { t with
        plaintext := some plaintext
        algorithm := some checked.encryption
        contentKey := some contentKey
        log }
  /-- The header of the recipient is moved. -/
  | moved {r : Recipient} {a : ContentEncryptionAlgorithm} {contentKey : ByteArray}
      (moves : Moves t r a contentKey) : Changes p t (t.moved r)
  /-- The header of the recipient is moved, and the content encrypted again. -/
  | sealed {rng : Entropy} {r : Recipient} {a : ContentEncryptionAlgorithm}
      {contentKey : ByteArray} {after : Jwe} (moves : Moves t r a contentKey)
      (sealed : (t.moved r).sealContent p rng a contentKey = .ok after) : Changes p t after

/-- A decryption that fails drops the plaintext, and nothing else that it may need
again. -/
theorem decrypt_eq_error {supply : Recipient → Jwk → Entropy} {keys : KeySource} {error : Error}
    (h : t.decrypt p supply keys = (.error error, after)) :
    ∃ log, after = { t with plaintext := none, log } := by
  unfold decrypt at h
  dsimp only at h
  split at h
  · exact ⟨[], (Prod.mk.inj h).2.symm⟩
  · split at h
    · next error log hopen => exact ⟨log, (Prod.mk.inj h).2.symm⟩
    · simp at h

theorem changes_of_decrypt {supply : Recipient → Jwk → Entropy} {keys : KeySource} :
    Changes p t (t.decrypt p supply keys).2 := by
  cases hdecrypt : t.decrypt p supply keys with
  | mk outcome after =>
      cases outcome with
      | ok _ =>
          obtain ⟨content, opened, log, hcontent, hopen, rfl⟩ := decrypt_eq_ok.1 hdecrypt
          obtain ⟨r, hr, checked, _, -, _, -, text, -, hdecrypt, halgorithm, -⟩ :=
            opens_of_openFirst (by rw [hopen])
          rw [halgorithm]
          exact .opened opened.plaintext opened.contentKey log hr checked (size_of_decrypt hdecrypt)
      | error error =>
          obtain ⟨log, rfl⟩ := decrypt_eq_error hdecrypt
          exact .beside none t.aad t.options log

theorem changes_of_serialize {rng : Entropy} {compact : Bool} :
    Changes p t (t.serialize p rng compact).2 := by
  have hsame : Changes p t t := .beside t.plaintext t.aad t.options t.log
  by_cases hmoves : ∃ r a contentKey, Moves t r a contentKey
  · obtain ⟨r, a, contentKey, moves⟩ := hmoves
    cases compact with
    | false => rwa [serialize_json]
    | true =>
        rw [serialize_of_moves moves]
        cases t.nameTwice r with
        | some name => exact .moved moves
        | none =>
            cases hsealed : (t.moved r).sealContent p rng a contentKey with
            | error error => exact .moved moves
            | ok after => exact .sealed moves hsealed
  · rwa [serialize_of_not_moves hmoves]

theorem changes_of_call (c : Call) : Changes p t (c.after p t) := by
  cases c with
  | setOptions options => exact .beside t.plaintext t.aad options t.log
  | setAad aad =>
      rw [Call.after]
      split
      · next after hset =>
          unfold setAad at hset
          obtain ⟨-, hafter⟩ := ite_error_eq_ok.1 hset
          obtain rfl := Except.ok.inj hafter
          exact .beside t.plaintext (some aad) t.options t.log
      · exact .beside t.plaintext t.aad t.options t.log
  | addRecipient rng key header =>
      rw [Call.after]
      split
      · next after hadd =>
          obtain ⟨added, rfl⟩ := addRecipient_iff.1 hadd
          exact .added added
      · exact .beside t.plaintext t.aad t.options t.log
  | decrypt supply keys => exact changes_of_decrypt
  | serialize rng compact => exact changes_of_serialize
  | headerAt index => exact .beside t.plaintext t.aad t.options t.log

/-! ### A token in itself -/

/-- A protected header says how to compress, and the parameters of a recipient name both
algorithms. -/
structure Complete (protectedHeader : Option Object) (parameters : Object) : Prop where
  compresses : (compresses protectedHeader).isOk = true
  alg : parameters.contains "alg" = true
  enc : parameters.contains "enc" = true

/-- The parts of a token fit together. -/
structure Coherent (t : Jwe) : Prop where
  /-- There is a content as soon as there is a recipient. -/
  content : t.content.isSome = true ↔ t.recipients ≠ []
  /-- With the key of the content its algorithm is held. -/
  algorithm : t.algorithm.isSome = true ↔ t.contentKey.isSome = true
  /-- The key has the size that the algorithm asks for. -/
  size : ∀ a contentKey, t.algorithm = some a → t.contentKey = some contentKey →
    contentKey.size = a.keyBytes
  /-- The key is only held for a recipient whose headers have been read, unless its own has
  been moved since. -/
  complete : ∀ r, t.recipients = [r] → (Header.nonempty r.header).isSome = true →
    t.contentKey.isSome = true → Complete t.protectedHeader (t.parameters r.header)

/-- There are no recipients as long as nothing is encrypted. -/
theorem Coherent.recipients_eq_nil (h : Coherent t) (hnone : t.content = none) :
    t.recipients = [] := by
  by_contra hne
  have hcontent := h.content.2 hne
  simp [hnone] at hcontent

theorem coherent_ofPlaintext {plaintext : ByteArray}
    {protectedHeader sharedHeader : Option Object} :
    Coherent (ofPlaintext plaintext protectedHeader sharedHeader) where
  content := by simp [ofPlaintext]
  algorithm := by simp [ofPlaintext]
  size := by simp [ofPlaintext]
  complete := by simp [ofPlaintext]

/-- A token that is read has its content and recipients, and no key. -/
theorem coherent_of_deserialize {raw : String} (h : deserialize raw = .ok t) : Coherent t := by
  obtain ⟨w, recipients, hread⟩ := readOf_of_deserialize h
  obtain ⟨content, hcontent, -⟩ := hread.content
  have hne : t.recipients ≠ [] := by
    have hlength := (mapM_eq_ok.1 hread.recipients).length_eq
    exact List.ne_nil_of_length_pos (hlength ▸ List.length_pos_of_ne_nil hread.nonempty)
  have hkey : t.contentKey = none := by rw [hread.rest]
  have halgorithm : t.algorithm = none := by rw [hread.rest]
  exact ⟨by simp [hcontent, hne], by simp [hkey, halgorithm], by simp [hkey], by simp [hkey]⟩

theorem Coherent.added {rng : Entropy} {key : Jwk} {header : Option Object} (h : Coherent t)
    (added : Added p rng t key header) : Coherent added.after := by
  rcases added.after_cases with ⟨hcontent, hafter⟩ | ⟨hnone, encrypted, hsealed, hafter⟩
  · rw [hafter]
    refine ⟨by simp [hcontent], h.algorithm, h.size, fun r hr => ?_⟩
    -- there are two recipients by now
    have hlength := congrArg List.length hr
    simp [h.content.1 hcontent] at hlength
  · obtain ⟨_, _, _, _, hcompressed, hencrypted, rfl⟩ := sealContent_eq_ok.1 hsealed
    rw [hafter]
    refine ⟨by simp, by simp, fun a contentKey ha hkey => ?_, fun r hr _ _ => ?_⟩
    · obtain rfl := Option.some.inj ha
      obtain rfl := Option.some.inj hkey
      exact size_of_encrypt hencrypted
    · have hempty := h.recipients_eq_nil hnone
      obtain rfl : added.recipient = r := by simpa [hempty] using hr
      exact ⟨isOk_iff.2 ⟨_, hcompressed⟩, Object.contains_iff.2 ⟨_, added.find?_alg⟩,
        Object.contains_iff.2 ⟨_, added.find?_enc⟩⟩

theorem Coherent.moved {r : Recipient} (h : Coherent t) (hr : t.recipients = [r]) :
    Coherent (t.moved r) where
  content := by
    have hcontent := h.content
    simp [hr] at hcontent
    simp [Jwe.moved, hcontent]
  algorithm := h.algorithm
  size := h.size
  complete r' hr' hheader := by
    obtain rfl := List.singleton_inj.1 hr'
    simp [Header.nonempty] at hheader

theorem Coherent.changes (h : Coherent t) (hchanges : Changes p t after) : Coherent after := by
  cases hchanges with
  | beside plaintext aad options log => exact ⟨h.content, h.algorithm, h.size, h.complete⟩
  | added added => exact h.added added
  | @opened r plaintext contentKey log mem checked size =>
      refine ⟨h.content, by simp, fun a contentKey ha hkey => ?_, fun r' hr' _ _ => ?_⟩
      · obtain rfl := Option.some.inj ha
        obtain rfl := Option.some.inj hkey
        exact size
      · have hr' : t.recipients = [r'] := hr'
        obtain rfl : r = r' := by simpa [hr'] using mem
        refine ⟨isOk_iff.2 checked.compressible, ?_, ?_⟩
        · exact Object.contains_iff.2
            ⟨_, parameters_of_merged checked.merged ▸ checked.managementNamed.named⟩
        · exact Object.contains_iff.2
            ⟨_, parameters_of_merged checked.merged ▸ checked.encryptionNamed.named⟩
  | moved moves => exact h.moved (compactRecipient_eq_ok.1 moves.recipient).1
  | sealed moves sealed =>
      have hmoved := h.moved (compactRecipient_eq_ok.1 moves.recipient).1
      obtain ⟨_, _, _, _, _, _, rfl⟩ := sealContent_eq_ok.1 sealed
      exact ⟨by simp [Jwe.moved], hmoved.algorithm, hmoved.size, hmoved.complete⟩

/-- Every token that is read or started is coherent, after any calls. -/
theorem Coherent.run (h : Coherent t) (calls : List Call) : Coherent (t.run p calls) :=
  List.foldlRecOn calls (Call.after p) h fun _ hbefore c _ => hbefore.changes (changes_of_call c)

end SealedToken.Jwe
