import SealedToken.Proofs.Jwe.Compaction

/-!
A token is read again as it was written, whatever was called on it before, as long as no
writing of it has failed. The header that is written is the one that was read, or the one for
which the text was written when the content was encrypted; only a writing that fails behind
a move leaves a header that the text is not of.
-/

namespace SealedToken.Jwe

variable {p : Primitives} {rng : Entropy} {t after : Jwe} {r : Recipient}
  {a : ContentEncryptionAlgorithm} {contentKey : ByteArray} {text : String}

/-! ### The texts of the headers -/

/-- What the headers of a token are, before anything is encrypted and behind that. -/
structure Texts (t : Jwe) : Prop where
  unsealed : t.content = none → Header.nonempty t.protectedHeader = t.protectedHeader
  sealed : t.content.isSome = true → Header.TextOf t.protectedText t.protectedHeader
  shared : Header.nonempty t.sharedHeader = t.sharedHeader

theorem texts_ofPlaintext {plaintext : ByteArray} {protectedHeader sharedHeader : Option Object} :
    Texts (ofPlaintext plaintext protectedHeader sharedHeader) := by
  constructor <;> simp [ofPlaintext, Header.nonempty]

theorem texts_of_deserialize {raw : String} (h : deserialize raw = .ok t) : Texts t := by
  obtain ⟨w, recipients, hread⟩ := readOf_of_deserialize h
  obtain ⟨content, hcontent, -⟩ := hread.content
  have htext : t.protectedText = w.protectedText := by rw [hread.rest]
  have hshared : t.sharedHeader = Header.nonempty w.sharedHeader := by rw [hread.rest]
  refine ⟨by simp [hcontent], fun _ => .read ?_, by simp [hshared, Header.nonempty]⟩
  rw [htext]
  exact hread.protectedHeader

/-- Whatever is encrypted, the text is written for the header that there is. -/
theorem texts_of_sealContent (hprotected : Header.nonempty t.protectedHeader = t.protectedHeader)
    (hshared : Header.nonempty t.sharedHeader = t.sharedHeader)
    (h : t.sealContent p rng a contentKey = .ok after) : Texts after := by
  obtain ⟨_, _, _, _, _, _, rfl⟩ := sealContent_eq_ok.1 h
  exact ⟨by simp, fun _ => .written hprotected, hshared⟩

namespace Texts

variable (h : Texts t)
include h

theorem addRecipient {key : Jwk} {header : Option Object} (added : Added p rng t key header) :
    Texts added.after := by
  rcases added.after_cases with ⟨-, hafter⟩ | ⟨hnone, encrypted, hsealed, hafter⟩
  · rw [hafter]
    exact ⟨h.unsealed, h.sealed, h.shared⟩
  · have htexts := texts_of_sealContent (h.unsealed hnone) h.shared hsealed
    rw [hafter]
    exact ⟨htexts.unsealed, htexts.sealed, htexts.shared⟩

theorem decrypt {supply : Recipient → Jwk → Entropy} {keys : KeySource} :
    Texts (t.decrypt p supply keys).2 := by
  cases hdecrypt : t.decrypt p supply keys with
  | mk outcome after =>
      cases outcome with
      | error error =>
          obtain ⟨log, rfl⟩ := decrypt_eq_error hdecrypt
          exact ⟨h.unsealed, h.sealed, h.shared⟩
      | ok _ =>
          obtain ⟨_, _, _, -, -, rfl⟩ := decrypt_eq_ok.1 hdecrypt
          exact ⟨h.unsealed, h.sealed, h.shared⟩

/-- A writing that succeeds leaves the header as it is, or encrypts under the one to which
it has moved the names of the algorithms. -/
theorem serialize {compact : Bool} (ht : Coherent t)
    (hok : (t.serialize p rng compact).1.isOk = true) : Texts (t.serialize p rng compact).2 := by
  by_cases hmoves : ∃ r a contentKey, Moves t r a contentKey
  · obtain ⟨r, a, contentKey, moves⟩ := hmoves
    cases compact with
    | false => rwa [serialize_json]
    | true =>
        rw [serialize_of_moves moves] at hok ⊢
        cases htwice : t.nameTwice r with
        | some name => simp [htwice] at hok
        | none =>
            cases hsealed : (t.moved r).sealContent p rng a contentKey with
            | error error => simp [htwice, hsealed] at hok
            | ok after =>
                obtain ⟨header, hprotected, halg, -⟩ := ht.protectedHeader_moved moves htwice
                refine texts_of_sealContent (t := t.moved r) ?_ h.shared hsealed
                rw [hprotected]
                exact Header.nonempty_of_contains halg
  · rwa [serialize_of_not_moves hmoves]

theorem call {c : Call} (ht : Coherent t) (hc : c.Completes p t) : Texts (c.after p t) := by
  cases c with
  | setOptions options => exact ⟨h.unsealed, h.sealed, h.shared⟩
  | setAad aad =>
      rw [Call.after]
      split
      · next after hset =>
          unfold setAad at hset
          obtain rfl := Except.ok.inj (ite_error_eq_ok.1 hset).2
          exact ⟨h.unsealed, h.sealed, h.shared⟩
      · exact h
  | addRecipient rng key header =>
      rw [Call.after]
      split
      · next after hadd =>
          obtain ⟨added, rfl⟩ := addRecipient_iff.1 hadd
          exact h.addRecipient added
      · exact h
  | decrypt supply keys => exact h.decrypt
  | serialize rng compact => exact h.serialize ht hc
  | headerAt index => exact h

end Texts

theorem Orderly.texts (h : Orderly p t) : Texts t := by
  induction h with
  | started plaintext protectedHeader sharedHeader => exact texts_ofPlaintext
  | read h => exact texts_of_deserialize h
  | called hbefore hc ih => exact ih.call hbefore.held.coherent hc

/-! ### Reading what was written -/

/-- A token whose headers are read as they are written. A protected header that was read is
not written anew, so it is not asked of. -/
structure HeadersReadable (t : Jwe) : Prop where
  protectedHeader : t.protectedText = Header.encode t.protectedHeader →
    (t.protectedHeader.getD .empty).Codable (Json.nestingLimit - 1)
  sharedHeader : (t.sharedHeader.getD .empty).Codable (Json.nestingLimit - 2)
  header : ∀ r ∈ t.recipients, (r.header.getD .empty).Codable (ownLevels t.recipients)

theorem Orderly.writable (h : Orderly p t) (hcontent : t.content.isSome = true)
    (hreadable : HeadersReadable t) : Writable t where
  text := (h.texts.sealed hcontent).decode_eq_ok hreadable.protectedHeader
  shared := ⟨h.texts.shared, hreadable.sharedHeader⟩
  own r hr := ⟨h.held.nonempty r hr, hreadable.header r hr⟩

/-- A token that is written in compact form has one recipient, whose header is protected
then. -/
theorem Held.exists_compacts (h : Held p t)
    (hwritten : t.serialize p rng true = (.ok text, after)) :
    ∃ r, Compacts t r (t.parameters r.header) text after := by
  cases hcontent : t.content with
  | none => simp [Jwe.serialize, hcontent] at hwritten
  | some content =>
      cases hrecipient : t.compactRecipient with
      | error error => simp [Jwe.serialize, hcontent, serializeCompact, hrecipient] at hwritten
      | ok r =>
          have hr := (compactRecipient_eq_ok.1 hrecipient).1
          refine ⟨r, ?_⟩
          cases hown : r.header with
          | none => exact hown ▸ compacts_of_none hrecipient hown rfl hwritten
          | some own =>
              have hnonempty : Header.nonempty r.header = some own :=
                (h.nonempty r (by simp [hr])).trans hown
              have hheld : ∃ a contentKey, t.algorithm = some a ∧ t.contentKey = some contentKey := by
                cases ha : t.algorithm <;> cases hkey : t.contentKey <;>
                  simp [Jwe.serialize, hcontent, serializeCompact, hrecipient, hnonempty,
                    protectHeader, ha, hkey] at hwritten ⊢
              obtain ⟨a, contentKey, ha, hkey⟩ := hheld
              exact hown ▸ h.compacts ha hkey hr rfl hwritten

/-- Let a token be started or read and any calls be made on it, none of which is a failed
writing. What is written of it then in either form is read as the token that the writing
leaves: with the same headers and the text of the protected one, the same additional data,
which may be absent or empty, the same content, and the same recipients in the same order.
Only what a decryption has told is lost, with the options. -/
theorem deserialize_serialize_orderly {compact : Bool} (h : Orderly p t)
    (hwritten : t.serialize p rng compact = (.ok text, after))
    (hreadable : HeadersReadable after) :
    deserialize text = .ok {
      plaintext := none
      protectedHeader := after.protectedHeader
      protectedText := after.protectedText
      sharedHeader := after.sharedHeader
      aad := after.aad
      recipients := after.recipients
      content := after.content } := by
  have horderly : Orderly p after := by
    have hcalled : Orderly p (Call.after p t (.serialize rng compact)) :=
      .called h (by rw [Call.Completes, hwritten]; rfl)
    rwa [Call.after, hwritten] at hcalled
  cases compact with
  | true =>
      obtain ⟨r, hcompacts⟩ := h.held.exists_compacts hwritten
      obtain ⟨_, content, _, -, -, -, hcontent, -⟩ := compactText_eq_ok.1 hcompacts.written
      have hwritable := horderly.writable (by rw [hcontent]; rfl) hreadable
      exact hcompacts.compact.deserialize hwritable.text hcompacts.written
  | false =>
      have hsame : (t.serialize p rng false).2 = t := serialize_json
      rw [hwritten] at hsame
      obtain rfl : after = t := hsame
      cases hcontent : after.content with
      | none => simp [serialize, hcontent] at hwritten
      | some content =>
          have hwritable := horderly.writable (by rw [hcontent]; rfl) hreadable
          have hne := horderly.held.coherent.content.1 (by rw [hcontent]; rfl)
          simp only [serialize, hcontent, Bool.false_eq_true, if_false, Prod.mk.injEq,
            Except.ok.injEq, and_true] at hwritten
          rw [← hwritten, deserialize_jsonText hwritable hne hcontent, ← hcontent]
          rfl

/-! ### A token whose header is moved -/

/-- The token that holds the content key of its recipient is read again in compact form, with
the header of the recipient protected. -/
theorem direct_form_reread :
    ∃ t text after, Direct t {} ∧ t.serialize .standard zeros true = (.ok text, after) ∧
      deserialize text = .ok {
        plaintext := none
        protectedHeader := some directMerged
        protectedText := after.protectedText
        sharedHeader := none
        recipients := [{ directRecipient with header := none }]
        content := after.content } := by
  have h := direct_run {}
  obtain ⟨text, after, hwritten⟩ := h.exists_compact_form
  have hcompacts := h.orderly.held.compacts h.algorithm h.contentKey h.recipients h.parameters_eq
    hwritten
  have hcodable (levels : Nat) : directMerged.Codable levels :=
    ((Object.codable_empty.insert (Json.codable_str _)).union Object.codable_empty).union
      (Object.codable_empty.insert (Json.codable_str _))
  have hreadable : HeadersReadable after := by
    constructor
    · intro
      rw [hcompacts.compact.protectedHeader]
      exact hcodable _
    · rw [hcompacts.compact.shared]
      exact Object.codable_empty
    · rw [hcompacts.compact.recipients]
      simpa using Object.codable_empty
  have hread := deserialize_serialize_orderly h.orderly hwritten hreadable
  rw [hcompacts.compact.protectedHeader, hcompacts.compact.shared, hcompacts.compact.aad,
    hcompacts.compact.recipients] at hread
  exact ⟨_, text, after, h, hwritten, hread⟩

end SealedToken.Jwe
