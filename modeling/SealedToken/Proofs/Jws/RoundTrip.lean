import SealedToken.Proofs.Jws.Binding
import SealedToken.Proofs.Jws.Withdrawal

/-!
A token is read again as it was written, whatever was called on it before. Two facts about
its signatures carry this through the calls: the text of a protected header was read as the
header or written for it, and all signatures have the mode of the first. A call either marks
the signatures or adds one that has been compared with the first.
-/

namespace SealedToken.Jws

variable {p : Primitives} {t after : Jws} {payload : ByteArray}

/-! ### What a call leaves of the signatures -/

/-- The signatures after a call: those before it, but for their marks, or one more that was
made by the call and compared with the first. -/
inductive Keeps (p : Primitives) (t after : Jws) : Prop
  | marked (mark : SealedToken.Signature → SignatureState)
      (signatures : after.signatures = t.signatures.map fun s => { s with state := mark s })
  | added {payload : ByteArray} {c : SigningCall} {s : SealedToken.Signature}
      (made : Made p t.options payload c s) (sameMode : t.checkSameMode made.encoded = .ok ())
      (signatures : after.signatures = t.signatures ++ [s])

theorem Keeps.of_eq (h : after.signatures = t.signatures) : Keeps p t after :=
  .marked (·.state) (h.trans (List.map_id _).symm)

/-- A verification marks the signatures, if it comes to them. -/
theorem keeps_verify {keys : KeySource} {alg : Option String} {detached : Option ByteArray} :
    Keeps p t (t.verify p keys alg detached).2 := by
  cases hheld : (detached <|> t.held) with
  | none => exact .of_eq (by simp [verify, hheld])
  | some payload =>
      by_cases hs : t.signatures = []
      · exact .of_eq (by simp [verify, hheld, hs])
      · rw [verify_eq_verifyAll p keys alg hheld hs]
        exact .marked _ verifyAll_signatures

theorem keeps_after (c : Call) : Keeps p t (c.after p t) := by
  cases c with
  | addSignature rng key alg protectedHeader header =>
      rw [Call.after]
      split
      · next signed hsigned =>
          obtain ⟨payload, hheld⟩ := exists_held_of_addSignature hsigned
          obtain ⟨s, made, sameMode, rfl⟩ :=
            addSignature_made (c := ⟨rng, key, alg, protectedHeader, header⟩) hheld hsigned
          exact .added made sameMode rfl
      · exact .of_eq rfl
  | verify keys alg detached => exact keeps_verify
  | _ => exact .of_eq rfl

/-! ### What holds after any calls -/

/-- A token whose signatures have one mode, and the texts of their protected headers. -/
structure Coherent (t : Jws) : Prop where
  text : ∀ s ∈ t.signatures, Header.TextOf s.protectedText s.protectedHeader
  mode : ∀ s ∈ t.signatures, Signature.payloadEncoded s = t.encodesPayload

theorem modes_of_checkModes {first : SealedToken.Signature}
    {signatures : List SealedToken.Signature} (h : checkModes first signatures = .ok ()) :
    ∀ s ∈ signatures, Signature.payloadEncoded s = Signature.payloadEncoded first := by
  induction signatures with
  | nil => simp
  | cons s rest ih =>
      rw [checkModes] at h
      obtain ⟨mode, hmode, h⟩ := bind_eq_ok.1 h
      obtain ⟨mode', hfirst, h⟩ := bind_eq_ok.1 h
      split at h
      · next heq =>
          rw [List.forall_mem_cons]
          exact ⟨hmode.trans (heq ▸ hfirst.symm), ih h⟩
      · simp at h

theorem Begun.coherent (h : Begun t) : Coherent t := by
  cases h with
  | made payload => constructor <;> simp [ofPayload]
  | read h =>
      refine ⟨fun s hs => .read (decode_of_deserialize h hs), ?_⟩
      obtain ⟨held, signatures, -, hmodes, rfl⟩ := deserialize_eq_ok.1 h
      cases signatures with
      | nil => simp
      | cons first rest => exact modes_of_checkModes (hmodes first rest rfl)

theorem Coherent.keeps (h : Coherent t) (hkeeps : Keeps p t after) : Coherent after := by
  cases hkeeps with
  | marked mark signatures =>
      have hencodes : after.encodesPayload = t.encodesPayload := by
        rw [encodesPayload, signatures, encodesPayload]
        cases t.signatures <;> rfl
      constructor <;> rw [signatures] <;> intro s' hs' <;>
        obtain ⟨s, hs, rfl⟩ := List.mem_map.1 hs'
      · exact h.text s hs
      · exact hencodes ▸ h.mode s hs
  | added made sameMode signatures =>
      have hmode := mode_append h.mode made.ownMode sameMode
      constructor <;> rw [signatures]
      · refine List.forall_mem_append.2 ⟨h.text, List.forall_mem_singleton.2 ?_⟩
        rw [made.text]
        exact .written made.protects.nonempty
      · rwa [encodesPayload, signatures]

theorem Coherent.run (h : Coherent t) (calls : List Call) : Coherent (t.run p calls) := by
  induction calls generalizing t with
  | nil => exact h
  | cons c rest ih => exact ih (h.keeps (keeps_after c))

/-! ### Reading what was written -/

/-- A token whose headers are read as they are written. A protected header that was read is
not written anew, so it is not asked of. -/
structure HeadersReadable (t : Jws) : Prop where
  protectedHeader : ∀ s ∈ t.signatures, s.protectedText = Header.encode s.protectedHeader →
    (s.protectedHeader.getD .empty).Codable (Json.nestingLimit - 1)
  header : ∀ s ∈ t.signatures,
    (s.header.getD .empty).Codable (headerLevels t.signatures.length)

theorem Coherent.writable (h : Coherent t) (hreadable : HeadersReadable t) : Writable t where
  text s hs := (h.text s hs).decode_eq_ok (hreadable.protectedHeader s hs)
  own s hs := by
    refine ⟨by simp [Header.nonempty], ?_⟩
    rw [Header.getD_nonempty]
    exact hreadable.header s hs
  mode := h.mode

/-- Let a token be made of a payload or read, and any calls be made on it. What is written of
it in either form is read as a token with the same signatures in the same order: each has
the protected header and its text, the bytes and the unprotected header that it had, where
an empty one counts as absent. The payload is read as it was held. Only in the compact
form one that is transported separately is read as an empty one. -/
theorem deserialize_serialize_run {calls : List Call} {compact : Bool} {text : String}
    (hbegun : Begun t) (hwritten : (t.run p calls).serialize compact = .ok text)
    (hreadable : HeadersReadable (t.run p calls)) :
    deserialize text = .ok {
      held := if compact then some ((t.run p calls).held.getD .empty) else (t.run p calls).held
      trusted := false
      signatures := (t.run p calls).signatures.map fun s =>
        { s with header := Header.nonempty s.header, state := .signed } } :=
  deserialize_serialize ((hbegun.coherent.run calls).writable hreadable) hwritten

/-! ### A token that was read and signed once more -/

/-- The token without a key is verified, and signed a second time with an unprotected
header. -/
def signingCalls : List Call :=
  [.setOptions { allowed := some [SigningAlgorithm.unsecured.name] },
    .verify (.single emptySecret) none none,
    .addSignature (.ofSeed .empty) emptySecret (some SigningAlgorithm.unsecured.name) none
      (some (.ofMembers [("kid", .str "second")])), .detach]

/-- The second signature. -/
def secondSignature : SealedToken.Signature where
  protectedHeader := some (.ofMembers [("alg", .str SigningAlgorithm.unsecured.name)])
  protectedText := "eyJhbGciOiJub25lIn0"
  header := some (.ofMembers [("kid", .str "second")])
  bytes := .empty

/-- Both signatures are read again, the first without its mark, and no payload is. -/
theorem second_signature_reread :
    ∃ text, (unsecured.run .standard signingCalls).serialize false = .ok text ∧
      deserialize text = .ok {
        held := none
        trusted := false
        signatures := unsecured.signatures ++ [secondSignature] } := by
  have hwritten : ((unsecured.run .standard signingCalls).serialize false).isOk = true := by
    decide +kernel
  obtain ⟨text, hwritten⟩ := isOk_iff.1 hwritten
  have hafter : (unsecured.run .standard signingCalls).signatures =
      (unsecured.signatures.map fun s => { s with state := .valid }) ++ [secondSignature] := by
    decide +kernel
  have hnamed (levels : Nat) (name text : String) :
      (Object.ofMembers [(name, .str text)]).Codable levels :=
    Object.codable_empty.insert (Json.codable_str text)
  have hreadable : HeadersReadable (unsecured.run .standard signingCalls) := by
    constructor <;> rw [hafter] <;>
      simp only [unsecured, List.map_cons, List.map_nil, List.forall_mem_append,
        List.forall_mem_singleton]
    · exact ⟨fun _ => hnamed _ _ _, fun _ => hnamed _ _ _⟩
    · exact ⟨Object.codable_empty, hnamed _ _ _⟩
  have hread := deserialize_serialize_run (.read deserialize_unsecuredText) hwritten hreadable
  have hheld : (unsecured.run .standard signingCalls).held = none := by decide +kernel
  rw [hafter, hheld] at hread
  exact ⟨text, hwritten, hread⟩

end SealedToken.Jws
