import SealedToken.Proofs.Jwe.Sharing

/-!
What a failed writing of a token leaves behind. Mostly that is the token as it was. A
compact form that fails after the header of the recipient has been moved leaves that
header moved, while the content is still encrypted under the old one.
-/

namespace SealedToken.Jwe

variable {p : Primitives} {rng : Entropy} {t after : Jwe} {r : Recipient} {error : Error}
  {compact : Bool}

/-- A token that was started or read, after any calls. -/
inductive Reachable (p : Primitives) : Jwe → Prop
  | started (plaintext : ByteArray) (protectedHeader sharedHeader : Option Object)
      (calls : List Call) :
      Reachable p ((ofPlaintext plaintext protectedHeader sharedHeader).run p calls)
  | read {raw : String} {t : Jwe} (h : deserialize raw = .ok t) (calls : List Call) :
      Reachable p (t.run p calls)

theorem Reachable.coherent (h : Reachable p t) : Coherent t := by
  cases h with
  | started plaintext protectedHeader sharedHeader calls => exact coherent_ofPlaintext.run calls
  | read h calls => exact (coherent_of_deserialize h).run calls

/-! ### Why it fails behind the move -/

/-- Why the compact form fails when the header of the recipient has been moved. -/
inductive MoveFault (t : Jwe) (r : Recipient) : Error → Prop
  /-- A name is in the protected header and in that of the recipient. -/
  | nameTwice (name : String)
      (inProtected : (t.protectedHeader.getD .empty).contains name = true)
      (inOwn : (r.header.getD .empty).contains name = true) :
      MoveFault t r (.duplicateHeader name)
  /-- A decryption has failed before, so nothing is held that could be encrypted. -/
  | noPlaintext (once : t.nameTwice r = none) (dropped : t.plaintext = none) :
      MoveFault t r (.invalidOperation .noPlaintext)
  /-- The header of the recipient asks for a compression that there is not. -/
  | compression {error : Error} (once : t.nameTwice r = none)
      (inOwn : (r.header.getD .empty).contains "zip" = true)
      (refused : compresses (t.moved r).protectedHeader = .error error) : MoveFault t r error

theorem sealContent_eq_error {a : ContentEncryptionAlgorithm} {contentKey : ByteArray}
    (hsize : contentKey.size = a.keyBytes) (h : t.sealContent p rng a contentKey = .error error) :
    t.plaintext = none ∧ error = .invalidOperation .noPlaintext ∨
      compresses t.protectedHeader = .error error := by
  cases hplaintext : t.plaintext with
  | none =>
      rw [sealContent, hplaintext] at h
      exact .inl ⟨rfl, (Except.error.inj h).symm⟩
  | some plaintext =>
      cases hcompressed : compresses t.protectedHeader with
      | error error' =>
          simp only [sealContent, hplaintext, hcompressed, error_bind, Except.error.injEq] at h
          exact .inr (congrArg _ h)
      | ok compressed =>
          have hsealed : ∃ after, t.sealContent p rng a contentKey = .ok after :=
            exists_sealContent (by simp [hplaintext]) (by simp [hcompressed]) hsize
          obtain ⟨after, hafter⟩ := hsealed
          simp [hafter] at h

/-- An absent header asks for no compression, as an empty one. -/
theorem compresses_getD {header : Option Object} :
    compresses (some (header.getD .empty)) = compresses header := by
  cases header <;> rfl

/-- Only one parameter says how to compress. -/
theorem compresses_congr {one other : Option Object}
    (h : (one.getD .empty).find? "zip" = (other.getD .empty).find? "zip") :
    compresses one = compresses other := by
  rw [← compresses_getD, ← @compresses_getD other]
  simp only [compresses, Header.text?, h]

/-- Without a shared header the parameters of the recipient become protected. -/
theorem protectedHeader_moved (hshared : t.sharedHeader = none) (honce : t.nameTwice r = none) :
    (t.moved r).protectedHeader = some (t.parameters r.header) := by
  rw [moved, (moveMembers_eq_none honce).2, parameters, common, hshared, Option.getD_none,
    Object.union_empty]

/-- A header that does not ask for compression may be moved. -/
theorem compresses_moved (honce : t.nameTwice r = none)
    (hzip : (r.header.getD .empty).contains "zip" = false) :
    compresses (t.moved r).protectedHeader = compresses t.protectedHeader := by
  apply compresses_congr
  rw [moved, Option.getD_some, (moveMembers_eq_none honce).2, Object.find?_union,
    Object.contains_eq_false_iff.1 hzip, Option.none_or]

/-- A token for one recipient can be written when its protected header names both
algorithms. -/
theorem isOk_compactText {header : Object} (hcontent : t.content.isSome = true)
    (hr : t.recipients = [r]) (hprotected : t.protectedHeader = some header)
    (halg : header.contains "alg" = true) (henc : header.contains "enc" = true) :
    t.compactText.isOk = true := by
  obtain ⟨content, hcontent⟩ := Option.isSome_iff_exists.1 hcontent
  rw [compactText, hprotected, hcontent, hr]
  simp [halg, henc]

section Moves

variable {a : ContentEncryptionAlgorithm} {contentKey : ByteArray}

/-- The move protects the names of both algorithms. -/
theorem Coherent.protectedHeader_moved (ht : Coherent t) (moves : Moves t r a contentKey)
    (honce : t.nameTwice r = none) :
    ∃ header, (t.moved r).protectedHeader = some header ∧ header.contains "alg" = true ∧
      header.contains "enc" = true := by
  obtain ⟨hr, -, hshared⟩ := compactRecipient_eq_ok.1 moves.recipient
  have hcomplete := ht.complete r hr moves.header (by simp [moves.contentKey])
  exact ⟨_, Jwe.protectedHeader_moved hshared honce, hcomplete.alg, hcomplete.enc⟩

theorem isOk_compactText_moved (ht : Coherent t) (moves : Moves t r a contentKey)
    (honce : t.nameTwice r = none) : (t.moved r).compactText.isOk = true := by
  obtain ⟨header, hprotected, halg, henc⟩ := ht.protectedHeader_moved moves honce
  exact isOk_compactText moves.content rfl hprotected halg henc

theorem isOk_compactText_of_sealed (ht : Coherent t) (moves : Moves t r a contentKey)
    (honce : t.nameTwice r = none)
    (hsealed : (t.moved r).sealContent p rng a contentKey = .ok after) :
    after.compactText.isOk = true := by
  obtain ⟨header, hprotected, halg, henc⟩ := ht.protectedHeader_moved moves honce
  obtain ⟨_, _, _, _, _, _, rfl⟩ := sealContent_eq_ok.1 hsealed
  exact isOk_compactText rfl rfl hprotected halg henc

/-- What a failure behind the move leaves. -/
structure LeavesMoved (p : Primitives) (t : Jwe) (r : Recipient) (error : Error) (after : Jwe) :
    Prop where
  fault : MoveFault t r error
  /-- The header has been moved, and nothing else has changed. -/
  moved : after = t.moved r
  /-- From then on the compact form is written as the token stands. -/
  settled : ∀ rng, after.serialize p rng true = (after.compactText, after)
  /-- Unless a name was in both headers, that gives a token. -/
  written : t.nameTwice r = none → after.compactText.isOk = true

/-- Once the header has been moved, writing the token again leaves it alone. -/
theorem serialize_moved (moves : Moves t r a contentKey) :
    (t.moved r).serialize p rng true = ((t.moved r).compactText, t.moved r) := by
  obtain ⟨-, haad, hshared⟩ := compactRecipient_eq_ok.1 moves.recipient
  obtain ⟨content, hcontent⟩ := Option.isSome_iff_exists.1 moves.content
  have hcontent : (t.moved r).content = some content := hcontent
  have hr : (t.moved r).compactRecipient = .ok { r with header := none } :=
    compactRecipient_eq_ok.2 ⟨rfl, haad, hshared⟩
  rw [serialize, hcontent]
  dsimp only
  rw [if_pos rfl, serializeCompact, hr]
  rfl

/-- How the writing of a coherent token fails once its header is moved. -/
theorem leavesMoved_of_moves (ht : Coherent t) (moves : Moves t r a contentKey)
    (h : t.serialize p rng true = (.error error, after)) : LeavesMoved p t r error after := by
  rw [serialize_of_moves moves] at h
  cases htwice : t.nameTwice r with
  | some name =>
      rw [htwice] at h
      obtain ⟨herror, rfl⟩ := Prod.mk.inj h
      obtain rfl := Except.error.inj herror
      obtain ⟨hprotected, hown⟩ := moveMembers_eq_some htwice
      exact ⟨.nameTwice name hprotected hown, rfl, fun _ => serialize_moved moves,
        by simp [htwice]⟩
  | none =>
      rw [htwice] at h
      cases hsealed : (t.moved r).sealContent p rng a contentKey with
      | ok sealed =>
          rw [hsealed] at h
          have hwritten := isOk_compactText_of_sealed ht moves htwice hsealed
          simp [(Prod.mk.inj h).1] at hwritten
      | error error' =>
          rw [hsealed] at h
          obtain ⟨herror, rfl⟩ := Prod.mk.inj h
          obtain rfl := Except.error.inj herror
          refine ⟨?_, rfl, fun _ => serialize_moved moves,
            fun _ => isOk_compactText_moved ht moves htwice⟩
          have hsize := ht.size a contentKey moves.algorithm moves.contentKey
          rcases sealContent_eq_error hsize hsealed with ⟨hdropped, rfl⟩ | hrefused
          · exact .noPlaintext htwice hdropped
          · refine .compression htwice ?_ hrefused
            -- the protected header was in order before
            by_contra hzip
            have hcomplete := ht.complete r (compactRecipient_eq_ok.1 moves.recipient).1
              moves.header (by simp [moves.contentKey])
            have hcompresses := hcomplete.compresses
            rw [← compresses_moved htwice (by simpa using hzip), hrefused] at hcompresses
            simp at hcompresses

end Moves

/-! ### What it leaves -/

/-- There is no fault in moving a header that can be merged, while the plaintext is held
and compression has to be protected. -/
theorem not_moveFault (hplaintext : t.plaintext.isSome = true)
    (hprotect : t.options.registry.mustProtect "zip" = true) (hr : t.recipients = [r])
    (hheader : (t.headerAt 0).isOk = true) : ¬ MoveFault t r error := by
  obtain ⟨header, hmerged⟩ := isOk_iff.1 hheader
  have hmerged : t.merged r.header = .ok header := by simpa [headerAt, hr] using hmerged
  have hadmits := (merged_eq_ok.1 hmerged).2.1
  intro hfault
  cases hfault with
  | nameTwice name inProtected inOwn =>
      have hnew := (hadmits name inOwn).2
      rw [common, Object.contains_union, inProtected, Bool.true_or] at hnew
      simp at hnew
  | noPlaintext once dropped => simp [dropped] at hplaintext
  | compression once inOwn refused =>
      have hopen := (hadmits "zip" inOwn).1
      simp [hprotect] at hopen

/-- What a failed writing of a token leaves. -/
structure Leaves (p : Primitives) (t : Jwe) (compact : Bool) (error : Error) (after : Jwe) :
    Prop where
  /-- The token as it was, if there is no header to be moved. -/
  kept : (compact = true → ¬ ∃ r a contentKey, Moves t r a contentKey) → after = t
  /-- Otherwise the token with that header moved. -/
  moved : compact = true → ∀ r a contentKey, Moves t r a contentKey → LeavesMoved p t r error after
  /-- It does not come to that while the header can be merged and the plaintext is held. -/
  sound : t.plaintext.isSome = true → t.options.registry.mustProtect "zip" = true →
    (t.headerAt 0).isOk = true → after = t

/-- Let a token be started or read and any calls be made on it, and let it not be written
then. It stays as it was unless the compact form was asked for and the header of its
recipient had to be moved for that. Then the header is moved for good. -/
theorem failed_serialization_leaves (ht : Reachable p t)
    (h : t.serialize p rng compact = (.error error, after)) : Leaves p t compact error after := by
  have hkept (hnot : compact = true → ¬ ∃ r a contentKey, Moves t r a contentKey) : after = t := by
    obtain rfl : (t.serialize p rng compact).2 = after := by rw [h]
    cases compact with
    | false => exact serialize_json
    | true => exact serialize_of_not_moves (hnot rfl)
  have hmoved (hcompact : compact = true) (r a contentKey) (moves : Moves t r a contentKey) :
      LeavesMoved p t r error after :=
    leavesMoved_of_moves ht.coherent moves (hcompact ▸ h)
  refine ⟨hkept, hmoved, fun hplaintext hprotect hheader => hkept fun hcompact hmoves => ?_⟩
  obtain ⟨r, a, contentKey, moves⟩ := hmoves
  have hone := (compactRecipient_eq_ok.1 moves.recipient).1
  exact not_moveFault hplaintext hprotect hone hheader (hmoved hcompact r a contentKey moves).fault

/-! ### A header that is moved in vain -/

/-- Without a plaintext the header is moved in vain. -/
theorem serialize_noPlaintext {a : ContentEncryptionAlgorithm} {contentKey : ByteArray}
    (moves : Moves t r a contentKey) (honce : t.nameTwice r = none)
    (hdropped : t.plaintext = none) :
    t.serialize p rng true = (.error (.invalidOperation .noPlaintext), t.moved r) := by
  rw [serialize_of_moves moves, honce]
  dsimp only
  rw [sealContent, moved, hdropped]

/-- No decryption succeeds without a key. -/
theorem decrypt_noKeys {supply : Recipient → Jwk → Entropy} :
    ∃ error log, t.decrypt p supply (.anyOf ⟨[]⟩) =
      (.error error, { t with plaintext := none, log }) := by
  cases hdecrypt : t.decrypt p supply (.anyOf ⟨[]⟩) with
  | mk outcome after =>
      cases outcome with
      | error error =>
          obtain ⟨log, rfl⟩ := decrypt_eq_error hdecrypt
          exact ⟨error, log, rfl⟩
      | ok _ =>
          obtain ⟨content, opened, log, hcontent, hopen, rfl⟩ := decrypt_eq_ok.1 hdecrypt
          obtain ⟨r, hr, checked, offered, hoffered, -⟩ := opens_of_openFirst (by rw [hopen])
          -- an empty set offers nothing, whatever identifier the recipient has
          cases hkid : checked.kid <;>
            simp [hkid, KeySource.candidates, KeySource.offered] at hoffered

/-- A decryption that fails after a recipient has been added. -/
def droppedCalls : List Call :=
  [.addRecipient zeros zeroKey (some directHeader), .decrypt (fun _ _ => zeros) (.anyOf ⟨[]⟩)]

def dropped : Jwe := unshared.run .standard droppedCalls

theorem exists_dropped :
    ∃ r, Moves dropped r (.gcm .aes128) (Bytes.zeros 16) ∧ dropped.nameTwice r = none ∧
      dropped.plaintext = none ∧ dropped.protectedHeader = unshared.protectedHeader := by
  obtain ⟨added, -, hcontent, halgorithm, hcontentKey, hheader⟩ := exists_directAdded
  have hadd : unshared.addRecipient .standard zeros zeroKey (some directHeader) = .ok added.after :=
    addRecipient_iff.2 ⟨added, rfl⟩
  obtain ⟨error, log, hdecrypt⟩ := @decrypt_noKeys .standard added.after fun _ _ => zeros
  have hdropped : dropped = { added.after with plaintext := none, log } := by
    rw [dropped, run, droppedCalls, List.foldl_cons, List.foldl_cons, List.foldl_nil]
    simp only [Call.after, hadd, hdecrypt]
  have hr : added.after.compactRecipient = .ok added.recipient :=
    compactRecipient_eq_ok.2 ⟨added.recipients_eq, added.aad_eq, added.sharedHeader_eq⟩
  have honce : added.after.nameTwice added.recipient = none := by
    rw [nameTwice, added.protectedHeader_eq, hheader]
    decide +kernel
  rw [hdropped]
  refine ⟨added.recipient, ⟨hcontent, hr, ?_, halgorithm, hcontentKey⟩, honce, rfl,
    added.protectedHeader_eq⟩
  rw [hheader]
  decide +kernel

theorem reachable_dropped : Reachable .standard dropped := .started _ _ _ droppedCalls

theorem dropped_serialization_leaves :
    ∃ after, dropped.serialize .standard zeros true =
        (.error (.invalidOperation .noPlaintext), after) ∧
      Leaves .standard dropped true (.invalidOperation .noPlaintext) after := by
  obtain ⟨r, moves, once, hnone, -⟩ := exists_dropped
  have hfailed : dropped.serialize .standard zeros true =
      (.error (.invalidOperation .noPlaintext), dropped.moved r) :=
    serialize_noPlaintext moves once hnone
  exact ⟨_, hfailed, failed_serialization_leaves reachable_dropped hfailed⟩

/-- The header is protected after the failure, and the next attempt gives a token. -/
theorem failure_moves_header :
    ∃ after, dropped.serialize .standard zeros true =
        (.error (.invalidOperation .noPlaintext), after) ∧
      after.protectedHeader ≠ dropped.protectedHeader ∧
      (after.serialize .standard zeros true).1.isOk = true := by
  obtain ⟨r, moves, once, hnone, hprotected⟩ := exists_dropped
  have hcoherent := reachable_dropped.coherent
  refine ⟨_, serialize_noPlaintext moves once hnone, ?_, ?_⟩
  · obtain ⟨header, hmoved, halg, -⟩ := hcoherent.protectedHeader_moved moves once
    intro hsame
    obtain rfl := Option.some.inj (hmoved.symm.trans (hsame.trans hprotected))
    revert halg
    decide +kernel
  · rw [serialize_moved moves]
    exact isOk_compactText_moved hcoherent moves once

end SealedToken.Jwe
