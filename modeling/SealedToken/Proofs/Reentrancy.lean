import SealedToken.Proofs.Jwe.Invariant
import SealedToken.Proofs.Jwe.Release
import SealedToken.Proofs.Jws.Release

/-!
Verifications and decryptions in a row. A later one does what it would have done on the token
as it was before all earlier ones: the marks, the log and the payload or plaintext that these
have left are replaced, and nothing that is looked at on the way has been changed by them. So a
token can be tried with one key after the other, and trying again changes nothing.

All that a verification adds can be taken away again (`Jws.unverified`), and a verification is
the same without it; a decryption in the same way (`Jwe.undecrypted`). What a decryption that
fails leaves behind of an earlier success is the content key, which it does not look at.
-/

namespace SealedToken

variable {p : Primitives}

/-! ### Verifications -/

namespace Jws

variable {t : Jws} {keys first : KeySource} {alg other : Option String} {payload : ByteArray}

@[simp] theorem unverified_verify :
    (t.verify p keys alg none).2.unverified = t.unverified :=
  verify_unverified rfl

/-- Marks and log of a token have no part in its verification. -/
theorem verify_eq_unverified (hheld : t.held = some payload) (hsigned : t.signatures ≠ []) :
    t.verify p keys alg none = t.unverified.verifyAll p payload keys alg := by
  rw [verify_eq_verifyAll p keys alg (by simpa using hheld) hsigned]
  simp only [verifyAll, unverified, List.map_map, List.zip_map_left, hheld]
  rfl

/-- A verification does not notice that there was another one before. -/
theorem verify_verify :
    (t.verify p first other none).2.verify p keys alg none = t.verify p keys alg none := by
  cases hheld : t.held with
  | none => simp [verify, hheld]
  | some payload =>
      by_cases hsigned : t.signatures = []
      · simp [verify, hheld, hsigned]
      · have hkept : (t.verify p first other none).2.unverified = t.unverified := unverified_verify
        have hheld' : (t.verify p first other none).2.held = some payload :=
          (congrArg Jws.held hkept).trans hheld
        have hsigned' : (t.verify p first other none).2.signatures ≠ [] := by
          intro hnil
          have hsignatures := congrArg Jws.signatures hkept
          simp only [unverified, hnil, List.map_nil] at hsignatures
          exact hsigned (List.map_eq_nil_iff.1 hsignatures.symm)
        rw [verify_eq_unverified hheld' hsigned', hkept, verify_eq_unverified hheld hsigned]

/-- What is written of a token does not tell whether it was verified. -/
theorem serialize_unverified {compact : Bool} :
    t.unverified.serialize compact = t.serialize compact := by
  obtain ⟨held, trusted, signatures, options, log⟩ := t
  -- the forms are for no signature, for one and for many
  match signatures with
  | [] => rfl
  | [s] => rfl
  | s :: s' :: rest =>
      simp only [serialize, compactText, jsonText, unverified, List.map_cons, List.map_map,
        List.length_cons, List.length_map]
      rfl

theorem serialize_verify {compact : Bool} :
    (t.verify p keys alg none).2.serialize compact = t.serialize compact := by
  rw [← serialize_unverified, unverified_verify, serialize_unverified]

/-- Calls that verify the payload which a token carries. -/
def verifications (attempts : List (KeySource × Option String)) : List Call :=
  attempts.map fun attempt => .verify attempt.1 attempt.2 none

theorem verify_run {attempts : List (KeySource × Option String)} :
    (t.run p (verifications attempts)).verify p keys alg none = t.verify p keys alg none := by
  induction attempts generalizing t with
  | nil => rfl
  | cons attempt rest ih => exact ih.trans verify_verify

theorem serialize_run {attempts : List (KeySource × Option String)} {compact : Bool} :
    (t.run p (verifications attempts)).serialize compact = t.serialize compact := by
  induction attempts generalizing t with
  | nil => rfl
  | cons attempt rest ih => exact ih.trans serialize_verify

end Jws

/-! ### Decryptions -/

namespace Jwe

variable {t other : Jwe} {supply : Recipient → Jwk → Entropy} {keys : KeySource}

@[simp] theorem undecrypted_decrypt :
    (t.decrypt p supply keys).2.undecrypted = t.undecrypted :=
  decrypt_undecrypted rfl

/-- What a decryption has found before has no part in what is opened. -/
theorem openFirst_undecrypted {content : EncryptedContent} {failure : Option Error}
    {log : List FailedAttempt} {rs : List Recipient} :
    t.undecrypted.openFirst p supply content keys failure log rs =
      t.openFirst p supply content keys failure log rs := by
  induction rs generalizing failure log with
  | nil => rfl
  | cons r rest ih =>
      simp only [openFirst, ih]
      rfl

/-- Two decryptions that tell the same, and leave the same token but for the content key: one
that fails leaves the key that was held before. -/
structure SameDecryption (first second : Except Error Unit × Jwe) : Prop where
  outcome : first.1 = second.1
  plaintext : first.2.plaintext = second.2.plaintext
  log : first.2.log = second.2.log
  kept : first.2.undecrypted = second.2.undecrypted
  key : second.1 = .ok () → first.2 = second.2

/-- A decryption is the same for tokens that only differ in what a decryption adds. -/
theorem sameDecryption_of_undecrypted (h : t.undecrypted = other.undecrypted) :
    SameDecryption (t.decrypt p supply keys) (other.decrypt p supply keys) := by
  have hcontent : t.undecrypted.content = other.undecrypted.content := by rw [h]
  have hrecipients : t.undecrypted.recipients = other.undecrypted.recipients := by rw [h]
  have hkept : (t.decrypt p supply keys).2.undecrypted =
      (other.decrypt p supply keys).2.undecrypted := by
    rw [undecrypted_decrypt, undecrypted_decrypt, h]
  cases hheld : other.content with
  | none =>
      have hnone : t.content = none := hcontent.trans hheld
      refine ⟨?_, ?_, ?_, hkept, ?_⟩ <;> simp [decrypt, hnone, hheld]
  | some content =>
      have hsome : t.content = some content := hcontent.trans hheld
      have hopen : t.openFirst p supply content keys none [] t.recipients =
          other.openFirst p supply content keys none [] other.recipients := by
        rw [← openFirst_undecrypted, h, openFirst_undecrypted]
        exact congrArg _ hrecipients
      cases hother : other.openFirst p supply content keys none [] other.recipients with
      | mk outcome log =>
          rw [hother] at hopen
          cases outcome with
          | error error =>
              rw [decrypt_of_openFirst_error hsome hopen,
                decrypt_of_openFirst_error hheld hother] at hkept ⊢
              exact ⟨rfl, rfl, rfl, hkept, by simp⟩
          | ok opened =>
              rw [decrypt_eq_ok.2 ⟨content, opened, log, hsome, hopen, rfl⟩,
                decrypt_eq_ok.2 ⟨content, opened, log, hheld, hother, rfl⟩] at hkept ⊢
              refine ⟨rfl, rfl, rfl, hkept, fun _ => ?_⟩
              -- with the key of this decryption nothing is left to differ in
              exact congrArg (fun s : Jwe => { s with
                plaintext := some opened.plaintext
                algorithm := some opened.algorithm
                contentKey := some opened.contentKey
                log }) h

/-- A decryption that is made twice leaves what it leaves when it is made once, the content key
included. -/
theorem decrypt_decrypt :
    (t.decrypt p supply keys).2.decrypt p supply keys = t.decrypt p supply keys := by
  rcases hfirst : t.decrypt p supply keys with ⟨outcome, after⟩
  rcases hsecond : after.decrypt p supply keys with ⟨outcome', after'⟩
  have same : SameDecryption (outcome', after') (outcome, after) := by
    rw [← hfirst, ← hsecond]
    exact sameDecryption_of_undecrypted (decrypt_undecrypted hfirst)
  obtain rfl : outcome' = outcome := same.outcome
  cases outcome' with
  | ok _ => exact congrArg _ (same.key rfl)
  | error error =>
      -- the second one fails too, and a failure only leaves its log
      obtain ⟨log, rfl⟩ := decrypt_eq_error hfirst
      obtain ⟨log', rfl⟩ := decrypt_eq_error hsecond
      obtain rfl : log' = log := same.log
      rfl

/-- What is written of a token in its JSON form does not tell whether it was decrypted. -/
theorem serialize_undecrypted {rng : Entropy} :
    (t.undecrypted.serialize p rng false).1 = (t.serialize p rng false).1 := by
  cases h : t.content with
  | none => simp only [serialize, undecrypted, h]
  | some content =>
      simp only [serialize, undecrypted, h]
      rfl

/-- Calls that decrypt a token. -/
def decryptions (attempts : List ((Recipient → Jwk → Entropy) × KeySource)) : List Call :=
  attempts.map fun attempt => .decrypt attempt.1 attempt.2

@[simp] theorem undecrypted_run {attempts : List ((Recipient → Jwk → Entropy) × KeySource)} :
    (t.run p (decryptions attempts)).undecrypted = t.undecrypted := by
  induction attempts generalizing t with
  | nil => rfl
  | cons attempt rest ih => exact ih.trans undecrypted_decrypt

end Jwe

/-! ### Both kinds of token -/

/-- Whatever was tried before on a token, and whether or not it succeeded: a verification and a
decryption tell what they tell when they come first, and nothing that is written changes. To try
the same again changes nothing. -/
theorem earlier_attempts_forgotten :
    (∀ (t : Jws) (attempts : List (KeySource × Option String)) (keys : KeySource)
        (alg : Option String),
      (t.run p (Jws.verifications attempts)).verify p keys alg none = t.verify p keys alg none ∧
      (t.verify p keys alg none).2.verify p keys alg none = t.verify p keys alg none ∧
      ∀ compact,
        (t.run p (Jws.verifications attempts)).serialize compact = t.serialize compact ∧
        ((t.run p (Jws.verifications attempts)).verify p keys alg none).2.serialize compact =
          t.serialize compact) ∧
    ∀ (t : Jwe) (attempts : List ((Recipient → Jwk → Entropy) × KeySource))
        (supply : Recipient → Jwk → Entropy) (keys : KeySource),
      Jwe.SameDecryption ((t.run p (Jwe.decryptions attempts)).decrypt p supply keys)
        (t.decrypt p supply keys) ∧
      (t.decrypt p supply keys).2.decrypt p supply keys = t.decrypt p supply keys ∧
      ∀ rng,
        (((t.run p (Jwe.decryptions attempts)).decrypt p supply keys).2.serialize p rng false).1 =
          (t.serialize p rng false).1 := by
  refine ⟨fun t attempts keys alg => ?_, fun t attempts supply keys => ?_⟩
  · refine ⟨Jws.verify_run, Jws.verify_verify, fun compact => ⟨Jws.serialize_run, ?_⟩⟩
    rw [Jws.serialize_verify, Jws.serialize_run]
  · refine ⟨Jwe.sameDecryption_of_undecrypted Jwe.undecrypted_run, Jwe.decrypt_decrypt,
      fun rng => ?_⟩
    rw [← Jwe.serialize_undecrypted, Jwe.undecrypted_decrypt, Jwe.undecrypted_run,
      Jwe.serialize_undecrypted]

end SealedToken
