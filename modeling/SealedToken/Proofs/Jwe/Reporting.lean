import SealedToken.Proofs.Jwe.AnyRecipient
import SealedToken.Proofs.Jwe.Failure
import SealedToken.Proofs.Jwe.Serialization
import SealedToken.Proofs.Jws.Reporting

/-!
What a decryption that fails reports. The walk through the recipients keeps the choice among
the errors so far and the log so far, so at its end they tell of all that was missed.
-/

namespace SealedToken.Jwe

variable {p : Primitives} {supply : Recipient → Jwk → Entropy} {t after : Jwe}
  {content : EncryptedContent} {keys other : KeySource} {r : Recipient} {error : Error}

/-! ### One recipient -/

/-- What fails of a recipient. -/
def misses (p : Primitives) (supply : Recipient → Jwk → Entropy) (t : Jwe)
    (content : EncryptedContent) (keys : KeySource) (r : Recipient) : List Miss :=
  Miss.ofEntry (t.prepare keys r) fun pending =>
    Miss.ofKeys (t.attempt p supply content r pending) pending.algorithmNames pending.keys

theorem sound_of_mem_misses {miss : Miss} (h : miss ∈ misses p supply t content keys r) :
    miss.Sound :=
  Miss.sound_of_mem_ofEntry preliminary_prepare (fun _ _ => Miss.sound_of_mem_ofKeys) h

/-- The order of the keys has no part in what the checks of a header give. -/
theorem sameOutcome_prepare (hkeys : keys.Permutes other) :
    SameOutcome (fun one two => ∃ keys, one.keys.Perm keys ∧ two = { one with keys })
      (t.prepare keys r) (t.prepare other r) := by
  refine .bind_common _ fun header => .bind_common _ fun algorithms => ?_
  refine .bind_common _ fun compressed => .bind_common _ fun kid => ?_
  exact hkeys.candidates.bind fun one two h => .ok ⟨two, h, rfl⟩

/-- In another order of the keys the same keys fail, with the same errors. -/
theorem misses_perm (hkeys : keys.Permutes other) :
    (misses p supply t content keys r).Perm (misses p supply t content other r) := by
  refine Miss.ofEntry_perm (sameOutcome_prepare hkeys) ?_
  rintro one _ ⟨offered, hperm, rfl⟩
  exact hperm.filterMap _

section Plain

variable (hplain : ¬ Compressed t)
include hplain

/-- What is told of a recipient through which the content is not opened. -/
theorem tells_misses {more : List FailedAttempt}
    (h : t.openFor p supply content keys r = (.error error, more)) :
    Tells (misses p supply t content keys r) (some error) more := by
  unfold misses
  unfold openFor at h
  cases hprepare : t.prepare keys r with
  | error early =>
      simp only [hprepare, Prod.mk.injEq, Except.error.injEq] at h
      obtain ⟨rfl, rfl⟩ := h
      exact tells_untried
  | ok pending =>
      obtain ⟨checked, hoffered, rfl⟩ := (prepare_eq_ok hplain).1 hprepare
      simp only [hprepare] at h
      split at h
      · -- nothing has to be expanded, so a key that suits is a success
        simp [expand, Checked.pending, Except.map] at h
      · next hnone =>
          obtain ⟨herror, rfl⟩ := Prod.mk.inj h
          obtain rfl := Except.error.inj herror
          exact tells_ofKeys hoffered hnone

/-! ### All recipients -/

/-- The walk ends with what is told of the recipients that it began with and of all that it has
gone past. -/
theorem tells_openFirst {rs : List Recipient} {failure : Option Error}
    {before : List Miss} {log after : List FailedAttempt} (hbefore : Tells before failure log)
    (hsome : failure = none → rs ≠ [])
    (h : t.openFirst p supply content keys failure log rs = (.error error, after)) :
    Tells (before ++ rs.flatMap (misses p supply t content keys)) (some error) after := by
  induction rs generalizing failure before log with
  | nil =>
      cases failure with
      | none => exact absurd rfl (hsome rfl)
      | some told =>
          obtain ⟨herror, rfl⟩ := Prod.mk.inj h
          obtain rfl := Except.error.inj herror
          simpa using hbefore
  | cons r rest ih =>
      rw [openFirst] at h
      split at h
      · simp at h
      · next limit more hopen =>
          have hearly := early_openFor hplain _ (congrArg Prod.fst hopen)
          simp [Error.isLate] at hearly
      · next e more _ hopen =>
          have hstep := hbefore.append (tells_misses hplain hopen)
          obtain ⟨told, htold⟩ : ∃ told, Error.mostRelevant failure e = some told :=
            Error.exists_mostRelevant
          have hrest := ih hstep (by simp [htold]) h
          rwa [List.append_assoc, ← List.flatMap_cons] at hrest

/-- What is told of a token when its decryption fails. -/
theorem tells_decrypt (hcontent : t.content = some content) (hrecipients : t.recipients ≠ [])
    (h : t.decrypt p supply keys = (.error error, after)) :
    Tells (t.recipients.flatMap (misses p supply t content keys)) (some error) after.log := by
  cases hopen : t.openFirst p supply content keys none [] t.recipients with
  | mk outcome log =>
      cases outcome with
      | ok opened =>
          have hok := decrypt_eq_ok.2 ⟨content, opened, log, hcontent, hopen, rfl⟩
          simp [h] at hok
      | error e =>
          rw [decrypt_of_openFirst_error hcontent hopen] at h
          obtain ⟨herror, rfl⟩ := Prod.mk.inj h
          obtain rfl := Except.error.inj herror
          exact tells_openFirst hplain tells_nil (fun _ => hrecipients) hopen

end Plain

/-- How the failure of a decryption is reported. -/
structure ReportsFailure (p : Primitives) (supply : Recipient → Jwk → Entropy) (t : Jwe)
    (content : EncryptedContent) (keys : KeySource) (error : Error) (after : Jwe) : Prop where
  /-- The report tells of all that has failed, recipient by recipient. -/
  reports : Reports (t.recipients.flatMap (misses p supply t content keys)) error after.log
  /-- In any other order of the recipients and of the keys the decryption fails as well, with an
  error of the same rank. -/
  reordered : ∀ recipients other, t.recipients.Perm recipients → keys.Permutes other →
    ∃ error' after', { t with recipients }.decrypt p supply other = (.error error', after') ∧
      error'.rank = error.rank

theorem reportsFailure_of_decrypt (hcontent : t.content = some content)
    (hrecipients : t.recipients ≠ []) (hplain : ¬ Compressed t)
    (h : t.decrypt p supply keys = (.error error, after)) :
    ReportsFailure p supply t content keys error after := by
  have htells := tells_decrypt hplain hcontent hrecipients h
  refine ⟨htells.reports fun miss hmiss => ?_, fun recipients other hperm hkeys => ?_⟩
  · obtain ⟨r, -, hmiss⟩ := List.mem_flatMap.1 hmiss
    exact sound_of_mem_misses hmiss
  · have hrecipients' : recipients ≠ [] := fun hnil => hrecipients (List.perm_nil.1 (hnil ▸ hperm))
    have hfails : ({ t with recipients }.decrypt p supply other).1 ≠ .ok () := by
      rw [Ne, isOk_decrypt (t := { t with recipients }) hplain hcontent]
      rintro ⟨r, hr, hopenable⟩
      have hown := ((openable_recipients hplain).1 hopenable).extends hkeys.extends
      have hok := (isOk_decrypt hplain hcontent).2 ⟨r, hperm.mem_iff.2 hr, hown⟩
      simp [h] at hok
    obtain ⟨error', after', hdecrypt⟩ := exists_error_of_fst hfails
    have htells' := tells_decrypt (t := { t with recipients }) hplain hcontent hrecipients' hdecrypt
    exact ⟨error', after', hdecrypt,
      htells.rank_eq htells' (hperm.flatMap fun r _ => misses_perm hkeys)⟩

end SealedToken.Jwe
