import Mathlib.Data.List.Perm.Basic
import SealedToken.Proofs.Jws.AnyValid
import SealedToken.Proofs.Jwt.Authentication
import SealedToken.Proofs.Relevance

/-!
What a verification that fails reports. Each signature has its misses: the error of its
header or, behind that, one for every key that was tried. The report tells of all of them.
-/

namespace SealedToken

/-- In another order of the keys the candidates are the same, in another order. -/
theorem KeySource.Permutes.candidates {source other : KeySource} {kid : Option String}
    (h : source.Permutes other) :
    SameOutcome List.Perm (source.candidates kid) (other.candidates kid) := by
  have hoffered : (source.offered kid).Perm (other.offered kid) := by
    cases h with
    | refl => exact .refl _
    | keys h =>
        cases kid with
        | none => exact h
        | some name => exact h.filter _
  unfold KeySource.candidates
  generalize source.offered kid = keys at hoffered
  generalize other.offered kid = others at hoffered
  cases keys with
  | nil =>
      obtain rfl := List.nil_perm.1 hoffered
      exact .error _
  | cons key rest =>
      cases others with
      | nil => simp at hoffered
      | cons first others => exact .ok hoffered

namespace Jws

variable {p : Primitives} {options : JwsOptions} {payload : ByteArray} {keys other : KeySource}
  {expected : Option String} {s : SealedToken.Signature} {t after : Jws} {error : Error}
  {detached : Option ByteArray} {signatures : List SealedToken.Signature}

/-! ### One signature -/

/-- What fails of a signature. -/
def misses (p : Primitives) (options : JwsOptions) (payload : ByteArray) (keys : KeySource)
    (expected : Option String) (s : SealedToken.Signature) : List Miss :=
  Miss.ofEntry (prepare options payload keys expected s) fun pending =>
    Miss.ofKeys (fun key => pending.algorithm.verify p key pending.input s.bytes) pending.name
      pending.keys

theorem sound_of_mem_misses {miss : Miss} (h : miss ∈ misses p options payload keys expected s) :
    miss.Sound :=
  Miss.sound_of_mem_ofEntry preliminary_prepare (fun _ _ => Miss.sound_of_mem_ofKeys) h

/-- A signature is only prepared for keys of which there is one. -/
theorem keys_ne_nil_of_prepare {pending : Pending}
    (h : prepare options payload keys expected s = .ok pending) : pending.keys ≠ [] := by
  obtain ⟨checked, offered, hoffered, rfl⟩ := prepare_eq_ok.1 h
  exact (KeySource.candidates_eq_ok.1 hoffered).2

theorem errorOf?_eq_none {outcome : Except Error Unit} :
    errorOf? outcome = none ↔ outcome = .ok () := by
  cases outcome <;> simp [errorOf?]

/-- What is told of a signature that is not accepted. -/
theorem tells_misses (h : ¬ Accepts p options payload keys expected s) :
    Tells (misses p options payload keys expected s)
      (errorOf? (verifyOne p options payload keys expected s).1)
      (verifyOne p options payload keys expected s).2 := by
  rw [← verifyOne_eq_ok] at h
  unfold misses
  unfold verifyOne at h ⊢
  cases hprepare : prepare options payload keys expected s with
  | error early => exact tells_untried
  | ok pending =>
      simp only [hprepare] at h
      split at h
      · exact absurd rfl h
      · next hnone =>
          dsimp only
          rw [hnone]
          exact tells_ofKeys (keys_ne_nil_of_prepare hprepare) hnone

/-- The order of the keys has no part in what the checks of a header give. -/
theorem sameOutcome_prepare (hkeys : keys.Permutes other) :
    SameOutcome (fun one two => ∃ keys, one.keys.Perm keys ∧ two = { one with keys })
      (prepare options payload keys expected s) (prepare options payload other expected s) := by
  refine .bind_common _ fun merged => .bind_common _ fun name? => ?_
  cases name? with
  | none => exact .error _
  | some name =>
      refine .bind_common _ fun _ => .bind_common _ fun _ => .bind_common _ fun algorithm => ?_
      refine .bind_common _ fun encoded => .bind_common _ fun kid => ?_
      exact hkeys.candidates.bind fun one two h => .ok ⟨two, h, rfl⟩

/-- In another order of the keys the same keys fail, with the same errors. -/
theorem misses_perm (hkeys : keys.Permutes other) :
    (misses p options payload keys expected s).Perm
      (misses p options payload other expected s) := by
  refine Miss.ofEntry_perm (sameOutcome_prepare hkeys) ?_
  rintro one _ ⟨offered, hperm, rfl⟩
  exact hperm.filterMap _

/-! ### All signatures -/

/-- What is told of all signatures when none of them is accepted. -/
theorem tells_verifyAll (hsigned : t.signatures ≠ [])
    (h : t.verifyAll p payload keys expected = (.error error, after)) :
    Tells (t.signatures.flatMap (misses p t.options payload keys expected)) (some error)
      after.log := by
  have hnone : ∀ s ∈ t.signatures, ¬ Accepts p t.options payload keys expected s := by
    intro s hs haccepts
    have hok := verifyAll_eq_ok.2 ⟨s, hs, haccepts⟩
    simp [h] at hok
  have htells := tells_flatMap fun s hs => tells_misses (hnone s hs)
  -- there is a signature, and it has an error
  have herrors : t.signatures.filterMap (fun s =>
      errorOf? (verifyOne p t.options payload keys expected s).1) ≠ [] := by
    obtain ⟨s, hs⟩ := List.exists_mem_of_ne_nil _ hsigned
    rw [Ne, List.filterMap_eq_nil_iff]
    intro hall
    exact hnone s hs (verifyOne_eq_ok.1 (errorOf?_eq_none.1 (hall s hs)))
  obtain ⟨told, htold⟩ := Error.exists_mostRelevantOf herrors
  have hfailed : ¬ ((t.signatures.map (verifyOne p t.options payload keys expected)).any
      (·.1.isOk)) = true := by
    rw [any_isOk_verifyOne]
    rintro ⟨s, hs, haccepts⟩
    exact hnone s hs haccepts
  dsimp only [verifyAll] at h
  rw [if_neg hfailed, List.filterMap_map, List.flatMap_map] at h
  obtain ⟨herror, rfl⟩ := Prod.mk.inj h
  obtain rfl : told = error := by
    rw [Function.comp_def, htold] at herror
    exact Except.error.inj herror
  exact ⟨htells.failure.trans htold, htells.log⟩

/-- What is told of a token when its verification fails. -/
theorem tells_verify (hpayload : (detached <|> t.held) = some payload) (hsigned : t.signatures ≠ [])
    (h : t.verify p keys expected detached = (.error error, after)) :
    Tells (t.signatures.flatMap (misses p t.options payload keys expected)) (some error)
      after.log := by
  rw [verify_eq_verifyAll p keys expected hpayload hsigned] at h
  exact tells_verifyAll (t := { t with held := some payload, trusted := false, log := [] })
    hsigned h

/-- How the failure of a verification is reported. -/
structure ReportsFailure (p : Primitives) (t : Jws) (payload : ByteArray) (keys : KeySource)
    (expected : Option String) (detached : Option ByteArray) (error : Error) (after : Jws) :
    Prop where
  /-- The report tells of all that has failed, signature by signature. -/
  reports : Reports (t.signatures.flatMap (misses p t.options payload keys expected)) error
    after.log
  /-- In any other order of the signatures and of the keys the verification fails as well, with
  an error of the same rank. -/
  reordered : ∀ signatures other, t.signatures.Perm signatures → keys.Permutes other →
    ∃ error' after', { t with signatures }.verify p other expected detached =
        (.error error', after') ∧ error'.rank = error.rank

theorem reportsFailure_of_verify (hpayload : (detached <|> t.held) = some payload)
    (hsigned : t.signatures ≠ [])
    (h : t.verify p keys expected detached = (.error error, after)) :
    ReportsFailure p t payload keys expected detached error after := by
  have htells := tells_verify hpayload hsigned h
  refine ⟨htells.reports fun miss hmiss => ?_, fun signatures other hperm hkeys => ?_⟩
  · obtain ⟨s, -, hmiss⟩ := List.mem_flatMap.1 hmiss
    exact sound_of_mem_misses hmiss
  · have hsigned' : signatures ≠ [] := fun hnil => hsigned (List.perm_nil.1 (hnil ▸ hperm))
    have hfails : ({ t with signatures }.verify p other expected detached).1 ≠ .ok () := by
      rw [Ne, verify_eq_ok (t := { t with signatures }) hpayload hsigned']
      rintro ⟨s, hs, haccepts⟩
      have hok := (verify_eq_ok hpayload hsigned).2
        ⟨s, hperm.mem_iff.2 hs, (accepts_permutes hkeys).2 haccepts⟩
      simp [h] at hok
    obtain ⟨error', after', hverify⟩ := exists_error_of_fst hfails
    have htells' := tells_verify (t := { t with signatures }) hpayload hsigned' hverify
    exact ⟨error', after', hverify,
      htells.rank_eq htells' (hperm.flatMap fun s _ => misses_perm hkeys)⟩

end Jws

end SealedToken
