import SealedToken.Proofs.Jwe.Reporting

/-!
Which failure is told of a token, whether its signatures are to be verified or its content is
to be decrypted. Of all that was tried the first failure counts that tells the most, and the
order in which it was tried has no part in how much that is.
-/

namespace SealedToken

variable {p : Primitives}

/-- Let a token have a payload and signatures of which none is accepted, or a content that is
not compressed and not opened either. The error that is told is the first one of the least rank
among all misses: those of the entries that came to no key, and those with the keys that were
tried. The log has a line for each of the keys, in order, and that something is not authentic
is only told of a key. In another order of the entries and of the keys there is an error of the
same rank. -/
theorem failure_told_by_first_of_least_rank :
    (∀ (t after : Jws) payload keys expected detached error,
      (detached <|> t.held) = some payload → t.signatures ≠ [] →
      t.verify p keys expected detached = (.error error, after) →
      Jws.ReportsFailure p t payload keys expected detached error after) ∧
    ∀ (t after : Jwe) supply content keys error,
      Jwe.Reachable p t → t.content = some content → ¬ Jwe.Compressed t →
      t.decrypt p supply keys = (.error error, after) →
      Jwe.ReportsFailure p supply t content keys error after := by
  constructor
  · intro t after payload keys expected detached error hpayload hsigned h
    exact Jws.reportsFailure_of_verify hpayload hsigned h
  · intro t after supply content keys error hreachable hcontent hplain h
    have hrecipients := hreachable.coherent.content.1 (by simp [hcontent])
    exact Jwe.reportsFailure_of_decrypt hcontent hrecipients hplain h

/-! ### A stranger and wrong keys -/

/-- Two keys that do not open the token under a shared key: one is too short, and one is another
of the right size. -/
def wrongKeys : KeySource :=
  .anyOf ⟨[.ofOctets "other".toUTF8, .ofOctets "sixteen bytes...".toUTF8]⟩

/-- The token under a shared key, for which both algorithms are accepted. -/
def Jwe.allowedDirect : Jwe := direct.run directPrimitives
  [.setOptions { allowed := some [KeyManagementAlgorithm.direct.name,
    (ContentEncryptionAlgorithm.gcm .aes128).name] }]

/-- A secret where there must be none is told rather than the key of a stranger that nobody
offers, and a content that is not authentic rather than a key that is too short. -/
theorem strangers_and_wrong_keys_told :
    (∃ after, Jws.strangerFirst.verify .standard (.anyOf ⟨[.ofOctets "other".toUTF8]⟩) none none =
        (.error (.invalidKey .secretNotEmpty), after) ∧
      Jws.ReportsFailure .standard Jws.strangerFirst "\x7b\x7d".toUTF8
        (.anyOf ⟨[.ofOctets "other".toUTF8]⟩) none none (.invalidKey .secretNotEmpty) after) ∧
    ∃ content after, Jwe.allowedDirect.decrypt Jwe.directPrimitives (fun _ _ => Jwe.zeros)
        wrongKeys = (.error .authenticationFailure, after) ∧
      Jwe.ReportsFailure Jwe.directPrimitives (fun _ _ => Jwe.zeros) Jwe.allowedDirect content
        wrongKeys .authenticationFailure after := by
  constructor
  · have hfails : (Jws.strangerFirst.verify .standard (.anyOf ⟨[.ofOctets "other".toUTF8]⟩)
        none none).1 = .error (.invalidKey .secretNotEmpty) := by
      decide +kernel
    have h := Prod.ext hfails rfl
    exact ⟨_, h, failure_told_by_first_of_least_rank.1 _ _ _ _ _ _ _ rfl (List.cons_ne_nil _ _) h⟩
  · have hfails : (Jwe.allowedDirect.decrypt Jwe.directPrimitives (fun _ _ => Jwe.zeros)
        wrongKeys).1 = .error .authenticationFailure := by
      decide +kernel
    have hplain : ¬ Jwe.Compressed Jwe.allowedDirect := by
      rw [Jwe.Compressed]
      decide +kernel
    have h := Prod.ext hfails rfl
    have hreachable : Jwe.Reachable Jwe.directPrimitives Jwe.allowedDirect :=
      .read Jwe.deserialize_directText _
    exact ⟨_, _, h, failure_told_by_first_of_least_rank.2 _ _ _ _ _ _ hreachable rfl hplain h⟩

end SealedToken
