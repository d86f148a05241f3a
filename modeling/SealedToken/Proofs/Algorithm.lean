import SealedToken.Algorithm.Basic
import SealedToken.Proofs.Outcome

/-!
Which names of algorithms are permitted. The check on a name succeeds exactly for
the permitted ones, with a list of names and with the default that stands in for it.
-/

namespace SealedToken

namespace Algorithm

/-- The names that a list permits, or the default where there is no list. -/
def Permitted (allowed : Option (List String)) (name : String) : Prop :=
  name ∈ allowed.getD defaultAllowed

instance (allowed : Option (List String)) (name : String) : Decidable (Permitted allowed name) :=
  inferInstanceAs (Decidable (name ∈ allowed.getD defaultAllowed))

theorem mem_defaultAllowed {name : String} :
    name ∈ defaultAllowed ↔ (∃ a ∈ registered, a.name = name) ∧ name ∉ restricted := by
  simp [defaultAllowed]

theorem isOk_lookup {name : String} :
    (lookup name).isOk = true ↔ ∃ a ∈ registered, a.name = name := by
  unfold lookup
  split
  · next a ha =>
      have hname : a.name = name := by simpa using List.find?_some ha
      simpa using ⟨a, List.mem_of_find?_eq_some ha, hname⟩
  · next h => simpa using h

/-- The algorithm that is looked up is the one of the name. -/
theorem name_of_lookup {a : Algorithm} {name : String} (h : lookup name = .ok a) :
    a.name = name := by
  unfold lookup at h
  split at h
  · next found hfound =>
      obtain rfl := Except.ok.inj h
      simpa using List.find?_some hfound
  · simp at h

/-- The algorithm without any signature is only permitted by a list that names it. -/
theorem not_permitted_unsecured : ¬ Permitted none SigningAlgorithm.unsecured.name := by
  intro h
  have hnot := (mem_defaultAllowed.1 h).2
  exact hnot (by simp [restricted, SigningAlgorithm.name])

@[simp] theorem checkAllowed_eq_ok {allowed : Option (List String)} {name : String} :
    checkAllowed allowed name = .ok () ↔ Permitted allowed name := by
  cases allowed with
  | some names => simp [checkAllowed, Permitted]
  | none =>
      -- The default only has registered names, so the look-up in front of it succeeds.
      have hlookup (h : name ∈ defaultAllowed) : ∃ a, lookup name = .ok a :=
        isOk_iff.1 (isOk_lookup.2 (mem_defaultAllowed.1 h).1)
      simpa [checkAllowed, Permitted] using hlookup

end Algorithm

/-! ### Looking up a name -/

namespace SigningAlgorithm

variable {a b : SigningAlgorithm} {name : String}

theorem lookup_name (a : SigningAlgorithm) : lookup a.name = .ok a := by
  cases a with
  | hmac h | rsaPkcs1 h | rsaPss h => cases h <;> rfl
  | ecdsa c => cases c <;> rfl
  | eddsa => rfl
  | unsecured => rfl

theorem name_injective (h : a.name = b.name) : a = b :=
  Except.ok.inj ((lookup_name a).symm.trans ((congrArg lookup h).trans (lookup_name b)))

theorem name_of_lookup (h : lookup name = .ok a) : a.name = name := by
  obtain ⟨registered, hlookup, h⟩ := bind_eq_ok.1 h
  split at h
  · obtain rfl := Except.ok.inj h
    exact Algorithm.name_of_lookup hlookup
  · simp at h

end SigningAlgorithm

namespace KeyManagementAlgorithm

variable {a b : KeyManagementAlgorithm} {name : String}

theorem lookup_name (a : KeyManagementAlgorithm) : lookup a.name = .ok a := by
  cases a with
  | aesKeyWrap s | aesGcmKeyWrap s | pbes2 s => cases s <;> rfl
  | ecdhEs inner =>
      cases inner with
      | none => rfl
      | some s => cases s <;> rfl
  | _ => rfl

/-- Different algorithms have different names. -/
theorem name_injective (h : a.name = b.name) : a = b :=
  Except.ok.inj ((lookup_name a).symm.trans ((congrArg lookup h).trans (lookup_name b)))

theorem name_of_lookup (h : lookup name = .ok a) : a.name = name := by
  obtain ⟨registered, hlookup, h⟩ := bind_eq_ok.1 h
  split at h
  · obtain rfl := Except.ok.inj h
    exact Algorithm.name_of_lookup hlookup
  · simp at h

end KeyManagementAlgorithm

theorem ContentEncryptionAlgorithm.lookup_name (a : ContentEncryptionAlgorithm) :
    lookup a.name = .ok a := by
  cases a with
  | cbcHmac s | gcm s => cases s <;> rfl

theorem ContentEncryptionAlgorithm.name_of_lookup {a : ContentEncryptionAlgorithm} {name : String}
    (h : lookup name = .ok a) : a.name = name := by
  obtain ⟨registered, hlookup, h⟩ := bind_eq_ok.1 h
  split at h
  · obtain rfl := Except.ok.inj h
    exact Algorithm.name_of_lookup hlookup
  · simp at h

end SealedToken
