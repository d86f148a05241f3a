import SealedToken.Proofs.Jws.Release

/-!
One valid signature is enough. Neither the order in which signatures and keys are tried nor
the errors on the way have a part in the outcome: a verification asks whether there are a
signature and a key offered for it that fit, and it marks every signature by itself.
-/

namespace SealedToken

/-! ### More keys -/

/-- A source of keys that offers all that another one does, and maybe more. A single key is
tried for every token, so there is nothing to compare it with but itself. -/
inductive KeySource.Extends : (more source : KeySource) → Prop
  | refl (source : KeySource) : Extends source source
  | keys {set more : KeySet} (h : set.keys ⊆ more.keys) : Extends (.anyOf more) (.anyOf set)

/-- The same keys in whatever order. -/
inductive KeySource.Permutes : (source other : KeySource) → Prop
  | refl (source : KeySource) : Permutes source source
  | keys {set other : KeySet} (h : set.keys.Perm other.keys) :
      Permutes (.anyOf set) (.anyOf other)

namespace KeySource

variable {source more other : KeySource} {kid : Option String} {key : Jwk}

theorem Permutes.extends (h : source.Permutes other) : source.Extends other := by
  cases h with
  | refl => exact .refl _
  | keys h => exact .keys h.symm.subset

theorem Permutes.symm (h : source.Permutes other) : other.Permutes source := by
  cases h with
  | refl => exact .refl _
  | keys h => exact .keys h.symm

/-- An identifier restricts a set to the keys that carry it. -/
theorem mem_offered_anyOf {set : KeySet} :
    key ∈ (anyOf set).offered kid ↔
      key ∈ set.keys ∧ ∀ name, kid = some name → key.kid = some name := by
  cases kid <;> simp [offered]

theorem Extends.mem_offered (h : more.Extends source) (hkey : key ∈ source.offered kid) :
    key ∈ more.offered kid := by
  cases h with
  | refl => exact hkey
  | keys hsubset =>
      rw [mem_offered_anyOf] at hkey ⊢
      exact ⟨hsubset hkey.1, hkey.2⟩

theorem candidates_eq_ok {keys : List Jwk} :
    source.candidates kid = .ok keys ↔ source.offered kid = keys ∧ keys ≠ [] := by
  unfold candidates
  split
  · next hnone =>
      rw [hnone]
      simp only [reduceCtorEq, false_iff]
      rintro ⟨rfl, hne⟩
      exact hne rfl
  · next hsome =>
      constructor
      · intro h
        obtain rfl := Except.ok.inj h
        exact ⟨rfl, hsome⟩
      · rintro ⟨rfl, -⟩
        rfl

/-- The candidates are the keys on offer, of which there has to be one. -/
theorem exists_mem_candidates {P : Jwk → Prop} :
    (∃ keys, source.candidates kid = .ok keys ∧ ∃ key ∈ keys, P key) ↔
      ∃ key ∈ source.offered kid, P key := by
  unfold candidates
  split
  · next hnone => simp [hnone]
  · simp

end KeySource

namespace Jws

variable {p : Primitives} {t : Jws} {keys more other : KeySource} {alg : Option String}
  {detached : Option ByteArray} {payload : ByteArray} {options : JwsOptions}
  {s s' after : SealedToken.Signature} {signatures : List SealedToken.Signature}

/-! ### One signature -/

theorem Checked.verifies_iff (checked : Checked options alg s) :
    checked.Verifies p payload keys ↔
      ∃ key ∈ keys.offered checked.kid, checked.algorithm.verify p key
        (signingInput s.protectedText payload checked.encoded) s.bytes = .ok () :=
  KeySource.exists_mem_candidates

theorem Accepts.extends (h : Accepts p options payload keys alg s) (hmore : more.Extends keys) :
    Accepts p options payload more alg s := by
  obtain ⟨checked, hverifies⟩ := h
  obtain ⟨key, hkey, hverify⟩ := checked.verifies_iff.1 hverifies
  exact ⟨checked, checked.verifies_iff.2 ⟨key, hmore.mem_offered hkey, hverify⟩⟩

theorem accepts_permutes (h : keys.Permutes other) :
    Accepts p options payload keys alg s ↔ Accepts p options payload other alg s :=
  ⟨fun haccepts => haccepts.extends h.symm.extends, fun haccepts => haccepts.extends h.extends⟩

/-- A signature as a verification leaves it: its mark tells whether it is accepted, and
nothing else of it has changed. -/
structure Marked (p : Primitives) (options : JwsOptions) (payload : ByteArray) (keys : KeySource)
    (alg : Option String) (s after : SealedToken.Signature) : Prop where
  kept : { after with state := s.state } = s
  valid : after.state = .valid ↔ Accepts p options payload keys alg s
  invalid : after.state = .invalid ↔ ¬ Accepts p options payload keys alg s

theorem marked_stateOf :
    Marked p options payload keys alg s
      { s with state := stateOf (verifyOne p options payload keys alg s).1 } := by
  refine ⟨rfl, ?_, ?_⟩ <;>
  · rw [← verifyOne_eq_ok]
    cases (verifyOne p options payload keys alg s).1 <;> simp [stateOf]

/-- The mark is determined by the signature alone, and by the order of the keys not at all. -/
theorem Marked.eq {afterOther : SealedToken.Signature}
    (h : Marked p options payload keys alg s after)
    (hother : Marked p options payload other alg s afterOther) (hkeys : keys.Permutes other) :
    after = afterOther := by
  have hstate : after.state = afterOther.state := by
    by_cases haccepts : Accepts p options payload keys alg s
    · rw [h.valid.2 haccepts, hother.valid.2 ((accepts_permutes hkeys).1 haccepts)]
    · rw [h.invalid.2 haccepts, hother.invalid.2 (mt (accepts_permutes hkeys).2 haccepts)]
  have hkept : { after with state := s.state } = { afterOther with state := s.state } :=
    h.kept.trans hother.kept.symm
  cases after
  cases afterOther
  simp_all

/-! ### All signatures -/

section Verify

variable (hpayload : (detached <|> t.held) = some payload)
include hpayload

theorem verify_eq_ok (hsigned : t.signatures ≠ []) :
    (t.verify p keys alg detached).1 = .ok () ↔
      ∃ s ∈ t.signatures, Accepts p t.options payload keys alg s := by
  rw [verify_eq_verifyAll p keys alg hpayload hsigned]
  exact verifyAll_eq_ok

theorem marked_verify (hsigned : t.signatures ≠ []) :
    List.Forall₂ (Marked p t.options payload keys alg) t.signatures
      (t.verify p keys alg detached).2.signatures := by
  rw [verify_eq_verifyAll p keys alg hpayload hsigned, verifyAll_signatures]
  dsimp only
  rw [List.forall₂_map_right_iff, List.forall₂_same]
  exact fun s _ => marked_stateOf

end Verify

/-- Wherever a signature stands in either of two tokens, it has the same mark. -/
def SameMarks (before after before' after' : List SealedToken.Signature) : Prop :=
  ∀ (i j : Nat) s, before[i]? = some s → before'[j]? = some s → after[i]? = after'[j]?

theorem sameMarks_of_marked {after after' before' : List SealedToken.Signature}
    (h : List.Forall₂ (Marked p options payload keys alg) signatures after)
    (h' : List.Forall₂ (Marked p options payload other alg) before' after')
    (hkeys : keys.Permutes other) : SameMarks signatures after before' after' := by
  intro i j s hi hj
  obtain ⟨hilt, hi⟩ := List.getElem?_eq_some_iff.1 hi
  obtain ⟨hjlt, hj⟩ := List.getElem?_eq_some_iff.1 hj
  have hafter : i < after.length := h.length_eq ▸ hilt
  have hafter' : j < after'.length := h'.length_eq ▸ hjlt
  have hmark := h.get hilt hafter
  have hmark' := h'.get hjlt hafter'
  simp only [List.get_eq_getElem, hi, hj] at hmark hmark'
  rw [List.getElem?_eq_getElem hafter, List.getElem?_eq_getElem hafter', hmark.eq hmark' hkeys]

/-- Let a token have signatures, and let there be a payload to verify. A verification
succeeds exactly when one of the signatures is accepted under one of the keys offered for
it, and each signature is marked by itself. So the order of the signatures and of the keys
makes no difference to the success or to any mark, and a success stays one when there are
more signatures and more keys. -/
theorem one_valid_signature_suffices (hpayload : (detached <|> t.held) = some payload)
    (hsigned : t.signatures ≠ []) :
    ((t.verify p keys alg detached).1 = .ok () ↔
      ∃ s ∈ t.signatures, Accepts p t.options payload keys alg s) ∧
    List.Forall₂ (Marked p t.options payload keys alg) t.signatures
      (t.verify p keys alg detached).2.signatures ∧
    (∀ signatures other, t.signatures.Perm signatures → keys.Permutes other →
      ((t.verify p keys alg detached).1 = .ok () ↔
        ({ t with signatures }.verify p other alg detached).1 = .ok ()) ∧
      SameMarks t.signatures (t.verify p keys alg detached).2.signatures signatures
        ({ t with signatures }.verify p other alg detached).2.signatures) ∧
    ∀ signatures more, t.signatures ⊆ signatures → more.Extends keys →
      (t.verify p keys alg detached).1 = .ok () →
        ({ t with signatures }.verify p more alg detached).1 = .ok () := by
  refine ⟨verify_eq_ok hpayload hsigned, marked_verify hpayload hsigned, ?_, ?_⟩
  · intro signatures other hperm hkeys
    have hsigned' : signatures ≠ [] := fun hnil => hsigned (List.perm_nil.1 (hnil ▸ hperm))
    refine ⟨?_, sameMarks_of_marked (marked_verify hpayload hsigned)
      (marked_verify (t := { t with signatures }) hpayload hsigned') hkeys⟩
    rw [verify_eq_ok hpayload hsigned,
      verify_eq_ok (t := { t with signatures }) hpayload hsigned']
    exact exists_congr fun s => and_congr hperm.mem_iff (accepts_permutes hkeys)
  · intro signatures more hsubset hmore hok
    obtain ⟨s, hs, haccepts⟩ := (verify_eq_ok hpayload hsigned).1 hok
    exact (verify_eq_ok (t := { t with signatures }) hpayload
      (List.ne_nil_of_mem (hsubset hs))).2 ⟨s, hsubset hs, haccepts.extends hmore⟩

/-! ### A stranger's signature in front -/

/-- A signature by somebody else, of another kind and for a key that nobody offers. -/
def strangerSignature : SealedToken.Signature where
  protectedHeader := none
  protectedText := ""
  header := some (.ofMembers [("alg", .str "HS256"), ("kid", .str "stranger")])
  bytes := .empty

/-- The token that is signed without a key, and by a stranger before that. -/
def strangerFirst : Jws :=
  { unsecured with
    signatures := strangerSignature :: unsecured.signatures
    options := { allowed := some [SigningAlgorithm.unsecured.name, "HS256"] } }

/-- Its signatures in the other order are verified as well, also when there is another key
in front of the one that fits. -/
theorem stranger_in_any_order :
    (strangerFirst.verify .standard (.anyOf ⟨[emptySecret]⟩) none none).1 = .ok () ∧
      ({ strangerFirst with signatures := strangerFirst.signatures.reverse }.verify .standard
        (.anyOf ⟨[emptySecret]⟩) none none).1 = .ok () ∧
      ({ strangerFirst with signatures := strangerFirst.signatures.reverse }.verify .standard
        (.anyOf ⟨[.ofOctets "other".toUTF8, emptySecret]⟩) none none).1 = .ok () := by
  have hok : (strangerFirst.verify .standard (.anyOf ⟨[emptySecret]⟩) none none).1 = .ok () := by
    decide +kernel
  obtain ⟨-, -, horder, hmore⟩ := @one_valid_signature_suffices .standard strangerFirst
    (.anyOf ⟨[emptySecret]⟩) none none _ rfl (List.cons_ne_nil _ _)
  refine ⟨hok, ?_, ?_⟩
  · exact ((horder _ _ (List.reverse_perm _).symm (.refl _)).1).1 hok
  · exact hmore _ _ (List.reverse_perm _).symm.subset (.keys (by simp)) hok

end Jws

end SealedToken
