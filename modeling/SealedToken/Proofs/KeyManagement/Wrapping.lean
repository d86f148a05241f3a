import SealedToken.KeyManagement.Basic
import SealedToken.Proofs.Algorithm
import SealedToken.Proofs.Header
import SealedToken.Proofs.Object

/-!
What a key management algorithm does on the sender's side: which key it takes for the
content, and which parameters it adds to the header.
-/

namespace SealedToken.KeyManagementAlgorithm

variable {p : Primitives} {rng : Entropy} {a : KeyManagementAlgorithm} {key : Jwk}
  {keyBits : Nat} {held : Option ByteArray} {header : Object} {limits : PasswordLimits}
  {wrapped : WrappedKey} {name : String}

/-- The header parameters that an algorithm adds for the recipient. -/
def parameters : KeyManagementAlgorithm → List String
  | .aesGcmKeyWrap _ => ["iv", "tag"]
  | .pbes2 _ => ["p2s", "p2c"]
  | .ecdhEs _ => ["epk"]
  | .direct | .rsaPkcs1 | .rsaOaep | .rsaOaep256 | .aesKeyWrap _ => []

theorem ne_of_mem_parameters (h : name ∈ a.parameters) :
    name ≠ "alg" ∧ name ≠ "enc" ∧ name ≠ "crit" := by
  cases a <;> simp [parameters] at h <;> rcases h with rfl | rfl <;> decide

/-! ### Each kind of wrapping -/

theorem wrapRsa_eq_ok {padding : Rsa.EncryptionPadding} {contentKey : ByteArray}
    (h : wrapRsa p rng padding key contentKey = .ok wrapped) :
    wrapped.contentKey = contentKey ∧ wrapped.header = .empty := by
  simp only [wrapRsa, bind_eq_ok] at h
  obtain ⟨⟨n, e⟩, -, h⟩ := h
  dsimp only at h
  split at h
  · simp at h
  · split at h
    · obtain rfl := Except.ok.inj h
      exact ⟨rfl, rfl⟩
    · split at h <;> simp at h

theorem wrapPassword_eq_ok {s : AesSize} {contentKey : ByteArray}
    (h : a.wrapPassword p rng s key contentKey header limits = .ok wrapped) :
    wrapped.contentKey = contentKey ∧ ∃ salt iterations,
      chosenSalt rng limits header = .ok (salt, iterations) ∧
      wrapped.header =
        (Object.empty.insert "p2s" (Json.ofBytes salt)).insert "p2c" (Json.int iterations) := by
  simp only [wrapPassword, bind_eq_ok, pure_eq_ok, Except.ok.injEq] at h
  obtain ⟨⟨salt, iterations⟩, hsalt, _, -, _, -, _, -, rfl⟩ := h
  exact ⟨rfl, salt, iterations, hsalt, rfl⟩

theorem iterationsOf_eq_ok {value : Json} {iterations : Nat}
    (h : iterationsOf value = .ok iterations) : value = Json.int iterations := by
  unfold iterationsOf at h
  split at h
  · next n =>
      split at h
      · next hrange =>
          obtain rfl := Except.ok.inj h
          rw [Int.toNat_of_nonneg hrange.1, Json.int]
      · simp at h
  · simp at h

/-- The salt and the repetitions of a sender are those that the header names. -/
theorem chosenSalt_named {salt : ByteArray} {iterations : Nat}
    (h : chosenSalt rng limits header = .ok (salt, iterations)) :
    (∀ value, header.find? "p2s" = some value → value = Json.ofBytes salt) ∧
      ∀ value, header.find? "p2c" = some value → value = Json.int iterations := by
  obtain ⟨named, hnamed, h⟩ := bind_eq_ok.1 h
  have hsalt : salt = named.getD (rng.take limits.defaultSaltSize) := by
    split at h
    · obtain ⟨_, -, h⟩ := bind_eq_ok.1 h
      exact (Prod.mk.inj (Except.ok.inj h)).1.symm
    · exact (Prod.mk.inj (Except.ok.inj h)).1.symm
  constructor
  · intro value hvalue
    rw [Header.bytes?_eq_ok.1 hnamed, Option.map_eq_some_iff] at hvalue
    obtain ⟨bytes, rfl, rfl⟩ := hvalue
    rw [hsalt, Option.getD_some]
  · intro value hvalue
    rw [hvalue] at h
    obtain ⟨_, hiterations, h⟩ := bind_eq_ok.1 h
    obtain ⟨-, rfl⟩ := Prod.mk.inj (Except.ok.inj h)
    exact iterationsOf_eq_ok hiterations

theorem agree_eq_ok {derived : ByteArray} {added : Object}
    (h : a.agree p rng key keyBits header = .ok (derived, added)) :
    ∃ value, added = Object.empty.insert "epk" value := by
  simp only [agree, bind_eq_ok] at h
  obtain ⟨curve, -, _, -, _, -, h⟩ := h
  split at h
  · simp at h
  · obtain ⟨_, -, h⟩ := bind_eq_ok.1 h
    exact ⟨_, (Prod.mk.inj (Except.ok.inj h)).2.symm⟩

/-! ### Any of them -/

/-- What any algorithm does. One that determines the key of the content takes no other;
every other takes the key that is held, or chooses one. -/
structure Wraps (rng : Entropy) (a : KeyManagementAlgorithm) (keyBits : Nat)
    (held : Option ByteArray) (wrapped : WrappedKey) : Prop where
  unshared : a.determinesKey = true → held = none
  chosen : a.determinesKey = false →
    contentKey (rng.fork 0) keyBits held = .ok wrapped.contentKey
  added : ∀ name, wrapped.header.contains name = true ↔ name ∈ a.parameters

theorem checkNotShared_eq_ok : a.checkNotShared held = .ok () ↔ held = none := by
  cases held <;> simp [checkNotShared]

theorem wraps_of_wrap (h : a.wrap p rng key keyBits held header limits = .ok wrapped) :
    Wraps rng a keyBits held wrapped := by
  cases a with
  | direct =>
      simp only [wrap, bind_eq_ok, pure_eq_ok, Except.ok.injEq] at h
      obtain ⟨_, hheld, _, -, _, -, rfl⟩ := h
      exact ⟨fun _ => checkNotShared_eq_ok.1 hheld, by simp [determinesKey], by simp [parameters]⟩
  | rsaPkcs1 | rsaOaep | rsaOaep256 =>
      obtain ⟨chosen, hchosen, h⟩ := bind_eq_ok.1 h
      obtain ⟨rfl, hheader⟩ := wrapRsa_eq_ok h
      exact ⟨by simp [determinesKey], fun _ => hchosen, by simp [hheader, parameters]⟩
  | aesKeyWrap s =>
      simp only [wrap, bind_eq_ok, pure_eq_ok, Except.ok.injEq] at h
      obtain ⟨_, -, chosen, hchosen, _, -, rfl⟩ := h
      exact ⟨by simp [determinesKey], fun _ => hchosen, by simp [parameters]⟩
  | aesGcmKeyWrap s =>
      simp only [wrap, bind_eq_ok, pure_eq_ok, Except.ok.injEq] at h
      obtain ⟨_, -, chosen, hchosen, rfl⟩ := h
      refine ⟨by simp [determinesKey], fun _ => hchosen, fun name => ?_⟩
      simp [wrapAesGcm, parameters, or_comm, @eq_comm _ name]
  | pbes2 s =>
      obtain ⟨chosen, hchosen, h⟩ := bind_eq_ok.1 h
      obtain ⟨rfl, _, _, -, hheader⟩ := wrapPassword_eq_ok h
      refine ⟨by simp [determinesKey], fun _ => hchosen, fun name => ?_⟩
      simp [hheader, parameters, or_comm, @eq_comm _ name]
  | ecdhEs inner =>
      cases inner with
      | none =>
          simp only [wrap, bind_eq_ok, pure_eq_ok, Except.ok.injEq] at h
          obtain ⟨_, hheld, ⟨derived, added⟩, hagree, rfl⟩ := h
          obtain ⟨value, rfl⟩ := agree_eq_ok hagree
          refine ⟨fun _ => checkNotShared_eq_ok.1 hheld, by simp [determinesKey], fun name => ?_⟩
          simp [parameters, @eq_comm _ name]
      | some s =>
          simp only [wrap, bind_eq_ok, pure_eq_ok, Except.ok.injEq] at h
          obtain ⟨⟨kek, added⟩, hagree, chosen, hchosen, _, -, rfl⟩ := h
          obtain ⟨value, rfl⟩ := agree_eq_ok hagree
          refine ⟨by simp [determinesKey], fun _ => hchosen, fun name => ?_⟩
          simp [parameters, @eq_comm _ name]

/-- Where the header names salt or repetitions, a password is used with these. -/
theorem wrap_pbes2_named {s : AesSize} {value named : Json}
    (h : wrap p rng (.pbes2 s) key keyBits held header limits = .ok wrapped)
    (hadded : wrapped.header.find? name = some value) (hnamed : header.find? name = some named) :
    named.same value = true := by
  obtain ⟨chosen, -, h⟩ := bind_eq_ok.1 h
  obtain ⟨-, salt, iterations, hchosen, hheader⟩ := wrapPassword_eq_ok h
  obtain ⟨hsalt, hiterations⟩ := chosenSalt_named hchosen
  rw [hheader, Object.find?_insert, Object.find?_insert] at hadded
  split at hadded
  · next heq =>
      subst heq
      obtain rfl := Option.some.inj hadded
      simp [hiterations named hnamed, Json.int, Json.same]
  · split at hadded
    · next heq =>
        subst heq
        obtain rfl := Option.some.inj hadded
        simp [hsalt named hnamed, Json.ofBytes, Json.same]
    · simp at hadded

/-- A key that is held is brought to the recipient as it is. -/
theorem Wraps.of_held {contentKey : ByteArray} (h : Wraps rng a keyBits (some contentKey) wrapped) :
    a.determinesKey = false ∧ wrapped.contentKey = contentKey := by
  cases hd : a.determinesKey with
  | true => simpa using h.unshared hd
  | false =>
      have hchosen := h.chosen hd
      simp only [KeyManagementAlgorithm.contentKey, bind_eq_ok, pure_eq_ok, Except.ok.injEq]
        at hchosen
      obtain ⟨_, -, rfl⟩ := hchosen
      exact ⟨rfl, rfl⟩

end SealedToken.KeyManagementAlgorithm
