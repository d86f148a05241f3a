import SealedToken.Proofs.Aes.Gcm
import SealedToken.Proofs.KeyManagement.Recovery

/-!
The two sides of a key management algorithm in sequence. What the recipient reads is the
sender's header overlaid with the parameters that were added, so a parameter of the
algorithm comes from the sender's side also where the header named it before, and all
others are those of the header.
-/

namespace SealedToken.KeyManagementAlgorithm

variable {p : Primitives} {rng : Entropy} {a : KeyManagementAlgorithm} {key : Jwk}
  {keyBits : Nat} {held : Option ByteArray} {header : Object} {limits : PasswordLimits}
  {wrapped : WrappedKey}

/-- A header overlaid with what was added carries it. -/
theorem carries_union (h : a.wrap p rng key keyBits held header limits = .ok wrapped) :
    a.Carries header wrapped.header (header.union wrapped.header) where
  added name value hadded := by rw [Object.find?_union, hadded, Option.some_or]
  kept name hname := by
    have habsent : wrapped.header.find? name = none := by
      rw [← Object.contains_eq_false_iff, ← Bool.not_eq_true, (wraps_of_wrap h).added]
      exact hname
    rw [Object.find?_union, habsent, Option.none_or]

/-- The key of the content has the size that is asked for, whoever owns the key that it
is wrapped under. -/
theorem size_of_wrap (h : a.wrap p rng key keyBits held header limits = .ok wrapped) :
    wrapped.contentKey.size = keyBits / 8 := by
  cases hd : a.determinesKey with
  | false => exact size_contentKey ((wraps_of_wrap h).chosen hd)
  | true =>
      cases a with
      | direct =>
          simp only [wrap, bind_eq_ok, pure_eq_ok, Except.ok.injEq] at h
          obtain ⟨_, -, k, -, _, hsize, rfl⟩ := h
          exact Jwe.checkKeySize_eq_ok.1 hsize
      | ecdhEs inner =>
          cases inner with
          | none =>
              simp only [wrap, bind_eq_ok, pure_eq_ok, Except.ok.injEq] at h
              obtain ⟨_, -, ⟨derived, added⟩, hagree, rfl⟩ := h
              exact size_of_agree hagree
          | some s => simp [determinesKey] at hd
      | _ => simp [determinesKey] at hd

/-- An algorithm that determines the key of the content refuses one before it looks at
anything else. -/
theorem wrap_of_determinesKey (hd : a.determinesKey = true) (hheld : held.isSome = true) :
    a.wrap p rng key keyBits held header limits =
      .error (.invalidOperation (.directKeyShared a.name)) := by
  cases a with
  | direct => simp [wrap, checkNotShared, hheld]
  | ecdhEs inner =>
      cases inner with
      | none => simp [wrap, checkNotShared, hheld]
      | some s => simp [determinesKey] at hd
  | _ => simp [determinesKey] at hd

/-- Unwrapping undoes wrapping, for every algorithm and every header. A key of the content
that was wrapped has the size that is asked for and is the one that was held, if one was;
its owner gets it back from the header overlaid with what was added, as far as the
operations on keys undo each other and repetitions are a number of 32 bits. The algorithms
that determine the key of the content refuse one that is held. -/
theorem unwrap_wrap_overlaid (p : Primitives) (rng : Entropy) (a : KeyManagementAlgorithm)
    (key : Jwk) (keyBits : Nat) (held : Option ByteArray) (header : Object)
    (limits : PasswordLimits) :
    (∀ wrapped, a.wrap p rng key keyBits held header limits = .ok wrapped →
      wrapped.contentKey.size = keyBits / 8 ∧
      (∀ given, held = some given → wrapped.contentKey = given) ∧
      ∀ own other, key.PrivateOf own → own.permits a.recoveryOperation = true →
        a.Inverts p own → limits.maxIterations < 2 ^ 32 →
          a.unwrap p other own keyBits wrapped.encryptedKey (header.union wrapped.header) limits =
            .ok wrapped.contentKey) ∧
    (a = .direct ∨ a = .ecdhEs none → held.isSome = true →
      a.wrap p rng key keyBits held header limits =
        .error (.invalidOperation (.directKeyShared a.name))) := by
  refine ⟨fun wrapped h => ⟨size_of_wrap h, ?_, ?_⟩, fun hdetermines => ?_⟩
  · rintro given rfl
    exact (wraps_of_wrap h).of_held.2
  · intro own other howner hpermits hinverts hlimit
    exact unwrap_wrap other howner hpermits hinverts hlimit h (carries_union h)
  · have hd : a.determinesKey = true := by rcases hdetermines with rfl | rfl <;> rfl
    exact wrap_of_determinesKey hd

/-- A key that fits every algorithm that takes sixteen bytes. -/
def sharedKey : Jwk := { material := .oct ⟨Array.replicate 16 7⟩ }

/-- A header that names a parameter that is about to be added. -/
def headerWithIv : Object := .ofMembers [("iv", .str "AAAA"), ("kid", .str "k")]

theorem unwrap_wrap_overlaid_iv :
    (∃ wrapped, (aesGcmKeyWrap .aes128).wrap .standard (.ofSeed .empty) sharedKey 256 none
        headerWithIv {} = .ok wrapped ∧
      (aesGcmKeyWrap .aes128).unwrap .standard (.ofSeed .empty) sharedKey 256 wrapped.encryptedKey
        (headerWithIv.union wrapped.header) {} = .ok wrapped.contentKey) ∧
    direct.wrap .standard (.ofSeed .empty) sharedKey 128 (some ⟨Array.replicate 16 1⟩)
      headerWithIv {} = .error (.invalidOperation (.directKeyShared "dir")) := by
  constructor
  · obtain ⟨wrapped, hwrap⟩ : ∃ wrapped, (aesGcmKeyWrap .aes128).wrap .standard (.ofSeed .empty)
        sharedKey 256 none headerWithIv {} = .ok wrapped := isOk_iff.1 (by decide +kernel)
    obtain ⟨-, -, hunwrap⟩ := (unwrap_wrap_overlaid .standard (.ofSeed .empty)
      (aesGcmKeyWrap .aes128) sharedKey 256 none headerWithIv {}).1 wrapped hwrap
    exact ⟨wrapped, hwrap, hunwrap sharedKey _ ⟨rfl, .inl rfl⟩ rfl
      Primitives.standard_opensSealed (by decide)⟩
  · exact (unwrap_wrap_overlaid _ _ direct _ _ _ _ _).2 (.inl rfl) rfl

end SealedToken.KeyManagementAlgorithm
