import SealedToken.Proofs.Der
import SealedToken.Rsa.Key

/-!
RSA keys as numbers and as bytes. The encoding of a private key stands for its numbers,
whatever zeros are in front of them; the bytes of a public key do only without such zeros.
What the private operation answers is below the modulus, and undone by the public one.
-/

namespace SealedToken

/-! ### Powers -/

namespace Modular

variable {m base exponent acc : Nat}

theorem powFrom_lt {bits : Nat} (hm : 0 < m) (hacc : acc < m) :
    powFrom m base exponent acc bits < m := by
  induction bits generalizing acc with
  | zero => exact hacc
  | succ bits ih =>
      rw [powFrom]
      apply ih
      split <;> exact Nat.mod_lt _ hm

theorem pow_lt (hm : 0 < m) : pow m base exponent < m :=
  powFrom_lt hm (Nat.mod_lt _ hm)

end Modular

namespace Rsa

/-! ### Numbers as bytes -/

/-- The members of a private key in their shortest bytes. -/
def PrivateKey.parts (k : PrivateKey) : Der.RsaParts :=
  ⟨Der.minimalBytes k.n, Der.minimalBytes k.e, Der.minimalBytes k.d, Der.minimalBytes k.p,
    Der.minimalBytes k.q, Der.minimalBytes k.dp, Der.minimalBytes k.dq, Der.minimalBytes k.qi⟩

/-- The encoding of a private key. -/
def PrivateKey.info (k : PrivateKey) : List UInt8 := Der.rsaPrivateInfo k.parts

variable {k : PrivateKey} {x y : Nat}

theorem numberOf_minimalBytes (n : Nat) : numberOf (Der.minimalBytes n) = n :=
  Der.spelled_minimalBytes

theorem minimalBytes_numberOf (bytes : List UInt8) :
    Der.minimalBytes (numberOf bytes) = Der.stripZeros bytes :=
  Der.minimalBytes_spelled

theorem ofParts_parts (k : PrivateKey) : PrivateKey.ofParts k.parts = k := by
  simp [PrivateKey.ofParts, PrivateKey.parts, numberOf_minimalBytes]

theorem parts_ofParts (m : Der.RsaParts) :
    (PrivateKey.ofParts m).parts = m.map Der.stripZeros := by
  simp [PrivateKey.ofParts, PrivateKey.parts, Der.RsaParts.map, minimalBytes_numberOf]

/-- Members with zeros in front are encoded as their numbers are. -/
theorem rsaPrivateInfo_eq_info (m : Der.RsaParts) :
    Der.rsaPrivateInfo m = (PrivateKey.ofParts m).info := by
  rw [PrivateKey.info, parts_ofParts, Der.rsaPrivateInfo_stripZeros]

/-- The encoding of a private key is read as the key. -/
theorem ofInfo?_info (h : k.parts.size < 2 ^ 60) :
    PrivateKey.ofInfo? k.info = if k.consistent then some k else none := by
  rw [PrivateKey.ofInfo?, PrivateKey.info, Der.readRsaPrivateInfo_rsaPrivateInfo h,
    ← parts_ofParts, ofParts_parts]
  dsimp only
  rw [ofParts_parts]

/-! ### Bytes as they are -/

/-- Bytes begin with a zero. -/
def Padded (bytes : ByteArray) : Prop := bytes.data.toList.head? = some 0

instance (bytes : ByteArray) : Decidable (Padded bytes) :=
  inferInstanceAs (Decidable (_ = _))

theorem ofBytes?_padded {n e : ByteArray} (h : Padded n ∨ Padded e) :
    PublicKey.ofBytes? n e = none := by
  rw [PublicKey.ofBytes?, if_pos]
  exact h.imp (fun h => by rw [h]; rfl) fun h => by rw [h]; rfl

theorem ofBytes?_minimal {k : PublicKey} (h : k.isSound = true) :
    PublicKey.ofBytes? (Bytes.minimal k.n) (Bytes.minimal k.e) = some k := by
  have hne : k.n ≠ 0 ∧ k.e ≠ 0 := by
    simp only [PublicKey.isSound, Bool.and_eq_true, beq_iff_eq] at h
    omega
  have hhead {n : Nat} (hn : n ≠ 0) : (Bytes.minimal n).data.toList.head?.getD 0 ≠ 0 := by
    obtain ⟨b, bytes, hbytes, hb⟩ := Bytes.minimal_eq_cons hn
    rw [hbytes]
    exact hb
  rw [PublicKey.ofBytes?, if_neg (by simp [hhead hne.1, hhead hne.2]), Bytes.toNat_minimal,
    Bytes.toNat_minimal]
  dsimp only
  rw [if_pos h]

/-! ### Sizes -/

/-- A number takes its bits, rounded up to bytes. -/
theorem byteLength_eq (n : Nat) : Bytes.byteLength n = (bitLength n + 7) / 8 := by
  rw [Bytes.byteLength, bitLength]
  split <;> omega

theorem PublicKey.leastBits_le {k : PublicKey} (h : k.isSound = true) :
    leastBits ≤ bitLength k.n := by
  simp only [PublicKey.isSound, PublicKey.sized, Bool.and_eq_true, decide_eq_true_eq, beq_iff_eq]
    at h
  omega

/-! ### The private operation -/

theorem PrivateKey.isSound_of_consistent (h : k.consistent = true) :
    k.toPublicKey.isSound = true := by
  grind [PrivateKey.consistent]

theorem PrivateKey.factors (h : k.consistent = true) : 1 < k.p ∧ 1 < k.q ∧ k.p * k.q = k.n := by
  simp only [PrivateKey.consistent, Bool.and_eq_true, decide_eq_true_eq, beq_iff_eq] at h
  omega

/-- From residues below the factors a number below the modulus is made. -/
theorem PrivateKey.applyResidues_lt (h : k.consistent = true) : k.applyResidues x < k.n := by
  obtain ⟨hp, hq, hn⟩ := PrivateKey.factors h
  have hlow : Modular.pow k.q x k.dq < k.q := Modular.pow_lt (by omega)
  have hhigh : k.qi * (Modular.pow k.p x k.dp + k.p - Modular.pow k.q x k.dq % k.p) % k.p < k.p :=
    Nat.mod_lt _ (by omega)
  rw [PrivateKey.applyResidues]
  calc _ < k.q + (k.p - 1) * k.q := by
        exact Nat.add_lt_add_of_lt_of_le hlow (Nat.mul_le_mul_right _ (by omega))
    _ = k.p * k.q := by
        rw [Nat.sub_mul, Nat.one_mul]
        have hle : k.q ≤ k.p * k.q := Nat.le_mul_of_pos_left _ (by omega)
        omega
    _ = k.n := hn

/-- What is answered is below the modulus, and the public operation undoes it. -/
theorem PrivateKey.operate?_eq_some (h : k.consistent = true) (hy : k.operate? x = some y) :
    y < k.n ∧ k.toPublicKey.apply y = x := by
  obtain ⟨hp, hq, hn⟩ := PrivateKey.factors h
  rw [PrivateKey.operate?] at hy
  split at hy
  · simp at hy
  · dsimp only at hy
    rw [Option.ite_none_right_eq_some] at hy
    obtain ⟨hundone, hsame⟩ := hy
    obtain rfl := Option.some.inj hsame
    refine ⟨?_, hundone⟩
    split
    · exact PrivateKey.applyResidues_lt h
    · exact Modular.pow_lt (hn ▸ Nat.mul_pos (by omega) (by omega))

end Rsa

end SealedToken
