import SealedToken.Proofs.Rsa.Key
import SealedToken.Rsa.Padding

/-!
What is signed with a consistent private key is verified with its public one, under both
paddings. The filled digest comes back from the public operation as it was; under the newer
padding the salt is found in it again.
-/

namespace SealedToken.Rsa

variable {k : PrivateKey} {h : ShaSize} {message signature : ByteArray} {rng : Entropy} {x : Nat}

/-- A digest takes at most so many bytes. -/
theorem bytes_le (h : ShaSize) : h.bytes ≤ 64 := by
  cases h <;> decide

theorem le_size (hk : k.consistent = true) : 256 ≤ k.size := by
  have hbits := PublicKey.leastBits_le (PrivateKey.isSound_of_consistent hk)
  rw [PublicKey.size, byteLength_eq]
  rw [leastBits] at hbits
  omega

/-- What is signed is a number below the modulus in as many bytes as the modulus takes, and
the public operation gives the filled digest back. -/
theorem signed_of_operate? (hk : k.consistent = true)
    (hs : (k.operate? x).map (Bytes.ofNat k.size) = some signature) :
    signature.size = k.size ∧ Bytes.toNat signature < k.n ∧
      k.toPublicKey.apply (Bytes.toNat signature) = x := by
  obtain ⟨y, hy, rfl⟩ := Option.map_eq_some_iff.1 hs
  obtain ⟨hlt, hundone⟩ := PrivateKey.operate?_eq_some hk hy
  have hfits : y < 256 ^ k.size := Nat.lt_trans hlt Bytes.lt_pow_byteLength
  rw [Bytes.toNat_ofNat, Nat.mod_eq_of_lt hfits]
  exact ⟨Bytes.size_ofNat .., hlt, hundone⟩

namespace Pkcs1

theorem length_digestName (h : ShaSize) : (digestName h).length = 19 := by
  cases h <;> rfl

theorem size_encodeDigest {size : Nat} (hsize : 256 ≤ size) :
    (encodeDigest h size message).size = size := by
  have hbytes := bytes_le h
  have hdigest : (h.digest message).data.toList.length = h.bytes := ShaSize.size_digest h message
  change (0x00 :: 0x01 :: (List.replicate _ 0xff ++ 0x00 :: _)).toArray.size = size
  simp only [List.size_toArray, List.length_cons, List.length_append, List.length_replicate,
    length_digestName, hdigest]
  omega

/-- What is signed is verified. -/
theorem verify_sign? (hk : k.consistent = true) (hs : sign? k h message = some signature) :
    verify k.toPublicKey h message signature = true := by
  obtain ⟨hsize, hlt, hundone⟩ := signed_of_operate? hk hs
  have hencoded := Bytes.ofNat_toNat (@size_encodeDigest h message _ (le_size hk))
  rw [verify, hundone, hsize, hencoded, Bytes.beq_self]
  simp [hlt]

end Pkcs1

/-! ### Masks -/

namespace DigestFunction

variable {f : DigestFunction} {seed : ByteArray}

/-- All digests have the size that is told. -/
def Sized (f : DigestFunction) : Prop := ∀ bytes, (f.digest bytes).size = f.size

theorem sized_sha2 (h : ShaSize) : (sha2 h).Sized := ShaSize.size_digest h

theorem size_foldl_digest (hf : f.Sized) (indices : List Nat) (out : ByteArray) :
    (indices.foldl (fun out i => out ++ f.digest (seed ++ Bytes.ofNat 4 i)) out).size =
      out.size + indices.length * f.size := by
  induction indices generalizing out with
  | nil => simp
  | cons i rest ih =>
      rw [List.foldl_cons, ih, ByteArray.size_append, hf, List.length_cons, Nat.succ_mul]
      omega

theorem size_mask (hf : f.Sized) (hpos : 0 < f.size) (size : Nat) :
    (f.mask seed size).size = size := by
  have hdigests := @size_foldl_digest f seed hf
    (List.range ((size + f.size - 1) / f.size)) ByteArray.empty
  have hdiv := Nat.div_add_mod (size + f.size - 1) f.size
  have hmod := Nat.mod_lt (size + f.size - 1) hpos
  rw [List.length_range, ByteArray.size_empty, Nat.zero_add, Nat.mul_comm] at hdigests
  rw [mask, ByteArray.size_extract, hdigests]
  omega

end DigestFunction

namespace Pss

variable {bits size : Nat} {bytes mask salt : ByteArray} {f : DigestFunction}

/-! ### The low bits -/

@[simp] theorem size_keepBits : (keepBits bits bytes).size = bytes.size := Bytes.size_ofNat ..

theorem toNat_keepBits : Bytes.toNat (keepBits bits bytes) = Bytes.toNat bytes % 2 ^ bits := by
  rw [keepBits, Bytes.toNat_ofNat, Nat.mod_eq_of_lt]
  exact Nat.lt_of_le_of_lt (Nat.mod_le ..) (Bytes.toNat_lt bytes)

theorem keepBits_eq_self (h : Bytes.toNat bytes < 2 ^ bits) : keepBits bits bytes = bytes :=
  Bytes.ext_toNat size_keepBits (by rw [toNat_keepBits, Nat.mod_eq_of_lt h])

@[simp] theorem keepBits_keepBits : keepBits bits (keepBits bits bytes) = keepBits bits bytes := by
  apply keepBits_eq_self
  rw [toNat_keepBits]
  exact Nat.mod_lt _ (Nat.two_pow_pos bits)

/-- A mask takes the low bits to the low bits. -/
theorem keepBits_xor_keepBits (h : bytes.size = mask.size) :
    keepBits bits (Bytes.xor (keepBits bits bytes) mask) = keepBits bits (Bytes.xor bytes mask) := by
  apply Bytes.ext_toNat
  · simp
  · rw [toNat_keepBits, toNat_keepBits, Bytes.toNat_xor (by simpa using h), Bytes.toNat_xor h,
      toNat_keepBits, Nat.xor_mod_two_pow, Nat.xor_mod_two_pow, Nat.mod_mod]

/-! ### The salt -/

theorem size_saltBlock (h : salt.size < size) : (saltBlock size salt).size = size := by
  rw [saltBlock, ByteArray.size_append, ByteArray.size_append, Bytes.size_zeros]
  change size - salt.size - 1 + 1 + salt.size = size
  omega

/-- Only the bit of the one stands above the salt. -/
theorem toNat_saltBlock_lt : Bytes.toNat (saltBlock size salt) < 2 ^ (8 * salt.size + 1) := by
  have hsalt := Bytes.toNat_lt salt
  have hone : Bytes.toNat ⟨#[0x01]⟩ = 1 := rfl
  rw [show (256 : Nat) = 2 ^ 8 from rfl, ← Nat.pow_mul] at hsalt
  rw [saltBlock, Bytes.toNat_append, Bytes.toNat_append, Bytes.toNat_zeros, hone, Nat.zero_mul,
    Nat.zero_add, Nat.one_mul, show (256 : Nat) = 2 ^ 8 from rfl, ← Nat.pow_mul, Nat.pow_succ]
  omega

/-- The salt is the end of its block. -/
theorem extract_saltBlock (h : salt.size < size) :
    (saltBlock size salt).extract (size - salt.size) size = salt := by
  have hfront : (Bytes.zeros (size - salt.size - 1) ++ (⟨#[0x01]⟩ : ByteArray)).size =
      size - salt.size := by
    rw [ByteArray.size_append, Bytes.size_zeros]
    change size - salt.size - 1 + 1 = size - salt.size
    omega
  exact ByteArray.extract_append_eq_right hfront.symm (by omega)

/-! ### The encoded message -/

section

variable {masked digest last : ByteArray}

theorem extract_masked : (masked ++ digest ++ last).extract 0 masked.size = masked := by
  rw [ByteArray.append_assoc]
  exact ByteArray.extract_append_eq_left rfl

theorem extract_digest :
    (masked ++ digest ++ last).extract masked.size (masked.size + digest.size) = digest := by
  have hshift := @ByteArray.extract_append_size_add masked (digest ++ last) 0 digest.size
  rw [Nat.add_zero] at hshift
  rw [ByteArray.append_assoc, hshift]
  exact ByteArray.extract_append_eq_left rfl

theorem extract_last :
    (masked ++ digest ++ last).extract (masked.size + digest.size)
      (masked.size + digest.size + last.size) = last :=
  ByteArray.extract_append_eq_right ByteArray.size_append.symm
    (by rw [ByteArray.size_append])

/-- A masked salt and the digest with it are an encoded message. The mask leaves the bits
above the encoded ones empty. -/
theorem covers_of_parts {low : Nat} (hsalt : salt.size = f.size) (hdigest : digest.size = f.size)
    (hsize : masked.size + f.size + 1 = (bits + 7) / 8) (hroom : f.size + 1 ≤ masked.size)
    (hlow : low = bits - 8 * ((bits + 7) / 8 - masked.size))
    (hkept : keepBits low masked = masked)
    (hunmasked : keepBits low (Bytes.xor masked (f.mask digest masked.size)) =
      saltBlock masked.size salt)
    (hsalted : saltedDigest f message salt = digest) :
    covers f bits message (masked ++ digest ++ ⟨#[0xbc]⟩) = true := by
  have hmasked : (bits + 7) / 8 - f.size - 1 = masked.size := by omega
  have hlast : (bits + 7) / 8 - 1 = masked.size + digest.size := by omega
  have hend : (bits + 7) / 8 = masked.size + digest.size + 1 := by omega
  have hfound : (saltBlock masked.size salt).extract (masked.size - f.size) masked.size = salt := by
    rw [← hsalt]
    exact extract_saltBlock (by omega)
  have hwhole : (masked ++ digest ++ ⟨#[0xbc]⟩).size = masked.size + digest.size + 1 := by
    rw [ByteArray.size_append, ByteArray.size_append]
    rfl
  have hbc : (masked ++ digest ++ ⟨#[0xbc]⟩).extract (masked.size + digest.size)
      (masked.size + digest.size + 1) = ⟨#[0xbc]⟩ := extract_last
  rw [covers, hmasked, hlast, ← hlow, ← hdigest, extract_masked, extract_digest, hunmasked, hend,
    hbc, hwhole, hdigest, hfound, hkept, hsalted]
  simp only [Bytes.beq_self, beq_self_eq_true, Bool.and_true, decide_eq_true_eq]
  omega

end

/-- An encoded message holds the digest of the message. -/
theorem covers_encode (hf : f.Sized) (hpos : 0 < f.size) (hsalt : salt.size = f.size)
    (hbits : f.size + f.size + 2 ≤ (bits + 7) / 8) :
    covers f bits message (encode f bits message salt) = true := by
  let maskedSize := (bits + 7) / 8 - f.size - 1
  let low := bits - 8 * ((bits + 7) / 8 - maskedSize)
  let digest := saltedDigest f message salt
  let block := saltBlock maskedSize salt
  let masked := keepBits low (Bytes.xor block (f.mask digest maskedSize))
  have hblock : block.size = maskedSize := size_saltBlock (by omega)
  have hmask : (f.mask digest maskedSize).size = maskedSize := DigestFunction.size_mask hf hpos _
  have hxored : (Bytes.xor block (f.mask digest maskedSize)).size = maskedSize := by
    rw [Bytes.size_xor, hblock, hmask, Nat.min_self]
  have hmasked : masked.size = maskedSize := size_keepBits.trans hxored
  have hunmasked : keepBits low (Bytes.xor masked (f.mask digest maskedSize)) = block := by
    rw [keepBits_xor_keepBits (hxored.trans hmask.symm),
      Bytes.xor_xor (Nat.le_of_eq (hblock.trans hmask.symm))]
    apply keepBits_eq_self
    refine Nat.lt_of_lt_of_le toNat_saltBlock_lt (Nat.pow_le_pow_right (by decide) ?_)
    omega
  show covers f bits message (masked ++ digest ++ ⟨#[0xbc]⟩) = true
  apply covers_of_parts hsalt (hf _)
  · omega
  · omega
  · rw [hmasked]
  · exact keepBits_keepBits
  · rw [hmasked]
    exact hunmasked
  · rfl

theorem size_of_covers {encoded : ByteArray} (h : covers f bits message encoded = true) :
    encoded.size = (bits + 7) / 8 := by
  simp only [covers, Bool.and_eq_true, decide_eq_true_eq, beq_iff_eq] at h
  omega

/-- What is signed is verified. -/
theorem verify_sign? (hk : k.consistent = true) (hs : sign? rng k h message = some signature) :
    verify k.toPublicKey h message signature = true := by
  let bits := encodedBits k.toPublicKey
  let encoded := encode (.sha2 h) bits message (rng.take h.bytes)
  have hbits : 2047 ≤ bits := by
    have hleast := PublicKey.leastBits_le (PrivateKey.isSound_of_consistent hk)
    rw [leastBits] at hleast
    show 2047 ≤ bitLength k.n - 1
    omega
  have hbytes := bytes_le h
  have hroom : h.bytes + h.bytes + 2 ≤ (bits + 7) / 8 := by omega
  have hcovers : covers (.sha2 h) bits message encoded = true := by
    apply covers_encode (DigestFunction.sized_sha2 h)
    · cases h <;> decide
    · exact Entropy.size_take ..
    · exact hroom
  have hsize := size_of_covers hcovers
  have hfits : Bytes.toNat encoded < 2 ^ (8 * ((bits + 7) / 8)) := by
    have hlt := Bytes.toNat_lt encoded
    rwa [hsize, show (256 : Nat) = 2 ^ 8 from rfl, ← Nat.pow_mul] at hlt
  obtain ⟨hsigned, hbelow, hundone⟩ := signed_of_operate? (x := Bytes.toNat encoded) hk hs
  rw [verify, hundone, Bytes.ofNat_toNat hsize, hsigned, hcovers]
  simp [hbelow, hfits, bits]

end Pss

/-! ### Keys in their encodings -/

variable {padding : SignaturePadding} {n e : ByteArray}

/-- What is signed with the encoding of a private key is verified with the shortest bytes of
the public one. -/
theorem verify_sign? (hsize : k.parts.size < 2 ^ 60)
    (hs : sign? rng padding h k.info message = some signature) :
    verify padding h (Bytes.minimal k.n) (Bytes.minimal k.e) message signature = true := by
  rw [sign?, ofInfo?_info hsize] at hs
  obtain ⟨found, hfound, hs⟩ := Option.bind_eq_some_iff.1 hs
  obtain ⟨hk, hsame⟩ := Option.ite_none_right_eq_some.1 hfound
  obtain rfl := Option.some.inj hsame
  rw [verify, ofBytes?_minimal (PrivateKey.isSound_of_consistent hk)]
  cases padding with
  | pkcs1 => exact Pkcs1.verify_sign? hk hs
  | pss => exact Pss.verify_sign? hk hs

/-- Nothing is verified with bytes that have a zero in front. -/
theorem verify_padded (hpadded : Padded n ∨ Padded e) :
    verify padding h n e message signature = false := by
  rw [verify, ofBytes?_padded hpadded]

end SealedToken.Rsa
