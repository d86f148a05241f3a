import SealedToken.Proofs.Bytes
import SealedToken.Proofs.KeyManagement.Recovery

/-!
Keys that are derived from a shared secret. The derivation counts without a bound and writes
its numbers into four bytes. Here it is written a second time with words of 32 bits, into which
lengths are cut, and with a counter that must not run over. Both give the same key as long as
the size of the key fits a word: the first bytes of the digests one behind the other.

What a digest is taken of tells everything that went into it, because each part of the context
stands behind its length, and a length that fits a word is not cut.
-/

namespace SealedToken.KeyDerivation

/-! ### Words -/

/-- A word of 32 bits, most significant byte first. -/
def wordBytes (w : UInt32) : ByteArray :=
  ⟨#[(w >>> 24).toUInt8, (w >>> 16).toUInt8, (w >>> 8).toUInt8, w.toUInt8]⟩

/-- Bytes behind their length, as far as a word holds it. -/
def framed (bytes : ByteArray) : ByteArray := wordBytes (.ofNat bytes.size) ++ bytes

/-- What the digest with a number is taken of. -/
def hashed (secret : ByteArray) (c : Context) (counter : UInt32) : ByteArray :=
  wordBytes counter ++ secret ++ framed c.algorithm ++ framed c.producer ++ framed c.consumer ++
    wordBytes (.ofNat c.keyBits)

/-- The digest with a number. -/
def wordBlock (secret : ByteArray) (c : Context) (counter : UInt32) : ByteArray :=
  ShaSize.sha256.digest (hashed secret c counter)

theorem size_wordBlock (secret : ByteArray) (c : Context) (counter : UInt32) :
    (wordBlock secret c counter).size = 32 :=
  ShaSize.size_digest _ _

/-- So many digests one behind the other, numbered from one. -/
def blocks (secret : ByteArray) (c : Context) : (count : Nat) → ByteArray
  | 0 => .empty
  | count + 1 => blocks secret c count ++ wordBlock secret c (.ofNat (count + 1))

/-- Append digests until there are enough bytes. A counter that would run over is a failure. -/
def extendWord (secret : ByteArray) (c : Context) (size : Nat) (out : ByteArray)
    (counter : UInt32) : Option ByteArray :=
  if out.size < size then
    if counter.toNat + 1 < 2 ^ 32 then
      extendWord secret c size (out ++ wordBlock secret c counter) (counter + 1)
    else none
  else some out
termination_by size - out.size
decreasing_by
  rw [ByteArray.size_append, size_wordBlock]
  omega

/-- The key of a shared secret, derived with words of 32 bits. -/
def deriveWord (secret : ByteArray) (c : Context) : Option ByteArray :=
  let size := c.keyBits / 8
  (extendWord secret c size .empty 1).map fun out => out.extract 0 size

/-- Lengths and a size that fit words. -/
structure Context.Fits (c : Context) : Prop where
  algorithm : c.algorithm.size < 2 ^ 32
  producer : c.producer.size < 2 ^ 32
  consumer : c.consumer.size < 2 ^ 32
  keyBits : c.keyBits < 2 ^ 32

variable {secret other out x y : ByteArray} {c d : Context} {size counter m n : Nat}
  {i j v w : UInt32}

/-- The byte that stands so many bits above the lowest one. -/
theorem toUInt8_shiftRight (w : UInt32) {shift n : Nat} (hshift : shift < 32)
    (hn : w.toNat / 2 ^ shift % 256 = n % 256) : (w >>> .ofNat shift).toUInt8 = UInt8.ofNat n := by
  have hsmall : (UInt32.ofNat shift).toNat = shift := by
    rw [UInt32.toNat_ofNat']
    omega
  apply UInt8.toNat_inj.1
  rw [UInt32.toNat_toUInt8, UInt32.toNat_shiftRight, hsmall, Nat.mod_eq_of_lt hshift,
    Nat.shiftRight_eq_div_pow, UInt8.toNat_ofNat']
  exact hn

theorem wordBytes_eq (w : UInt32) : wordBytes w = Bytes.ofNat 4 w.toNat := by
  have h24 := @toUInt8_shiftRight w 24 (w.toNat / 256 / 256 / 256) (by decide) (by omega)
  have h16 := @toUInt8_shiftRight w 16 (w.toNat / 256 / 256) (by decide) (by omega)
  have h8 := @toUInt8_shiftRight w 8 (w.toNat / 256) (by decide) (by omega)
  have h0 : w.toUInt8 = UInt8.ofNat w.toNat := rfl
  simp only [wordBytes, Bytes.ofNat, Bytes.digits]
  rw [← h24, ← h16, ← h8, ← h0]
  rfl

/-- Four bytes of a number are those of the word that it is cut to. -/
theorem ofNat_four (n : Nat) : Bytes.ofNat 4 n = wordBytes (.ofNat n) := by
  rw [wordBytes_eq]
  apply Bytes.ext_toNat
  · simp
  · rw [Bytes.toNat_ofNat, Bytes.toNat_ofNat, UInt32.toNat_ofNat']
    exact (Nat.mod_mod _ _).symm

@[simp] theorem size_wordBytes (w : UInt32) : (wordBytes w).size = 4 := rfl

theorem wordBytes_injective (h : wordBytes v = wordBytes w) : v = w := by
  rw [wordBytes_eq, wordBytes_eq] at h
  exact UInt32.toNat_inj.1 (Bytes.ofNat_injective v.toNat_lt w.toNat_lt h)

theorem framed_eq (bytes : ByteArray) : withLength bytes = framed bytes := by
  rw [withLength, framed, ofNat_four]

theorem block_eq (secret : ByteArray) (c : Context) (counter : Nat) :
    block secret c counter = wordBlock secret c (.ofNat counter) := by
  rw [block, wordBlock, hashed, Context.encode, framed_eq, framed_eq, framed_eq, ofNat_four,
    ofNat_four]
  simp only [ByteArray.append_assoc]

/-! ### The counter -/

/-- How many digests are still to be appended to so many bytes. -/
def missing (size held : Nat) : Nat := (size - held + 31) / 32

/-- With a counter that cannot run over, counting in words is counting. -/
theorem extendWord_eq (h : counter + missing size out.size < 2 ^ 32) :
    extendWord secret c size out (.ofNat counter) = some (extend secret c size out counter) := by
  induction out, counter using extend.induct secret c size with
  | case1 out counter hlt ih =>
      rw [missing] at h
      have hcounter : (UInt32.ofNat counter).toNat = counter := by
        rw [UInt32.toNat_ofNat']
        omega
      have hroom : (UInt32.ofNat counter).toNat + 1 < 2 ^ 32 := by omega
      have hnext : UInt32.ofNat counter + 1 = .ofNat (counter + 1) := by
        rw [UInt32.ofNat_add]
        rfl
      have hmissing : counter + 1 + missing size (out ++ block secret c counter).size < 2 ^ 32 := by
        rw [missing, ByteArray.size_append, size_block]
        omega
      rw [extendWord, if_pos hlt, if_pos hroom, extend, if_pos hlt, hnext, ← block_eq]
      exact ih hmissing
  | case2 out counter hle => rw [extendWord, if_neg hle, extend, if_neg hle]

theorem deriveWord_eq (h : c.keyBits < 2 ^ 32) : deriveWord secret c = some (derive secret c) := by
  have hcounter : 1 + missing (c.keyBits / 8) ByteArray.empty.size < 2 ^ 32 := by
    rw [missing, ByteArray.size_empty]
    omega
  have hextend := @extendWord_eq secret .empty c (c.keyBits / 8) 1 hcounter
  rw [deriveWord, derive]
  exact congrArg (Option.map _) hextend

/-! ### The digests one behind the other -/

theorem size_blocks : (blocks secret c n).size = 32 * n := by
  induction n with
  | zero => rfl
  | succ n ih =>
      rw [blocks, ByteArray.size_append, ih, size_wordBlock]
      omega

/-- The first bytes do not depend on how many digests follow. -/
theorem extract_blocks (hsize : size ≤ 32 * m) (h : m ≤ n) :
    (blocks secret c n).extract 0 size = (blocks secret c m).extract 0 size := by
  induction n, h using Nat.le_induction with
  | base => rfl
  | succ n hle ih =>
      have hbehind : size - (blocks secret c n).size = 0 := by
        rw [size_blocks]
        omega
      rw [blocks, ByteArray.extract_append, hbehind, Nat.zero_sub, ByteArray.extract_same, ih,
        ByteArray.append_empty]

/-- Digests are appended in the order of their numbers. -/
theorem exists_extend_eq (hout : out = blocks secret c n) (hcounter : counter = n + 1) :
    ∃ count, extend secret c size out counter = blocks secret c count := by
  induction out, counter using extend.induct secret c size generalizing n with
  | case1 out counter hlt ih =>
      rw [extend, if_pos hlt]
      refine ih ?_ (congrArg (· + 1) hcounter)
      rw [hout, hcounter, block_eq, blocks]
  | case2 out counter hle =>
      rw [extend, if_neg hle]
      exact ⟨n, hout⟩

/-- A derived key is the front of the digests, as soon as these are enough. -/
theorem derive_eq_extract (h : c.keyBits / 8 ≤ 32 * n) :
    derive secret c = (blocks secret c n).extract 0 (c.keyBits / 8) := by
  obtain ⟨count, hcount⟩ := @exists_extend_eq secret .empty c (c.keyBits / 8) 1 0 rfl rfl
  have hsize : c.keyBits / 8 ≤ 32 * count := by
    rw [← @size_blocks secret c count, ← hcount]
    exact le_size_extend ..
  rw [derive, hcount]
  rcases Nat.le_total count n with hle | hle
  · exact (extract_blocks hsize hle).symm
  · exact extract_blocks h hle

/-! ### What tells the context -/

/-- A number that fits a word is told by the word. -/
theorem eq_of_ofNat (hm : m < 2 ^ 32) (hn : n < 2 ^ 32) (h : UInt32.ofNat m = .ofNat n) :
    m = n := by
  have hnat := congrArg UInt32.toNat h
  rwa [UInt32.toNat_ofNat', UInt32.toNat_ofNat', Nat.mod_eq_of_lt hm, Nat.mod_eq_of_lt hn] at hnat

theorem wordBytes_append_inj (h : wordBytes v ++ x = wordBytes w ++ y) : v = w ∧ x = y := by
  have hsize : (wordBytes v).size = (wordBytes w).size := rfl
  obtain ⟨hword, hrest⟩ := (ByteArray.append_eq_append_iff_of_size_eq_left hsize).1 h
  exact ⟨wordBytes_injective hword, hrest⟩

/-- Bytes behind their length are told from what follows them. -/
theorem framed_append_inj {a b : ByteArray} (ha : a.size < 2 ^ 32) (hb : b.size < 2 ^ 32)
    (h : framed a ++ x = framed b ++ y) : a = b ∧ x = y := by
  rw [framed, framed, ByteArray.append_assoc, ByteArray.append_assoc] at h
  obtain ⟨hword, hrest⟩ := wordBytes_append_inj h
  have hsize : a.size = b.size := eq_of_ofNat ha hb hword
  exact (ByteArray.append_eq_append_iff_of_size_eq_left hsize).1 hrest

/-- The whole tells its parts, from the first on. -/
theorem hashed_injective (hsize : secret.size = other.size) (hc : c.Fits) (hd : d.Fits)
    (h : hashed secret c i = hashed other d j) : i = j ∧ secret = other ∧ c = d := by
  simp only [hashed, ByteArray.append_assoc] at h
  obtain ⟨hcounter, hparts⟩ := wordBytes_append_inj h
  obtain ⟨hsecret, hcontext⟩ :=
    (ByteArray.append_eq_append_iff_of_size_eq_left hsize).1 hparts
  obtain ⟨halgorithm, hparties⟩ := framed_append_inj hc.algorithm hd.algorithm hcontext
  obtain ⟨hproducer, hothers⟩ := framed_append_inj hc.producer hd.producer hparties
  obtain ⟨hconsumer, hlast⟩ := framed_append_inj hc.consumer hd.consumer hothers
  have hkeyBits := eq_of_ofNat hc.keyBits hd.keyBits (wordBytes_injective hlast)
  refine ⟨hcounter, hsecret, ?_⟩
  obtain ⟨algorithm, producer, consumer, keyBits⟩ := c
  rw [Context.mk.injEq]
  exact ⟨halgorithm, hproducer, hconsumer, hkeyBits⟩

/-- A key whose lengths and size fit words is derived with words of 32 bits as well, and the
counter does not run over. It is the front of the digests numbered from one. For secrets of one
size what a digest is taken of tells its number, the secret and the context. -/
theorem derived_from_numbered_digests :
    (∀ secret : ByteArray, ∀ c : Context, c.Fits →
      deriveWord secret c = some (derive secret c) ∧
      (derive secret c).size = c.keyBits / 8 ∧
      ∀ count, c.keyBits / 8 ≤ 32 * count →
        derive secret c = (blocks secret c count).extract 0 (c.keyBits / 8)) ∧
    ∀ (secret other : ByteArray) (c d : Context) (i j : UInt32),
      secret.size = other.size → c.Fits → d.Fits → hashed secret c i = hashed other d j →
      i = j ∧ secret = other ∧ c = d :=
  ⟨fun secret c hc =>
      ⟨deriveWord_eq hc.keyBits, size_derive secret c, fun _ hcount => derive_eq_extract hcount⟩,
    fun _ _ _ _ _ _ hsize hc hd h => hashed_injective hsize hc hd h⟩

/-- A context with a key that takes one and a half digests. -/
def aliceToBob : Context :=
  ⟨"A192CBC-HS384".toUTF8, "Alice".toUTF8, "Bob".toUTF8, 384⟩

/-- The context with a byte moved from the producer to the consumer. -/
def movedByte : Context :=
  ⟨"A192CBC-HS384".toUTF8, "Alic".toUTF8, "eBob".toUTF8, 384⟩

theorem moved_byte_told :
    aliceToBob.Fits ∧ movedByte.Fits ∧
      deriveWord (Bytes.zeros 32) aliceToBob = some (derive (Bytes.zeros 32) aliceToBob) ∧
      (derive (Bytes.zeros 32) aliceToBob).size = 48 ∧
      derive (Bytes.zeros 32) aliceToBob =
        (wordBlock (Bytes.zeros 32) aliceToBob 1 ++
          wordBlock (Bytes.zeros 32) aliceToBob 2).extract 0 48 ∧
      hashed (Bytes.zeros 32) aliceToBob 1 ≠ hashed (Bytes.zeros 32) movedByte 1 := by
  have halice : aliceToBob.Fits := ⟨by decide, by decide, by decide, by decide⟩
  have hmoved : movedByte.Fits := ⟨by decide, by decide, by decide, by decide⟩
  have hproducers : aliceToBob.producer.size ≠ movedByte.producer.size := by decide
  obtain ⟨hderives, htold⟩ := derived_from_numbered_digests
  obtain ⟨hword, hsize, hfront⟩ := hderives (Bytes.zeros 32) aliceToBob halice
  have htwo : blocks (Bytes.zeros 32) aliceToBob 2 =
      wordBlock (Bytes.zeros 32) aliceToBob 1 ++ wordBlock (Bytes.zeros 32) aliceToBob 2 := by
    rw [blocks, blocks, blocks, ByteArray.empty_append]
    rfl
  refine ⟨halice, hmoved, hword, hsize, ?_, fun h => ?_⟩
  · rw [← htwo]
    exact hfront 2 (by decide)
  · obtain ⟨-, -, hcontext⟩ := htold _ _ _ _ _ _ rfl halice hmoved h
    exact hproducers (congrArg (fun c : Context => c.producer.size) hcontext)

end SealedToken.KeyDerivation
