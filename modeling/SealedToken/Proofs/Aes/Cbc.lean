import SealedToken.Primitives.Standard
import SealedToken.Proofs.Aes.Block
import SealedToken.Proofs.ContentEncryption

/-!
Chained blocks are decrypted to what was encrypted: each block stands where it was written, and
behind the block cipher what it was combined with is taken off again. The filling tells its own
size, so the text is found in front of it.
-/

namespace SealedToken

namespace Aes

variable {k : Key} {out source text : ByteArray} {offset : Nat} {last : Block}

/-! ### Bytes of words and blocks -/

/-- The bytes of a word. -/
def wordBytes (x : UInt32) : ByteArray := pushWord .empty x

theorem pushWord_eq (x : UInt32) : pushWord out x = out ++ wordBytes x := by
  simp only [wordBytes, pushWord, ← ByteArray.append_toByteArray_singleton, ByteArray.append_assoc,
    ByteArray.empty_append]

theorem toUInt8_eq (x : UInt32) : x.toUInt8 = .ofNat (x &&& 0xff).toNat := by
  apply UInt8.toNat_inj.1
  rw [UInt32.toNat_toUInt8, UInt8.toNat_ofNat', UInt32.toNat_and]
  exact (Nat.mod_mod _ _).symm.trans (congrArg (· % 256) (and_255 _).symm)

theorem wordBytes_ofBytes (a b c d : UInt8) :
    wordBytes (ofBytes a b c d) = [a, b, c, d].toByteArray := by
  have hbytes (x : UInt32) : wordBytes x =
      [.ofNat (byte0 x), .ofNat (byte1 x), .ofNat (byte2 x), .ofNat (byte3 x)].toByteArray := by
    rw [wordBytes, pushWord, toUInt8_eq x, toUInt8_eq (x >>> 8), toUInt8_eq (x >>> 16)]
    rfl
  simp only [hbytes, bytes_ofBytes, UInt8.ofNat_toNat]

theorem wordBytes_inj {x y : UInt32} (h : wordBytes x = wordBytes y) : x = y := by
  obtain ⟨a, b, c, d, rfl⟩ := exists_ofBytes x
  obtain ⟨a', b', c', d', rfl⟩ := exists_ofBytes y
  rw [wordBytes_ofBytes, wordBytes_ofBytes, List.toByteArray_inj] at h
  simp only [List.cons.injEq, and_true] at h
  obtain ⟨rfl, rfl, rfl, rfl⟩ := h
  rfl

theorem get!_eq {i : Nat} (h : i < source.size) : source.get! i = source[i] :=
  getElem!_pos source.data i h

theorem wordBytes_wordAt {i : Nat} (h : i + 4 ≤ source.size) :
    wordBytes (wordAt source i) = source.extract i (i + 4) := by
  rw [wordAt, wordBytes_ofBytes, get!_eq (by omega), get!_eq (by omega), get!_eq (by omega),
    get!_eq (by omega), ByteArray.extract_add_four h]

/-- The bytes of a block. -/
def Block.bytes (b : Block) : ByteArray :=
  wordBytes b.c0 ++ (wordBytes b.c1 ++ (wordBytes b.c2 ++ wordBytes b.c3))

@[simp] theorem Block.size_bytes (b : Block) : b.bytes.size = blockSize := rfl

theorem Block.pushTo_eq (b : Block) : b.pushTo out = out ++ b.bytes := by
  simp only [pushTo, pushWord_eq, bytes, ByteArray.append_assoc]

theorem Block.bytes_inj {a b : Block} (h : a.bytes = b.bytes) : a = b := by
  have hparts {x y : UInt32} {v w : ByteArray} (h : wordBytes x ++ v = wordBytes y ++ w) :
      x = y ∧ v = w := by
    have hword : wordBytes x = wordBytes y := ByteArray.append_inj_left h rfl
    rw [hword, ByteArray.append_right_inj] at h
    exact ⟨wordBytes_inj hword, h⟩
  obtain ⟨h0, h⟩ := hparts h
  obtain ⟨h1, h⟩ := hparts h
  obtain ⟨h2, h⟩ := hparts h
  obtain ⟨a0, a1, a2, a3⟩ := a
  obtain ⟨b0, b1, b2, b3⟩ := b
  exact congr (congr (congr (congrArg Block.mk h0) h1) h2) (wordBytes_inj h)

theorem Block.bytes_ofBytes (h : offset + blockSize ≤ source.size) :
    (Block.ofBytes source offset).bytes = source.extract offset (offset + blockSize) := by
  have hsize : offset + 16 ≤ source.size := h
  have hjoin {i j : Nat} (hi : offset ≤ i) (hj : i ≤ j) :
      source.extract offset i ++ source.extract i j = source.extract offset j := by
    rw [ByteArray.extract_append_extract, Nat.min_eq_left hi, Nat.max_eq_right hj]
  rw [ofBytes, Block.bytes, wordBytes_wordAt (by omega), wordBytes_wordAt (by omega),
    wordBytes_wordAt (by omega), wordBytes_wordAt (by omega), ← ByteArray.append_assoc,
    ← ByteArray.append_assoc, hjoin (by omega) (by omega), hjoin (by omega) (by omega),
    hjoin (by omega) (by omega)]
  rfl

/-- A block is read where it was written. -/
theorem Block.ofBytes_append (b : Block) (rest : ByteArray) :
    Block.ofBytes (out ++ (b.bytes ++ rest)) out.size = b := by
  apply Block.bytes_inj
  have hfound : (out ++ (b.bytes ++ rest)).extract (out.size + 0) (out.size + b.bytes.size) =
      b.bytes := by
    rw [ByteArray.extract_append_size_add, ByteArray.extract_append_size_left,
      ByteArray.extract_zero_size]
  exact (Block.bytes_ofBytes (by simp)).trans hfound

/-! ### Chains -/

theorem exists_cbcEncryptFrom (blocks : Nat) :
    ∃ rest, cbcEncryptFrom k text offset last out blocks = out ++ rest ∧
      rest.size = blockSize * blocks := by
  induction blocks generalizing offset last out with
  | zero => exact ⟨.empty, ByteArray.append_empty.symm, rfl⟩
  | succ blocks ih =>
      rw [cbcEncryptFrom]
      generalize k.encrypt ((Block.ofBytes text offset).xor last) = next
      obtain ⟨rest, hrest, hsize⟩ := @ih (next.pushTo out) (offset + blockSize) next
      refine ⟨next.bytes ++ rest, ?_, ?_⟩
      · rw [hrest, Block.pushTo_eq, ByteArray.append_assoc]
      · rw [ByteArray.size_append, hsize, Block.size_bytes, Nat.mul_succ, Nat.add_comm]

/-- What is decrypted behind some bytes is what was encrypted behind them. -/
theorem cbcDecryptFrom_cbcEncryptFrom (hk : ∀ x, k.decrypt (k.encrypt x) = x) (blocks : Nat)
    {decrypted : ByteArray} (h : offset + blockSize * blocks ≤ text.size) :
    cbcDecryptFrom k (cbcEncryptFrom k text offset last out blocks) out.size last decrypted
        blocks =
      decrypted ++ text.extract offset (offset + blockSize * blocks) := by
  induction blocks generalizing offset last out decrypted with
  | zero =>
      rw [cbcDecryptFrom, Nat.mul_zero, Nat.add_zero, ByteArray.extract_same,
        ByteArray.append_empty]
  | succ blocks ih =>
      rw [Nat.mul_succ] at h
      have hblock := Block.bytes_ofBytes (show offset + blockSize ≤ text.size by omega)
      have hnext := hk ((Block.ofBytes text offset).xor last)
      rw [cbcEncryptFrom, cbcDecryptFrom]
      generalize k.encrypt ((Block.ofBytes text offset).xor last) = next at hnext
      -- later blocks are written behind this one, so it is what is read here
      have hread : Block.ofBytes
          (cbcEncryptFrom k text (offset + blockSize) next (next.pushTo out) blocks) out.size =
          next := by
        obtain ⟨rest, hrest, -⟩ := @exists_cbcEncryptFrom k (next.pushTo out) text
          (offset + blockSize) next blocks
        rw [hrest, Block.pushTo_eq, ByteArray.append_assoc, Block.ofBytes_append]
      have hsize : out.size + blockSize = (next.pushTo out).size := by
        rw [Block.pushTo_eq, ByteArray.size_append, Block.size_bytes]
      rw [hread, hnext, Block.xor_xor, hsize, ih (by omega), Block.pushTo_eq, hblock,
        ByteArray.append_assoc, ByteArray.extract_append_extract, Nat.min_eq_left (by omega),
        Nat.max_eq_right (by omega), Nat.mul_succ, Nat.add_assoc, Nat.add_comm blockSize]

/-! ### Filling -/

/-- So many bytes that tell their number. -/
def filling (count : Nat) : ByteArray := ⟨Array.replicate count (UInt8.ofNat count)⟩

@[simp] theorem size_filling (count : Nat) : (filling count).size = count := Array.size_replicate

theorem pad_eq : pad text = text ++ filling (blockSize - text.size % blockSize) := rfl

theorem size_pad_mod : (pad text).size % blockSize = 0 := by
  rw [pad_eq, ByteArray.size_append, size_filling, blockSize]
  omega

theorem unpad?_filling {count : Nat} (hpos : 0 < count) (hle : count ≤ blockSize) :
    unpad? (text ++ filling count) = some text := by
  have hsize : (text ++ filling count).size = text.size + count := by
    rw [ByteArray.size_append, size_filling]
  have hcount : (UInt8.ofNat count).toNat = count := by
    rw [UInt8.toNat_ofNat']
    exact Nat.mod_eq_of_lt (Nat.lt_of_le_of_lt hle (by decide))
  have hlast : (text ++ filling count).get! ((text ++ filling count).size - 1) = .ofNat count := by
    rw [get!_eq (by omega), ByteArray.getElem_append_right (by omega)]
    exact Array.getElem_replicate ..
  have hfilling : (text ++ filling count).extract text.size (text.size + count) = filling count :=
    ByteArray.extract_append_eq_right rfl (by rw [size_filling])
  have hall : (filling count).data.all (·.toNat == count) = true := by
    refine Array.all_eq_true.2 fun i hi => ?_
    have hbyte : (filling count).data[i] = .ofNat count := Array.getElem_replicate ..
    rw [hbyte, hcount]
    exact beq_self_eq_true count
  rw [unpad?, if_neg (by omega)]
  dsimp only
  rw [hlast, hcount, hsize, if_neg (by omega), Nat.add_sub_cancel, hfilling, if_pos hall,
    ByteArray.extract_append_eq_left rfl]

theorem cbcDecrypt?_cbcEncrypt (key iv : ByteArray) :
    cbcDecrypt? key iv (cbcEncrypt key iv text) = some text := by
  -- whatever size the key has: its round keys are mirrored
  have hk := (Key.mirrored_ofBytes key).decrypt_encrypt (Key.rounds_ofBytes key)
  have hblocks : blockSize * ((pad text).size / blockSize) = (pad text).size :=
    Nat.mul_div_cancel' (Nat.dvd_of_mod_eq_zero size_pad_mod)
  have hsize : (cbcEncrypt key iv text).size = (pad text).size := by
    obtain ⟨ciphertext, hciphertext, hsize⟩ := @exists_cbcEncryptFrom (Key.ofBytes key) .empty
      (pad text) 0 (Block.ofBytes iv 0) ((pad text).size / blockSize)
    rw [ByteArray.empty_append] at hciphertext
    rw [cbcEncrypt, hciphertext, hsize, hblocks]
  have hdecrypted := @cbcDecryptFrom_cbcEncryptFrom (Key.ofBytes key) .empty (pad text) 0
    (Block.ofBytes iv 0) hk ((pad text).size / blockSize) .empty (by omega)
  rw [ByteArray.size_empty, ByteArray.empty_append, Nat.zero_add, hblocks,
    ByteArray.extract_zero_size] at hdecrypted
  have hmod := Nat.mod_lt text.size (show 0 < blockSize by decide)
  rw [cbcDecrypt?, hsize, size_pad_mod, if_neg (by simp)]
  exact (congrArg unpad? hdecrypted).trans (unpad?_filling (by omega) (by omega))

end Aes

/-- The standard operations decrypt the chained blocks that they have encrypted. -/
theorem Primitives.standard_decryptsBlocks : Primitives.standard.DecryptsBlocks := by
  intro s key iv text hkey hiv
  simp only [Primitives.standard]
  exact Aes.cbcDecrypt?_cbcEncrypt key iv

end SealedToken
