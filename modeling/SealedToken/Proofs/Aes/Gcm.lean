import SealedToken.Primitives.Standard
import SealedToken.Proofs.Bytes.Number
import SealedToken.Proofs.ContentEncryption

/-!
Counter mode undoes itself: the key stream depends on nothing but the size of a text, and
a text that is combined with it twice is the text again.
-/

namespace SealedToken

namespace Aes

variable {k : Key} {first start : Block} {out text : ByteArray}

/-! ### The key stream -/

@[simp] theorem size_pushTo (b : Block) : (b.pushTo out).size = out.size + blockSize := by
  simp [Block.pushTo, pushWord, blockSize, ByteArray.size_push]

theorem size_keyStream (blocks : Nat) :
    (keyStream k start out blocks).size = out.size + blockSize * blocks := by
  induction blocks generalizing start out with
  | zero => rfl
  | succ blocks ih =>
      rw [keyStream, ih, size_pushTo, Nat.mul_succ]
      omega

/-- The blocks of a text hold all of it. -/
theorem le_blockCount (size : Nat) : size ≤ blockSize * blockCount size := by
  have hdiv := Nat.div_add_mod (size + blockSize - 1) blockSize
  have hmod := Nat.mod_lt (size + blockSize - 1) (show 0 < blockSize by decide)
  rw [blockCount]
  omega

/-- The key stream reaches to the end of a text. -/
theorem le_size_keyStream (size : Nat) :
    size ≤ (keyStream k start .empty (blockCount size)).size := by
  rw [size_keyStream, ByteArray.size_empty, Nat.zero_add]
  exact le_blockCount size

/-! ### Texts -/

theorem counterMode_eq_xor :
    counterMode k first text = Bytes.xor text
      (keyStream k { first with c3 := first.c3 + 1 } .empty (blockCount text.size)) := rfl

theorem size_counterMode : (counterMode k first text).size = text.size := by
  rw [counterMode_eq_xor, Bytes.size_xor]
  exact Nat.min_eq_left (le_size_keyStream text.size)

theorem counterMode_counterMode :
    counterMode k first (counterMode k first text) = text := by
  rw [counterMode_eq_xor, size_counterMode, counterMode_eq_xor]
  exact Bytes.xor_xor (le_size_keyStream text.size)

theorem gcmOpen?_gcmSeal (key iv aad : ByteArray) :
    gcmOpen? key iv aad (gcmSeal key iv aad text).1 (gcmSeal key iv aad text).2 = some text := by
  rw [gcmOpen?, gcmSeal, if_pos rfl, counterMode_counterMode]

theorem size_gcmTag {aad ciphertext : ByteArray} :
    (gcmTag k first aad ciphertext).size = blockSize := by
  rw [gcmTag, size_pushTo, ByteArray.size_empty, Nat.zero_add]

theorem size_gcmSeal (key iv aad : ByteArray) : (gcmSeal key iv aad text).2.size = blockSize := by
  rw [gcmSeal, size_gcmTag]

end Aes

/-- What the standard operations seal they open. -/
theorem Primitives.standard_opensSealed : Primitives.standard.OpensSealed := by
  intro s key iv aad text hkey hiv
  simp only [Primitives.standard]
  exact ⟨Aes.size_gcmSeal key iv aad, Aes.gcmOpen?_gcmSeal key iv aad⟩

end SealedToken
