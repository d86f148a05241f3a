import SealedToken.KeyManagement.Basic
import SealedToken.Proofs.Jwe.Sealing

/-!
What the choice without a branch gives: the bytes that were written if they are a key, and
the substitute in every other case. The rest of the buffer has no part in it.
-/

namespace SealedToken

/-! ### Masks -/

namespace Bytes

variable {a b : ByteArray}

@[simp] theorem selectByte_false (x y : UInt8) : selectByte false x y = x := by
  have hmask : (0 : UInt8) - false.toUInt8 = 0 := rfl
  rw [selectByte, hmask, UInt8.zero_and, UInt8.xor_zero]

@[simp] theorem selectByte_true (x y : UInt8) : selectByte true x y = y := by
  have hmask : (0 : UInt8) - true.toUInt8 = -1 := rfl
  rw [selectByte, hmask, UInt8.neg_one_and, ← UInt8.xor_assoc, UInt8.xor_self, UInt8.zero_xor]

/-- Of two strings of one size either is selected as it is. -/
theorem select_eq (chosen : Bool) (h : a.size = b.size) :
    select chosen a b = if chosen then b else a := by
  have hsize : (select chosen a b).data.size = b.size := by
    rw [select, Array.size_zipWith]
    exact Nat.min_eq_right (Nat.le_of_eq h.symm)
  cases chosen with
  | false => exact ByteArray.ext (Array.ext (hsize.trans h.symm) fun i _ _ => by simp [select])
  | true => exact ByteArray.ext (Array.ext hsize fun i _ _ => by simp [select])

end Bytes

/-! ### Buffers -/

namespace Output

variable {out : Output} {keySize : Nat} {substitute : ByteArray}

/-- The result that a buffer holds. -/
def text? (out : Output) : Option ByteArray :=
  if out.succeeded then some (Bytes.front out.buffer out.written out.written_le) else none

@[simp] theorem text?_ofResult {size : Nat} {result : Option ByteArray} :
    (ofResult size result).text? = result := by
  cases result with
  | none => rfl
  | some text => simp [ofResult, text?, Bytes.front, ByteArray.extract_append_eq_left rfl]

theorem size_candidate : (out.candidate keySize).size = keySize := by
  rw [candidate, Bytes.size_overwrite, Bytes.size_zeros]

/-- What was written is copied as it is when it has the size of a key. -/
theorem candidate_of_written (h : out.written = keySize) :
    out.candidate keySize = Bytes.front out.buffer out.written out.written_le := by
  subst h
  have hcopied : out.copied out.written = out.written := Nat.min_self _
  simp [candidate, Bytes.overwrite, Bytes.front, hcopied, Nat.min_eq_left out.written_le]

/-- The key is what was written if that has the size of a key, and else the substitute. -/
theorem selectKey_eq (hsize : substitute.size = keySize) :
    out.selectKey keySize substitute =
      (out.text?.filter fun text => text.size = keySize).getD substitute := by
  rw [selectKey, Bytes.select_eq _ (hsize.trans size_candidate.symm), text?]
  cases out.succeeded with
  | false => rfl
  | true =>
      by_cases hwritten : out.written = keySize
      · simp [hwritten, candidate_of_written hwritten, Option.filter]
      · simp [hwritten, Option.filter]

end Output

namespace KeyManagementAlgorithm

variable {p : Primitives} {key : Jwk} {info : List UInt8}

theorem acceptedRsaPrivate_eq_ok :
    acceptedRsaPrivate p key = .ok info ↔
      key.rsaPrivate .unwrapKey = .ok info ∧ p.rsaAcceptsDecrypting info = true := by
  rw [acceptedRsaPrivate, bind_eq_ok]
  constructor
  · rintro ⟨found, hfound, h⟩
    split at h
    · next haccepts =>
        obtain rfl := Except.ok.inj h
        exact ⟨hfound, haccepts⟩
    · simp at h
  · rintro ⟨hinfo, haccepts⟩
    exact ⟨info, hinfo, by simp [haccepts]⟩

/-- With a private key that is accepted a key always comes out: what was decrypted if that
is a key, and else random bytes. -/
theorem unwrapRsaPkcs1_of_accepted (h : acceptedRsaPrivate p key = .ok info) (rng : Entropy)
    (keySize : Nat) (encryptedKey : ByteArray) :
    unwrapRsaPkcs1 p rng key keySize encryptedKey =
      .ok (((p.rsaDecrypt? .pkcs1 info encryptedKey).filter fun text =>
        text.size = keySize).getD (rng.take keySize)) := by
  rw [unwrapRsaPkcs1, h, ok_bind]
  dsimp only
  rw [Output.selectKey_eq (rng.size_take keySize), Output.text?_ofResult]
  rfl

/-- What comes out has the size of a key. -/
theorem exists_unwrapRsaPkcs1 (h : acceptedRsaPrivate p key = .ok info) (rng : Entropy)
    (keySize : Nat) (encryptedKey : ByteArray) :
    ∃ contentKey, unwrapRsaPkcs1 p rng key keySize encryptedKey = .ok contentKey ∧
      contentKey.size = keySize := by
  refine ⟨_, unwrapRsaPkcs1_of_accepted h rng keySize encryptedKey, ?_⟩
  cases hfound : (p.rsaDecrypt? .pkcs1 info encryptedKey).filter fun text => text.size = keySize with
  | none => exact rng.size_take keySize
  | some text => simpa using (Option.filter_eq_some_iff.1 hfound).2

/-- The check of the size is passed by whatever comes out. -/
theorem unwrap_rsaPkcs1 (p : Primitives) (rng : Entropy) (key : Jwk) (keyBits : Nat)
    (encryptedKey : ByteArray) (header : Object) (limits : PasswordLimits) :
    unwrap p rng .rsaPkcs1 key keyBits encryptedKey header limits =
      unwrapRsaPkcs1 p rng key (keyBits / 8) encryptedKey := by
  rw [unwrap, recover]
  cases haccepted : acceptedRsaPrivate p key with
  | error error => simp [unwrapRsaPkcs1, haccepted]
  | ok info =>
      obtain ⟨contentKey, hunwrap, hsize⟩ :=
        exists_unwrapRsaPkcs1 haccepted rng (keyBits / 8) encryptedKey
      rw [hunwrap, ok_bind, Jwe.checkKeySize_eq_ok.2 hsize]
      rfl

end KeyManagementAlgorithm

end SealedToken
