import SealedToken.Proofs.Deflate.Coding

/-!
Compressed bytes expand to the bytes that were compressed. The tokens found so far always expand
to the bytes they stand for, whatever the places are at which copies are looked for.
-/

namespace SealedToken.Deflate

variable {bytes : ByteArray} {seen : Array Nat} {i j length distance most : Nat}

theorem push_byteAt (h : i < bytes.size) :
    (bytes.extract 0 i).push (byteAt bytes i) = bytes.extract 0 (i + 1) := by
  have hbyte : bytes.extract i (i + 1) = [byteAt bytes i].toByteArray := by
    rw [byteAt, dif_pos h, ByteArray.extract_add_one h]
  rw [← ByteArray.append_toByteArray_singleton, ← hbyte, ByteArray.extract_append_extract]
  congr 1
  omega

theorem byteAt_extract (h : j < i) (hi : i ≤ bytes.size) :
    byteAt (bytes.extract 0 i) j = byteAt bytes j := by
  have hparts : bytes.extract 0 i ++ bytes.extract i bytes.size = bytes := by
    rw [ByteArray.extract_append_extract, Nat.zero_min, Nat.max_eq_right hi,
      ByteArray.extract_zero_size]
  conv_rhs => rw [← hparts]
  rw [byteAt_append]
  rw [ByteArray.size_extract]
  omega

/-! ### Copies -/

theorem matchLength_le : matchLength bytes j i most ≤ most := by
  induction most generalizing i j with
  | zero => exact Nat.le_refl _
  | succ most ih =>
      rw [matchLength]
      split
      · exact Nat.succ_le_succ ih
      · exact Nat.zero_le _

theorem add_matchLength_le (hi : i ≤ bytes.size) : i + matchLength bytes j i most ≤ bytes.size := by
  induction most generalizing i j with
  | zero => exact hi
  | succ most ih =>
      rw [matchLength]
      split
      · next hagree =>
          have hrest := @ih (i + 1) (j + 1) hagree.1
          omega
      · exact hi

/-- What agrees with bytes further back is repeated from there, also where the two overlap. -/
theorem repeatBack_matchLength (hj : j < i) (hi : i ≤ bytes.size) :
    repeatBack (i - j) (bytes.extract 0 i) (matchLength bytes j i most) =
      bytes.extract 0 (i + matchLength bytes j i most) := by
  induction most generalizing i j with
  | zero => rfl
  | succ most ih =>
      rw [matchLength]
      split
      · next hagree =>
          obtain ⟨hlt, hsame⟩ := hagree
          have hsize : (bytes.extract 0 i).size = i := by
            rw [ByteArray.size_extract]
            omega
          have hback : i - (i - j) = j := by omega
          have hrest := @ih (i + 1) (j + 1) (by omega) hlt
          rw [Nat.add_sub_add_right] at hrest
          rw [repeatBack, hsize, if_pos (Nat.sub_le _ _), hback, byteAt_extract hj hi, hsame,
            push_byteAt hlt, hrest]
          congr 1
          omega
      · rfl

/-- A copy is found only where it can be written and stands for the next bytes. -/
structure Found (bytes : ByteArray) (i length distance : Nat) : Prop where
  valid : (Token.copy length distance).Valid
  within : i + length ≤ bytes.size
  stands : repeatBack distance (bytes.extract 0 i) length = bytes.extract 0 (i + length)

theorem found_of_findCopy (h : findCopy bytes seen i = some (length, distance)) :
    Found bytes i length distance := by
  unfold findCopy at h
  split at h
  · simp at h
  · next hsize =>
      split at h
      · simp at h
      · next j _ =>
          dsimp only at h
          split at h
          · next hworth =>
              obtain ⟨hj, hfar, hleast⟩ := hworth
              obtain ⟨rfl, rfl⟩ := Prod.mk.inj (Option.some.inj h)
              exact ⟨⟨hleast, matchLength_le, Nat.sub_pos_of_lt hj, hfar⟩,
                add_matchLength_le (by omega), repeatBack_matchLength hj (by omega)⟩
          · simp at h

/-! ### Tokens -/

/-- Tokens stand for the bytes up to a position. -/
structure Cover (bytes : ByteArray) (done : List Token) (i : Nat) : Prop where
  valid : ∀ t ∈ done, t.Valid
  within : i ≤ bytes.size
  stands : done.foldl Token.appendTo .empty = bytes.extract 0 i

theorem Cover.push {done : Array Token} {t : Token} (h : Cover bytes done.toList i) (ht : t.Valid)
    (hj : j ≤ bytes.size) (happend : t.appendTo (bytes.extract 0 i) = bytes.extract 0 j) :
    Cover bytes (done.push t).toList j where
  valid := by
    rw [Array.toList_push, List.forall_mem_append]
    exact ⟨h.valid, by simpa using ht⟩
  within := hj
  stands := by
    rw [Array.toList_push, List.foldl_append, h.stands]
    exact happend

theorem cover_tokensFrom {done : Array Token} {fuel : Nat} (h : Cover bytes done.toList i)
    (hfuel : bytes.size - i ≤ fuel) :
    Cover bytes (tokensFrom bytes seen i done fuel).toList bytes.size := by
  induction fuel generalizing seen i done with
  | zero =>
      obtain rfl : i = bytes.size := Nat.le_antisymm h.within (by omega)
      exact h
  | succ fuel ih =>
      rw [tokensFrom]
      split
      · next hall =>
          obtain rfl : i = bytes.size := Nat.le_antisymm h.within hall
          exact h
      · next hmore =>
          dsimp only
          split
          · next length distance hfound =>
              obtain ⟨hvalid, hwithin, hstands⟩ := found_of_findCopy hfound
              have hpos : leastCopy ≤ length := hvalid.1
              rw [leastCopy] at hpos
              exact ih (h.push hvalid hwithin hstands) (by omega)
          · exact ih (h.push trivial (by omega) (push_byteAt (by omega))) (by omega)

theorem cover_tokens (bytes : ByteArray) : Cover bytes (tokens bytes).toList bytes.size :=
  cover_tokensFrom ⟨by simp, Nat.zero_le _, by simp⟩ (Nat.sub_le _ _)

/-- Compressed bytes are complete and expand to what was compressed. -/
theorem expands_deflate (bytes : ByteArray) : Expands (deflate bytes) bytes := by
  obtain ⟨hvalid, -, hstands⟩ := cover_tokens bytes
  have hexpands := expands_pack hvalid
  rwa [hstands, ByteArray.extract_zero_size, ← deflate_eq_pack] at hexpands

end SealedToken.Deflate
