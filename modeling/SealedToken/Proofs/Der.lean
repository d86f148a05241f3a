import Mathlib.Data.List.DropRight
import SealedToken.Der.KeyInfo
import SealedToken.Proofs.Bytes.Number
import SealedToken.Proofs.Outcome

/-!
What is written in the distinguished encoding is read again. Numbers are written without
the zeros in front of them, so the encoding of a key depends on its numbers only.
-/

namespace SealedToken.Der

variable {tag : Tag} {content rest magnitude : List UInt8} {n : Nat}

/-! ### Lengths -/

theorem length_minimalBytes : (minimalBytes n).length = Bytes.byteLength n :=
  Bytes.size_ofNat ..

theorem spelled_minimalBytes : Bytes.spelled (minimalBytes n) = n := by
  rw [minimalBytes, ← Bytes.toNat_eq_spelled, Bytes.toNat_minimal]

theorem minimalBytes_spelled : minimalBytes (Bytes.spelled magnitude) = stripZeros magnitude :=
  Bytes.minimal_spelled

/-- The first byte of a long length tells how many others there are. -/
theorem toNat_count {count : Nat} (h : count ≤ lengthLimit) :
    (UInt8.ofNat (128 + count)).toNat = 128 + count := by
  rw [lengthLimit] at h
  exact UInt8.toNat_ofNat_of_lt (show 128 + count < 256 by omega)

/-- A length below 128 is its only byte. -/
theorem toNat_short (h : n < 128) : (UInt8.ofNat n).toNat = n :=
  UInt8.toNat_ofNat_of_lt (show n < 256 by omega)

theorem ofNat_short_lt (h : n < 128) : UInt8.ofNat n < 0x80 := by
  rw [UInt8.lt_iff_toNat_lt, toNat_short h]
  exact h

theorem length_minimalBytes_le (h : n < 256 ^ lengthLimit) :
    (minimalBytes n).length ≤ lengthLimit := by
  rw [length_minimalBytes]
  exact Bytes.byteLength_le h

theorem length_minimalBytes_pos (h : ¬ n < 128) : 0 < (minimalBytes n).length := by
  rw [length_minimalBytes]
  exact Bytes.byteLength_pos (show n ≠ 0 by omega)

/-- A length is read when its bytes are within the limit. -/
theorem readLength_length (h : n < 256 ^ lengthLimit) :
    readLength (length n ++ rest) = .ok (n, rest) := by
  rw [length]
  split
  · next hshort =>
      rw [List.singleton_append, readLength, if_pos (ofNat_short_lt hshort), toNat_short hshort]
  · next hlong =>
      have hcount := length_minimalBytes_le h
      have hpos := length_minimalBytes_pos hlong
      have hfirst := toNat_count hcount
      have hge : ¬ UInt8.ofNat (128 + (minimalBytes n).length) < 0x80 := by
        rw [UInt8.lt_iff_toNat_lt, hfirst]
        simp
      have hvalue : (minimalBytes n).foldl (fun n b => n * 256 + b.toNat) 0 = n :=
        spelled_minimalBytes
      have hshown : ¬ ((minimalBytes n).length = 0 ∨ lengthLimit < (minimalBytes n).length ∨
          (minimalBytes n ++ rest).length < (minimalBytes n).length) := by
        rw [List.length_append]
        omega
      dsimp only
      rw [List.cons_append, readLength, if_neg hge, hfirst, Nat.add_sub_cancel_left]
      dsimp only
      rw [if_neg hshown, List.take_left, List.drop_left, hvalue]

/-! ### Values -/

theorem read_element (h : content.length < 256 ^ lengthLimit) :
    read tag (element tag content ++ rest) = .ok (content, rest) := by
  rw [element, List.cons_append, read, if_neg (by simp), List.append_assoc, readLength_length h,
    ok_bind]
  dsimp only
  rw [if_neg (by simp), List.take_left, List.drop_left]

theorem length_length_le (h : n < 256 ^ lengthLimit) : (length n).length ≤ lengthLimit + 1 := by
  rw [length]
  split
  · simp
  · exact Nat.succ_le_succ (length_minimalBytes_le h)

/-- How much longer the encoding of a value is than its content. -/
def overhead : Nat := lengthLimit + 2

theorem length_element_le (h : content.length < 256 ^ lengthLimit) :
    (element tag content).length ≤ content.length + overhead := by
  have hlength := length_length_le h
  rw [element, List.length_cons, List.length_append, overhead]
  omega

/-! ### Integers -/

@[simp] theorem stripZeros_stripZeros : stripZeros (stripZeros magnitude) = stripZeros magnitude :=
  List.dropWhile_idempotent ..

theorem length_stripZeros_le : (stripZeros magnitude).length ≤ magnitude.length :=
  (List.dropWhile_sublist _).length_le

/-- Zeros in front are not written. -/
@[simp] theorem integer_stripZeros : integer (stripZeros magnitude) = integer magnitude := by
  rw [integer, integerContent, stripZeros_stripZeros]
  rfl

theorem length_integerContent_le : (integerContent magnitude).length ≤ magnitude.length + 1 := by
  have hstrip := @length_stripZeros_le magnitude
  rw [integerContent]
  split
  · simp
  · next b rest heq =>
      rw [heq] at hstrip
      split <;> simp only [List.length_cons] at hstrip ⊢ <;> omega

/-- The content of an integer is not negative, and it is read without zeros in front. -/
theorem integerContent_cases :
    ∃ b bytes, integerContent magnitude = b :: bytes ∧ b < 0x80 ∧
      stripZeros (b :: bytes) = stripZeros magnitude := by
  rw [integerContent]
  split
  · next heq => exact ⟨0, [], rfl, by decide, by rw [heq]; rfl⟩
  · next b bytes heq =>
      have hstrip : stripZeros (b :: bytes) = b :: bytes := by
        rw [← heq, stripZeros_stripZeros]
      split
      · next hb => exact ⟨b, bytes, rfl, hb, by rw [heq, hstrip]⟩
      · refine ⟨0, b :: bytes, rfl, by decide, ?_⟩
        rw [heq, stripZeros, List.dropWhile_cons_of_pos (by simp)]
        exact hstrip

theorem readInteger_integer (h : magnitude.length + 1 < 256 ^ lengthLimit) :
    readInteger (integer magnitude ++ rest) = .ok (stripZeros magnitude, rest) := by
  have hlength := @length_integerContent_le magnitude
  obtain ⟨b, bytes, hcontent, hb, hstrip⟩ := @integerContent_cases magnitude
  rw [readInteger, integer, read_element (by omega), ok_bind, hcontent]
  dsimp only
  rw [if_pos hb, hstrip]

theorem length_integer_le (h : magnitude.length + 1 < 256 ^ lengthLimit) :
    (integer magnitude).length ≤ magnitude.length + (overhead + 1) := by
  have hlength := @length_integerContent_le magnitude
  have helement := @length_element_le .integer (integerContent magnitude) (by omega)
  rw [integer]
  omega

/-! ### Sequences -/

theorem read_sequence {parts : List (List UInt8)} (h : parts.flatten.length < 256 ^ lengthLimit) :
    read .sequence (sequence parts ++ rest) = .ok (parts.flatten, rest) :=
  read_element h

theorem length_sequence_le {parts : List (List UInt8)}
    (h : parts.flatten.length < 256 ^ lengthLimit) :
    (sequence parts).length ≤ parts.flatten.length + overhead :=
  length_element_le h

/-- Integers in a row take little more than their magnitudes. -/
theorem length_integers_le {magnitudes : List (List UInt8)}
    (h : magnitudes.flatten.length + 1 < 256 ^ lengthLimit) :
    (magnitudes.map integer).flatten.length ≤
      magnitudes.flatten.length + magnitudes.length * (overhead + 1) := by
  induction magnitudes with
  | nil => simp
  | cons m others ih =>
      rw [List.flatten_cons, List.length_append] at h
      have hfirst := @length_integer_le m (by omega)
      have hothers := ih (by omega)
      rw [List.map_cons, List.flatten_cons, List.length_append, List.flatten_cons,
        List.length_append, List.length_cons, Nat.succ_mul]
      omega

/-! ### Private RSA keys -/

/-- How many bytes the members of a key take. -/
def RsaParts.size (k : RsaParts) : Nat := k.toList.flatten.length

/-- The encoding of a key depends on its numbers only. -/
theorem rsaPrivateInfo_stripZeros (k : RsaParts) :
    rsaPrivateInfo (k.map stripZeros) = rsaPrivateInfo k := by
  simp [rsaPrivateInfo, RsaParts.map, RsaParts.toList]

theorem rsaAlgorithm_eq : rsaAlgorithm = element .sequence (rsaAlgorithm.drop 2) := by
  decide

/-- The members of a private key, as they stand inside its encoding. -/
def privateMembers (k : RsaParts) : List (List UInt8) := ([0] :: k.toList).map integer

theorem length_privateMembers_lt {k : RsaParts} (h : k.size < 2 ^ 60) :
    (privateMembers k).flatten.length < 2 ^ 61 := by
  have hlimit : 256 ^ lengthLimit = 2 ^ 64 := rfl
  have hsum : ([0] :: k.toList).flatten.length = k.size + 1 := rfl
  have hmembers := @length_integers_le ([0] :: k.toList) (by omega)
  have hcount : ([0] :: k.toList).length * (overhead + 1) = 99 := rfl
  rw [privateMembers]
  omega

/-- What an encoding of a private key consists of. -/
def infoParts (k : RsaParts) : List (List UInt8) :=
  [integer [0], rsaAlgorithm, element .octetString (sequence (privateMembers k))]

theorem length_infoParts_lt {k : RsaParts} (h : k.size < 2 ^ 60) :
    (sequence (privateMembers k)).length < 2 ^ 62 ∧ (infoParts k).flatten.length < 2 ^ 63 := by
  have hlimit : 256 ^ lengthLimit = 2 ^ 64 := rfl
  have hmembers := length_privateMembers_lt h
  have hkey := @length_sequence_le (privateMembers k) (by omega)
  rw [show overhead = 10 from rfl] at hkey
  have hoctets := @length_element_le .octetString (sequence (privateMembers k)) (by omega)
  rw [show overhead = 10 from rfl] at hoctets
  have hsum : (infoParts k).flatten.length =
      3 + (15 + (element .octetString (sequence (privateMembers k))).length) := by
    simp only [infoParts, List.flatten_cons, List.flatten_nil, List.append_nil,
      List.length_append]
    rfl
  omega

/-- The key inside its encoding. -/
theorem readPrivateInfo_rsaPrivateInfo {k : RsaParts} (h : k.size < 2 ^ 60) :
    readPrivateInfo (rsaPrivateInfo k) = .ok (sequence (privateMembers k)) := by
  have hlimit : 256 ^ lengthLimit = 2 ^ 64 := rfl
  obtain ⟨hkey, hinfo⟩ := length_infoParts_lt h
  have hread := @read_sequence [] (infoParts k) (by omega)
  rw [List.append_nil] at hread
  rw [readPrivateInfo, show rsaPrivateInfo k = sequence (infoParts k) from rfl, hread, ok_bind]
  dsimp only [infoParts]
  rw [List.flatten_cons, readInteger_integer (by decide), ok_bind]
  dsimp only
  rw [List.flatten_cons, rsaAlgorithm_eq, read_element (by decide), ok_bind]
  dsimp only
  rw [List.flatten_cons, read_element (by omega), ok_bind]

/-- The encoding of a private key is read as its members, without zeros in front. -/
theorem readRsaPrivateInfo_rsaPrivateInfo {k : RsaParts} (h : k.size < 2 ^ 60) :
    readRsaPrivateInfo (rsaPrivateInfo k) = .ok (k.map stripZeros) := by
  have hlimit : 256 ^ lengthLimit = 2 ^ 64 := rfl
  have hmembers := length_privateMembers_lt h
  have hread := @read_sequence [] (privateMembers k) (by omega)
  rw [List.append_nil] at hread
  rw [readRsaPrivateInfo, readPrivateInfo_rsaPrivateInfo h, ok_bind, hread, ok_bind]
  obtain ⟨n, e, d, p, q, dp, dq, qi⟩ := k
  simp only [RsaParts.size, RsaParts.toList, List.flatten_cons, List.length_append] at h
  have hinteger {m rest : List UInt8} (hm : m.length < 2 ^ 60) :
      readInteger (integer m ++ rest) = .ok (stripZeros m, rest) :=
    readInteger_integer (by omega)
  have hversion : ([0] : List UInt8).length < 2 ^ 60 := by decide
  simp (disch := omega) only [privateMembers, RsaParts.toList, List.map_cons, List.map_nil,
    List.flatten_cons, hinteger, ok_bind]
  rfl

end SealedToken.Der
