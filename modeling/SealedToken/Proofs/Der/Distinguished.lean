import SealedToken.Proofs.Der

/-!
What the distinguished encoding prescribes, said without the writer: a length stands in a form
than which none is shorter, and an integer has no byte too many, at every depth. The encodings
of keys keep to it, and what is read of them are the numbers that were written.
-/

namespace SealedToken.Der

/-! ### Rules -/

/-- The forms of a length: a byte below 128, or the count of its digits and these. The count
of all ones is reserved. -/
inductive LengthForm : Nat → List UInt8 → Prop
  | short {b : UInt8} (h : b < 0x80) : LengthForm b.toNat [b]
  | long {digits : List UInt8} (hnonempty : digits ≠ []) (hcount : digits.length < 127) :
      LengthForm (Bytes.spelled digits) (UInt8.ofNat (128 + digits.length) :: digits)

/-- A form of a length than which none is shorter. -/
structure ShortestForm (n : Nat) (form : List UInt8) : Prop where
  spells : LengthForm n form
  least : ∀ other, LengthForm n other → form.length ≤ other.length

/-- The content of an integer that is not negative, with no byte too many: a zero in front is
all there is, or keeps the sign bit clear. -/
inductive Minimal : List UInt8 → Prop
  | zero : Minimal [0]
  | plain {b : UInt8} {rest : List UInt8} (hpositive : 0 < b) (hsign : b < 0x80) :
      Minimal (b :: rest)
  | padded {b : UInt8} {rest : List UInt8} (hsign : 0x80 ≤ b) : Minimal (0 :: b :: rest)

/-- A value that keeps to the rules, with all values inside it. Strings of octets and of bits
hold a value, the latter with no bits unused. -/
inductive Distinguished : List UInt8 → Prop
  | integer {content form : List UInt8} (hminimal : Minimal content)
      (hform : ShortestForm content.length form) :
      Distinguished (Tag.integer.byte :: (form ++ content))
  | identifier {content form : List UInt8} (hform : ShortestForm content.length form) :
      Distinguished (0x06 :: (form ++ content))
  | null : Distinguished [0x05, 0x00]
  | bitString {value form : List UInt8} (hvalue : Distinguished value)
      (hform : ShortestForm (value.length + 1) form) :
      Distinguished (Tag.bitString.byte :: (form ++ 0x00 :: value))
  | octetString {value form : List UInt8} (hvalue : Distinguished value)
      (hform : ShortestForm value.length form) :
      Distinguished (Tag.octetString.byte :: (form ++ value))
  | sequence {parts : List (List UInt8)} {form : List UInt8}
      (hparts : ∀ part ∈ parts, Distinguished part)
      (hform : ShortestForm parts.flatten.length form) :
      Distinguished (Tag.sequence.byte :: (form ++ parts.flatten))

variable {magnitude value : List UInt8} {n : Nat}

/-! ### Lengths -/

theorem lengthForm_length (h : n < 256 ^ lengthLimit) : LengthForm n (length n) := by
  rw [length]
  split
  · next hshort =>
      have hform := LengthForm.short (ofNat_short_lt hshort)
      rwa [toNat_short hshort] at hform
  · next hlong =>
      have hcount : (minimalBytes n).length < 127 :=
        Nat.lt_of_le_of_lt (length_minimalBytes_le h) (by decide)
      have hform := LengthForm.long (List.length_pos_iff.1 (length_minimalBytes_pos hlong)) hcount
      rwa [spelled_minimalBytes] at hform

/-- No form is shorter than the one that is written. -/
theorem shortestForm_length (h : n < 256 ^ lengthLimit) : ShortestForm n (length n) where
  spells := lengthForm_length h
  least other hother := by
    cases hother with
    | @short b hb =>
        have hn : b.toNat < 128 := UInt8.lt_iff_toNat_lt.1 hb
        rw [length, if_pos hn]
        simp
    | @long digits hnonempty hcount =>
        have hpos := List.length_pos_iff.2 hnonempty
        rw [length, List.length_cons]
        split
        · rw [List.length_singleton]
          omega
        · rw [List.length_cons, length_minimalBytes]
          exact Nat.succ_le_succ (Bytes.byteLength_le Bytes.spelled_lt)

/-! ### Values -/

theorem minimal_integerContent : Minimal (integerContent magnitude) := by
  rw [integerContent]
  split
  · exact .zero
  · next b rest heq =>
      have hb : b ≠ 0 := by
        have hhead := List.head?_dropWhile_not (· == 0) magnitude
        rw [stripZeros] at heq
        simpa [heq] using hhead
      split
      · next hsign => exact .plain (UInt8.pos_iff_ne_zero.2 hb) hsign
      · next hsign => exact .padded (UInt8.not_lt.1 hsign)

theorem distinguished_integer (h : magnitude.length + 1 < 256 ^ lengthLimit) :
    Distinguished (integer magnitude) := by
  have hlength := @length_integerContent_le magnitude
  exact .integer minimal_integerContent (shortestForm_length (by omega))

theorem distinguished_sequence {parts : List (List UInt8)}
    (hparts : ∀ part ∈ parts, Distinguished part)
    (h : parts.flatten.length < 256 ^ lengthLimit) : Distinguished (sequence parts) :=
  .sequence hparts (shortestForm_length h)

theorem distinguished_octetString (hvalue : Distinguished value)
    (h : value.length < 256 ^ lengthLimit) : Distinguished (element .octetString value) :=
  .octetString hvalue (shortestForm_length h)

theorem distinguished_bitString (hvalue : Distinguished value)
    (h : value.length + 1 < 256 ^ lengthLimit) :
    Distinguished (element .bitString (0x00 :: value)) :=
  .bitString hvalue (shortestForm_length h)

/-- The content of the identifier of the algorithm. -/
def rsaIdentifier : List UInt8 := [0x2a, 0x86, 0x48, 0x86, 0xf7, 0x0d, 0x01, 0x01, 0x01]

theorem distinguished_rsaAlgorithm : Distinguished rsaAlgorithm := by
  have hidentifier : Distinguished (0x06 :: (length rsaIdentifier.length ++ rsaIdentifier)) :=
    .identifier (shortestForm_length (by decide))
  have hparts : ∀ part ∈ [0x06 :: (length rsaIdentifier.length ++ rsaIdentifier), [0x05, 0x00]],
      Distinguished part := by
    simp only [List.forall_mem_cons]
    exact ⟨hidentifier, .null, by simp⟩
  exact distinguished_sequence hparts (by decide)

/-! ### Private RSA keys -/

theorem distinguished_privateMembers {k : RsaParts} (h : k.size < 2 ^ 60) :
    ∀ part ∈ privateMembers k, Distinguished part := by
  have hlimit : 256 ^ lengthLimit = 2 ^ 64 := rfl
  rw [privateMembers, List.forall_mem_map]
  intro m hm
  have hle : m.length ≤ ([0] :: k.toList).flatten.length :=
    (List.sublist_flatten_of_mem hm).length_le
  have hsum : ([0] :: k.toList).flatten.length = k.size + 1 := rfl
  exact distinguished_integer (by omega)

theorem distinguished_rsaPrivateInfo {k : RsaParts} (h : k.size < 2 ^ 60) :
    Distinguished (rsaPrivateInfo k) := by
  have hlimit : 256 ^ lengthLimit = 2 ^ 64 := rfl
  have hmembers := length_privateMembers_lt h
  obtain ⟨hkey, hinfo⟩ := length_infoParts_lt h
  have hparts : ∀ part ∈ infoParts k, Distinguished part := by
    simp only [infoParts, List.forall_mem_cons]
    refine ⟨distinguished_integer (by decide), distinguished_rsaAlgorithm, ?_, by simp⟩
    have hsequence := distinguished_sequence (distinguished_privateMembers h) (by omega)
    exact distinguished_octetString hsequence (by omega)
  show Distinguished (sequence (infoParts k))
  exact distinguished_sequence hparts (by omega)

/-! ### Public RSA keys -/

section

variable {n e : List UInt8}

/-- The members of a public key, as they stand inside its encoding. -/
def publicMembers (n e : List UInt8) : List (List UInt8) := [integer n, integer e]

/-- What an encoding of a public key consists of. -/
def publicParts (n e : List UInt8) : List (List UInt8) :=
  [rsaAlgorithm, element .bitString (0x00 :: sequence (publicMembers n e))]

theorem length_publicMembers_lt (h : n.length + e.length < 2 ^ 60) :
    (publicMembers n e).flatten.length < 2 ^ 61 := by
  have hlimit : 256 ^ lengthLimit = 2 ^ 64 := rfl
  have hsum : [n, e].flatten.length = n.length + e.length := by simp
  have hmembers : (publicMembers n e).flatten.length ≤
      [n, e].flatten.length + [n, e].length * (overhead + 1) :=
    @length_integers_le [n, e] (by omega)
  have hcount : [n, e].length * (overhead + 1) = 22 := rfl
  omega

theorem length_publicParts_lt (h : n.length + e.length < 2 ^ 60) :
    (sequence (publicMembers n e)).length < 2 ^ 62 ∧
      (publicParts n e).flatten.length < 2 ^ 63 := by
  have hlimit : 256 ^ lengthLimit = 2 ^ 64 := rfl
  have hmembers := length_publicMembers_lt h
  have hkey := @length_sequence_le (publicMembers n e) (by omega)
  rw [show overhead = 10 from rfl] at hkey
  have hbits := @length_element_le .bitString (0x00 :: sequence (publicMembers n e))
    (by rw [List.length_cons]; omega)
  rw [show overhead = 10 from rfl, List.length_cons] at hbits
  have hsum : (publicParts n e).flatten.length =
      15 + (element .bitString (0x00 :: sequence (publicMembers n e))).length := by
    simp only [publicParts, List.flatten_cons, List.flatten_nil, List.append_nil,
      List.length_append]
    rfl
  omega

theorem distinguished_rsaPublicInfo (h : n.length + e.length < 2 ^ 60) :
    Distinguished (rsaPublicInfo n e) := by
  have hlimit : 256 ^ lengthLimit = 2 ^ 64 := rfl
  have hmembers := length_publicMembers_lt h
  obtain ⟨hkey, hinfo⟩ := length_publicParts_lt h
  have hintegers : ∀ part ∈ publicMembers n e, Distinguished part := by
    simp only [publicMembers, List.forall_mem_cons]
    exact ⟨distinguished_integer (by omega), distinguished_integer (by omega), by simp⟩
  have hparts : ∀ part ∈ publicParts n e, Distinguished part := by
    simp only [publicParts, List.forall_mem_cons]
    refine ⟨distinguished_rsaAlgorithm, ?_, by simp⟩
    have hsequence := distinguished_sequence hintegers (by omega)
    exact distinguished_bitString hsequence (by omega)
  show Distinguished (sequence (publicParts n e))
  exact distinguished_sequence hparts (by omega)

/-- The encoding of a public key is read as its members, without zeros in front, and nothing is
left over at any depth. -/
theorem readRsaPublicInfo_rsaPublicInfo (h : n.length + e.length < 2 ^ 60) :
    readRsaPublicInfo (rsaPublicInfo n e) =
      .ok (stripZeros n, stripZeros e, [[], [], [], []]) := by
  have hlimit : 256 ^ lengthLimit = 2 ^ 64 := rfl
  have hmembers := length_publicMembers_lt h
  obtain ⟨hkey, hinfo⟩ := length_publicParts_lt h
  have hread := @read_sequence [] (publicParts n e) (by omega)
  rw [List.append_nil] at hread
  rw [readRsaPublicInfo, show rsaPublicInfo n e = sequence (publicParts n e) from rfl, hread,
    ok_bind]
  dsimp only [publicParts]
  rw [List.flatten_cons, rsaAlgorithm_eq, read_element (by decide), ok_bind]
  dsimp only
  rw [List.flatten_cons, read_element (by rw [List.length_cons]; omega), ok_bind]
  dsimp only
  have hsequence := @read_sequence [] (publicMembers n e) (by omega)
  rw [List.append_nil] at hsequence
  rw [List.drop_one, List.tail_cons, hsequence, ok_bind]
  dsimp only [publicMembers]
  rw [List.flatten_cons, readInteger_integer (by omega), ok_bind]
  dsimp only
  rw [List.flatten_cons, readInteger_integer (by omega), ok_bind]
  rfl

end

/-- Keys are written in the distinguished encoding, and their members are read without the zeros
in front of them; of a public key nothing is left over. -/
theorem rsa_keys_read_back :
    (∀ k : RsaParts, k.size < 2 ^ 60 →
      readRsaPrivateInfo (rsaPrivateInfo k) = .ok (k.map stripZeros) ∧
        Distinguished (rsaPrivateInfo k)) ∧
    ∀ n e : List UInt8, n.length + e.length < 2 ^ 60 →
      readRsaPublicInfo (rsaPublicInfo n e) =
          .ok (stripZeros n, stripZeros e, [[], [], [], []]) ∧
        Distinguished (rsaPublicInfo n e) :=
  ⟨fun _ h => ⟨readRsaPrivateInfo_rsaPrivateInfo h, distinguished_rsaPrivateInfo h⟩,
    fun _ _ h => ⟨readRsaPublicInfo_rsaPublicInfo h, distinguished_rsaPublicInfo h⟩⟩

/-- Members at the edges: zeros in front, nothing, only zeros, and contents of 127, 128, 255 and
256 bytes, also with the sign bit set. -/
def edgeParts : RsaParts where
  n := 0x00 :: 0x00 :: List.replicate 127 0x80
  e := []
  d := [0x00, 0x00, 0x00]
  p := List.replicate 127 0x7f
  q := List.replicate 128 0x7f
  dp := List.replicate 255 0x01
  dq := List.replicate 255 0xff
  qi := [0x00, 0x01]

theorem edgeParts_read_back :
    edgeParts.size < 2 ^ 60 ∧
      readRsaPrivateInfo (rsaPrivateInfo edgeParts) =
        .ok { edgeParts with n := List.replicate 127 0x80, d := [], qi := [0x01] } ∧
      Distinguished (rsaPrivateInfo edgeParts) ∧
      readRsaPublicInfo (rsaPublicInfo edgeParts.n edgeParts.e) =
        .ok (List.replicate 127 0x80, [], [[], [], [], []]) ∧
      Distinguished (rsaPublicInfo edgeParts.n edgeParts.e) := by
  have hprivate : edgeParts.size < 2 ^ 60 := by decide +kernel
  have hpublic : edgeParts.n.length + edgeParts.e.length < 2 ^ 60 := by decide +kernel
  obtain ⟨hread, hdistinguished⟩ := rsa_keys_read_back.1 edgeParts hprivate
  obtain ⟨hread', hdistinguished'⟩ := rsa_keys_read_back.2 edgeParts.n edgeParts.e hpublic
  exact ⟨hprivate, hread, hdistinguished, hread', hdistinguished'⟩

end SealedToken.Der
