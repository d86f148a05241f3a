import Mathlib.Tactic.Common
import SealedToken.Bytes.Base64Url
import SealedToken.Text.Blank

/-!
What is written for bytes spells them. Reading is strict: a text that spells bytes is the
one text that spells them.
-/

namespace SealedToken.Base64Url

/-! ### Digits -/

theorem toNat_lt_of_value? {c : Char} {v : Nat} (h : value? c = some v) : c.toNat < 128 := by
  by_contra hlarge
  have hne (limit : Char) (hlimit : limit.toNat < 128) : ¬ c ≤ limit := by
    intro hle
    have hle' : c.toNat ≤ limit.toNat := Char.le_def.1 hle
    omega
  have hZ := hne 'Z' (by decide)
  have hz := hne 'z' (by decide)
  have h9 := hne '9' (by decide)
  have hdash : c ≠ '-' := fun heq => hne '-' (by decide) (heq ▸ Std.le_refl _)
  have hlow : c ≠ '_' := fun heq => hne '_' (by decide) (heq ▸ Std.le_refl _)
  simp [value?, hZ, hz, h9, hdash, hlow] at h

theorem digit_of_value?_ofNat : ∀ n < 128,
    (value? (Char.ofNat n)).all (fun v => v < 64 && digit v == Char.ofNat n) = true := by
  decide

/-- A digit is the one of its value. -/
theorem digit_of_value? {c : Char} {v : Nat} (h : value? c = some v) : v < 64 ∧ digit v = c := by
  have hall := digit_of_value?_ofNat c.toNat (toNat_lt_of_value? h)
  rw [Char.ofNat_toNat, h] at hall
  simpa using hall

/-! ### Digits in a row -/

theorem writeOnto_of_readOnto {done out : List UInt8} {digits : List Char}
    (h : readOnto done digits = some out) :
    ∃ bytes, out = bytes.reverse ++ done ∧
      ∀ written, writeOnto written bytes = digits.reverse ++ written := by
  induction done, digits using readOnto.induct generalizing out with
  | case1 done w x y z rest ih =>
      simp only [readOnto, Option.bind_eq_bind, Option.bind_eq_some_iff] at h
      obtain ⟨vw, hw, vx, hx, vy, hy, vz, hz, h⟩ := h
      obtain ⟨bytes, rfl, hbytes⟩ := ih vw vx vy vz h
      obtain ⟨hw, rfl⟩ := digit_of_value? hw
      obtain ⟨hx, rfl⟩ := digit_of_value? hx
      obtain ⟨hy, rfl⟩ := digit_of_value? hy
      obtain ⟨hz, rfl⟩ := digit_of_value? hz
      generalize hn : ((vw * 64 + vx) * 64 + vy) * 64 + vz = n
      refine ⟨UInt8.ofNat (n / 65536) :: UInt8.ofNat (n / 256) :: UInt8.ofNat n :: bytes,
        by simp, fun written => ?_⟩
      have hjoin : ((UInt8.ofNat (n / 65536)).toNat * 256 + (UInt8.ofNat (n / 256)).toNat) * 256 +
          (UInt8.ofNat n).toNat = n := by
        simp only [UInt8.toNat_ofNat']
        omega
      rw [writeOnto, hbytes, hjoin, show n % 64 = vz by omega, show n / 64 % 64 = vy by omega,
        show n / 4096 % 64 = vx by omega, show n / 262144 = vw by omega]
      simp
  | case2 done w x y =>
      simp only [readOnto, Option.bind_eq_bind, Option.bind_eq_some_iff,
        Option.ite_none_right_eq_some] at h
      obtain ⟨vw, hw, vx, hx, vy, hy, hn, h⟩ := h
      obtain ⟨hw, rfl⟩ := digit_of_value? hw
      obtain ⟨hx, rfl⟩ := digit_of_value? hx
      obtain ⟨hy, rfl⟩ := digit_of_value? hy
      obtain rfl := Option.some.inj h
      generalize hm : (vw * 64 + vx) * 64 + vy = m at hn
      refine ⟨[UInt8.ofNat (m / 1024), UInt8.ofNat (m / 4)], by simp, fun written => ?_⟩
      have hjoin :
          ((UInt8.ofNat (m / 1024)).toNat * 256 + (UInt8.ofNat (m / 4)).toNat) * 4 = m := by
        simp only [UInt8.toNat_ofNat']
        omega
      rw [writeOnto, hjoin, show m % 64 = vy by omega, show m / 64 % 64 = vx by omega,
        show m / 4096 = vw by omega]
      simp
  | case3 done w x =>
      simp only [readOnto, Option.bind_eq_bind, Option.bind_eq_some_iff,
        Option.ite_none_right_eq_some] at h
      obtain ⟨vw, hw, vx, hx, hn, h⟩ := h
      obtain ⟨hw, rfl⟩ := digit_of_value? hw
      obtain ⟨hx, rfl⟩ := digit_of_value? hx
      obtain rfl := Option.some.inj h
      generalize hm : vw * 64 + vx = m at hn
      refine ⟨[UInt8.ofNat (m / 16)], by simp, fun written => ?_⟩
      have hjoin : (UInt8.ofNat (m / 16)).toNat * 16 = m := by
        simp only [UInt8.toNat_ofNat']
        omega
      rw [writeOnto, hjoin, show m % 64 = vx by omega, show m / 64 = vw by omega]
      simp
  | case4 done w => simp [readOnto] at h
  | case5 done => exact ⟨[], by simpa [readOnto] using h.symm, fun written => rfl⟩

/-- A text that spells bytes is what they are written as. -/
theorem encode_of_decode? {text : String} {bytes : ByteArray} (h : decode? text = some bytes) :
    encode bytes = text := by
  obtain ⟨out, hread, rfl⟩ := Option.map_eq_some_iff.1 h
  obtain ⟨bytes, rfl, hwritten⟩ := writeOnto_of_readOnto hread
  simp [encode, hwritten]

/-! ### Reading what was written -/

/-- The digits of bytes in the order of the text. -/
def digits : List UInt8 → List Char
  | a :: b :: c :: rest =>
      let n := (a.toNat * 256 + b.toNat) * 256 + c.toNat
      digit (n / 262144) :: digit (n / 4096 % 64) :: digit (n / 64 % 64) :: digit (n % 64) ::
        digits rest
  | [a, b] =>
      let n := (a.toNat * 256 + b.toNat) * 4
      [digit (n / 4096), digit (n / 64 % 64), digit (n % 64)]
  | [a] =>
      let n := a.toNat * 16
      [digit (n / 64), digit (n % 64)]
  | [] => []

theorem writeOnto_eq_digits (done : List Char) (bytes : List UInt8) :
    writeOnto done bytes = (digits bytes).reverse ++ done := by
  induction done, bytes using writeOnto.induct with
  | case1 done a b c rest n ih => simp [writeOnto, digits, ih, n]
  | case2 | case3 | case4 => simp [writeOnto, digits]

theorem encode_eq_digits {bytes : ByteArray} :
    encode bytes = String.ofList (digits bytes.data.toList) := by
  simp [encode, writeOnto_eq_digits]

@[simp] theorem value?_digit_mod (n : Nat) : value? (digit (n % 64)) = some (n % 64) :=
  value?_digit _ (Nat.mod_lt _ (by decide))

/-- The byte that a number ends with. -/
theorem ofNat_eq_of_mod {n : Nat} {b : UInt8} (h : n % 256 = b.toNat) : UInt8.ofNat n = b := by
  rw [← UInt8.toNat_inj, UInt8.toNat_ofNat', h]

theorem readOnto_digits (done : List UInt8) (bytes : List UInt8) :
    readOnto done (digits bytes) = some (bytes.reverse ++ done) := by
  induction bytes using digits.induct generalizing done with
  | case1 a b c rest ih =>
      have ha := a.toNat_lt
      have hb := b.toNat_lt
      have hc := c.toNat_lt
      simp only [digits]
      generalize hn : (a.toNat * 256 + b.toNat) * 256 + c.toNat = n
      have hjoin : ((n / 262144 * 64 + n / 4096 % 64) * 64 + n / 64 % 64) * 64 + n % 64 = n := by
        omega
      have hc' : UInt8.ofNat n = c := ofNat_eq_of_mod (by omega)
      have hb' : UInt8.ofNat (n / 256) = b := ofNat_eq_of_mod (by omega)
      have ha' : UInt8.ofNat (n / 65536) = a := ofNat_eq_of_mod (by omega)
      simp only [readOnto, value?_digit (n / 262144) (by omega), value?_digit_mod,
        Option.bind_eq_bind, Option.bind_some, hjoin, ha', hb', hc', ih]
      simp
  | case2 a b =>
      have ha := a.toNat_lt
      have hb := b.toNat_lt
      simp only [digits]
      generalize hn : (a.toNat * 256 + b.toNat) * 4 = n
      have hjoin : (n / 4096 * 64 + n / 64 % 64) * 64 + n % 64 = n := by omega
      have hb' : UInt8.ofNat (n / 4) = b := ofNat_eq_of_mod (by omega)
      have ha' : UInt8.ofNat (n / 1024) = a := ofNat_eq_of_mod (by omega)
      have hrest : n % 4 = 0 := by omega
      simp [readOnto, value?_digit (n / 4096) (by omega), hjoin, ha', hb', hrest]
  | case3 a =>
      have ha := a.toNat_lt
      simp only [digits]
      generalize hn : a.toNat * 16 = n
      have hjoin : n / 64 * 64 + n % 64 = n := by omega
      have ha' : UInt8.ofNat (n / 16) = a := ofNat_eq_of_mod (by omega)
      have hrest : n % 16 = 0 := by omega
      simp [readOnto, value?_digit (n / 64) (by omega), hjoin, ha', hrest]
  | case4 => rfl

/-- What bytes are written as is read as these bytes. -/
@[simp] theorem decode?_encode (bytes : ByteArray) : decode? (encode bytes) = some bytes := by
  rw [encode_eq_digits, decode?, String.toList_ofList, readOnto_digits]
  simp

theorem encode_injective {a b : ByteArray} (h : encode a = encode b) : a = b := by
  have hdecoded := congrArg decode? h
  simpa using hdecoded

/-! ### The characters of a written text -/

/-- A character that digits are made of. -/
def IsDigit (c : Char) : Prop := ∃ v < 64, digit v = c

theorem digit_not_special : ∀ v < 64,
    Text.isBlank (digit v) = false ∧ digit v ≠ '.' ∧ digit v ≠ '\x7b' := by
  decide

/-- A digit is no white space, no dot and no brace. -/
theorem IsDigit.not_special {c : Char} (h : IsDigit c) :
    Text.isBlank c = false ∧ c ≠ '.' ∧ c ≠ '\x7b' := by
  obtain ⟨v, hv, rfl⟩ := h
  exact digit_not_special v hv

theorem isDigit_of_mem_digits {bytes : List UInt8} : ∀ c ∈ digits bytes, IsDigit c := by
  induction bytes using digits.induct with
  | case1 a b c rest ih =>
      have ha := a.toNat_lt
      have hb := b.toNat_lt
      have hc := c.toNat_lt
      simp only [digits, List.forall_mem_cons]
      exact ⟨⟨_, by omega, rfl⟩, ⟨_, by omega, rfl⟩, ⟨_, by omega, rfl⟩, ⟨_, by omega, rfl⟩, ih⟩
  | case2 a b =>
      have ha := a.toNat_lt
      have hb := b.toNat_lt
      simp only [digits, List.forall_mem_cons]
      exact ⟨⟨_, by omega, rfl⟩, ⟨_, by omega, rfl⟩, ⟨_, by omega, rfl⟩, by simp⟩
  | case3 a =>
      have ha := a.toNat_lt
      simp only [digits, List.forall_mem_cons]
      exact ⟨⟨_, by omega, rfl⟩, ⟨_, by omega, rfl⟩, by simp⟩
  | case4 => simp [digits]

theorem isDigit_of_mem_encode {bytes : ByteArray} : ∀ c ∈ (encode bytes).toList, IsDigit c := by
  rw [encode_eq_digits, String.toList_ofList]
  exact isDigit_of_mem_digits

/-- A text of digits. -/
def Digits (text : String) : Prop := ∀ c ∈ text.toList, IsDigit c

theorem digits_encode (bytes : ByteArray) : Digits (encode bytes) := isDigit_of_mem_encode

end SealedToken.Base64Url
