import Mathlib.Data.List.Basic
import SealedToken.Proofs.Base64Url
import SealedToken.Proofs.Bytes.Number
import SealedToken.Proofs.Text

/-!
Byte strings that are put together of parts, and how the whole tells the parts: numbers by
their width, and digits by the dot behind them.
-/

namespace SealedToken

namespace Bytes

/-! ### Numbers of a fixed width -/

/-- A number that fits is told by its bytes. -/
theorem ofNat_injective {m n size : Nat} (hm : m < 256 ^ size) (hn : n < 256 ^ size)
    (h : ofNat size m = ofNat size n) : m = n := by
  have hsame := congrArg toNat h
  rwa [toNat_ofNat, toNat_ofNat, Nat.mod_eq_of_lt hm, Nat.mod_eq_of_lt hn] at hsame

/-! ### The dot -/

/-- The byte of the dot. -/
def dot : UInt8 := 46

theorem toList_dot : ".".toUTF8.data.toList = [dot] := by decide

/-- What stands in front of the first separator, and what stands behind it. -/
theorem append_cons_inj {α : Type} {sep : α} {as bs cs ds : List α} (ha : sep ∉ as) (hc : sep ∉ cs)
    (h : as ++ sep :: bs = cs ++ sep :: ds) : as = cs ∧ bs = ds := by
  induction as generalizing cs with
  | nil =>
      cases cs with
      | nil => exact ⟨rfl, (List.cons.inj h).2⟩
      | cons c cs => exact absurd (by simp [(List.cons.inj h).1]) hc
  | cons a as ih =>
      cases cs with
      | nil => exact absurd (by simp [(List.cons.inj h).1]) ha
      | cons c cs =>
          obtain ⟨rfl, htail⟩ := List.cons.inj h
          obtain ⟨rfl, rfl⟩ := ih (fun hmem => ha (by simp [hmem]))
            (fun hmem => hc (by simp [hmem])) htail
          exact ⟨rfl, rfl⟩

end Bytes

/-! ### Texts of digits in front of a dot -/

namespace Base64Url

theorem dot_notMem_digit : ∀ v < 64, Bytes.dot ∉ String.utf8EncodeChar (digit v) := by decide

/-- There is no dot among the bytes of digits. -/
theorem Digits.dot_notMem {text : String} (h : Digits text) :
    Bytes.dot ∉ text.toUTF8.data.toList := by
  rw [String.toUTF8_eq_toByteArray, ← String.utf8Encode_toList, List.utf8Encode]
  simp only [List.data_toByteArray, List.mem_flatMap, not_exists, not_and]
  intro c hc
  obtain ⟨v, hv, rfl⟩ := h c hc
  exact dot_notMem_digit v hv

end Base64Url

namespace Bytes

variable {a b : String} {x y : ByteArray}

/-- The bytes of digits, a dot, and any bytes: the whole tells both parts. -/
theorem dotted_injective (ha : Base64Url.Digits a) (hb : Base64Url.Digits b)
    (h : a.toUTF8 ++ ".".toUTF8 ++ x = b.toUTF8 ++ ".".toUTF8 ++ y) : a = b ∧ x = y := by
  have hlist := congrArg (fun bytes : ByteArray => bytes.data.toList) h
  simp only [ByteArray.toList_data_append, toList_dot, List.append_assoc,
    List.singleton_append] at hlist
  obtain ⟨htext, hbytes⟩ := append_cons_inj ha.dot_notMem hb.dot_notMem hlist
  refine ⟨?_, ?_⟩
  · exact Utf8.toUTF8_injective (ByteArray.ext (Array.toList_inj.1 htext))
  · exact ByteArray.ext (Array.toList_inj.1 hbytes)

/-- Digits with nothing behind them are told from digits with a dot behind them. -/
theorem ne_dotted (ha : Base64Url.Digits a) : a.toUTF8 ≠ b.toUTF8 ++ ".".toUTF8 ++ y := by
  intro h
  refine ha.dot_notMem ?_
  rw [h, ByteArray.toList_data_append, ByteArray.toList_data_append, toList_dot]
  simp

end Bytes

end SealedToken
