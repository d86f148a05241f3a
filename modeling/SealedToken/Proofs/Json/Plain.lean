import SealedToken.Proofs.Header.Written

/-!
Values without floats and without depth: what algorithms put into headers. Two of them
that count as the same are equal, and each is read as it was written.
-/

namespace SealedToken

namespace Json

/-- A text, a count, or an object of texts. -/
inductive Plain : Json → Prop
  | text (text : String) : Plain (.str text)
  | count {n : Nat} (h : n < 2 ^ 32) : Plain (.int n)
  | texts {o : Object} (h : ∀ name v, o.find? name = some v → ∃ text, v = .str text) :
      Plain o.toJson

theorem eq_str_of_same {a : Json} {text : String} (h : a.same (.str text) = true) :
    a = .str text := by
  cases a with
  | str other => simpa [same] using h
  | num n => cases n <;> simp [same] at h
  | _ => simp [same] at h

theorem eq_int_of_same {a : Json} {n : Int} (h : a.same (.int n) = true) : a = .int n := by
  cases a with
  | num m =>
      cases m with
      | int m => simpa [same, Json.int] using h
      | float x => simp [same, Json.int] at h
  | _ => simp [same, Json.int] at h

theorem eq_of_sameMembers {as bs : List (String × Json)} (h : sameMembers as bs = true)
    (htexts : ∀ m ∈ bs, ∃ text, m.2 = .str text) : as = bs := by
  induction bs generalizing as with
  | nil => cases as <;> simp_all [sameMembers]
  | cons b bs ih =>
      cases as with
      | nil => simp [sameMembers] at h
      | cons a as =>
          obtain ⟨m, a⟩ := a
          obtain ⟨n, b⟩ := b
          simp only [sameMembers, Bool.and_eq_true, beq_iff_eq] at h
          obtain ⟨⟨rfl, hvalue⟩, hrest⟩ := h
          obtain ⟨text, rfl⟩ : ∃ text, b = .str text := htexts (m, b) (by simp)
          rw [eq_str_of_same hvalue, ih hrest fun m' hm' => htexts m' (by simp [hm'])]

/-- There are no two spellings of a plain value. -/
theorem Plain.eq_of_same {a b : Json} (hb : Plain b) (h : a.same b = true) : a = b := by
  cases hb with
  | text text => exact eq_str_of_same h
  | count _ => exact eq_int_of_same h
  | @texts o htexts =>
      cases a with
      | obj members =>
          rw [Object.toJson, same] at h
          rw [eq_of_sameMembers h fun m hm => htexts m.1 m.2 (Object.find?_of_mem hm),
            Object.toJson]
      | num n => cases n <;> simp [Object.toJson, same] at h
      | _ => simp [Object.toJson, same] at h

theorem Plain.codable {v : Json} {levels : Nat} (h : Plain v) : v.Codable (levels + 1) := by
  cases h with
  | text text => exact codable_str text
  | count h => exact codable_int (by omega) (by omega)
  | texts htexts =>
      refine Object.Codable.toJson fun name v hv => ?_
      obtain ⟨text, rfl⟩ := htexts name v hv
      exact codable_str text

end Json

end SealedToken
