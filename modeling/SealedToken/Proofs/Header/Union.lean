import Mathlib.Data.List.ReduceOption
import SealedToken.Header.Encoding
import SealedToken.Header.Registry
import SealedToken.Proofs.Object
import SealedToken.Proofs.Outcome

/-!
The union of headers. It is made exactly when no name occurs twice, nothing that has to
be protected is unprotected, and all that is critical is understood; then it is the union
of objects. Otherwise the error names the parameter that is wrong.
-/

namespace SealedToken

/-! ### Empty headers -/

/-- An empty header adds as much as an absent one. -/
@[simp] theorem Header.getD_nonempty {header : Option Object} :
    (nonempty header).getD .empty = header.getD .empty := by
  cases header with
  | none => rfl
  | some o =>
      rw [nonempty, Option.filter_some]
      split
      · rfl
      · next h => exact (Object.eq_empty_of_isEmpty (by simpa using h)).symm

namespace HeaderRegistry

variable {r : HeaderRegistry} {merged header out : Object} {name : String} {error : Error}

/-! ### Adding one header -/

/-- An unprotected header may be added: none of its names has to be protected, and none
is there already. -/
def Admits (r : HeaderRegistry) (merged header : Object) : Prop :=
  ∀ name, header.contains name = true → r.mustProtect name = false ∧ merged.contains name = false

@[simp] theorem admits_empty : r.Admits merged .empty := by
  simp [Admits]

theorem admits_union {other : Object} :
    r.Admits merged (header.union other) ↔ r.Admits merged header ∧ r.Admits merged other := by
  constructor
  · exact fun h => ⟨fun name hname => h name (by simp [hname]),
      fun name hname => h name (by simp [hname])⟩
  · rintro ⟨hheader, hother⟩ name hname
    rw [Object.contains_union, Bool.or_eq_true] at hname
    exact hname.elim (hheader name) (hother name)

theorem admits_iff_members :
    r.Admits merged header ↔
      ∀ m ∈ header.members, r.mustProtect m.1 = false ∧ merged.contains m.1 = false := by
  simp only [Admits, Object.contains_iff]
  exact ⟨fun h m hm => h m.1 ⟨m.2, Object.find?_of_mem hm⟩,
    fun h name ⟨_, hv⟩ => h _ (Object.mem_of_find? hv)⟩

theorem addMembers_eq_ok_foldl {members : List (String × Json)}
    (ordered : members.Pairwise fun a b => a.1 < b.1) :
    r.addMembers merged members = .ok out ↔
      (∀ m ∈ members, r.mustProtect m.1 = false ∧ merged.contains m.1 = false) ∧
        out = members.foldl (fun o m => o.insert m.1 m.2) merged := by
  induction members generalizing merged with
  | nil => simp [addMembers, @eq_comm _ merged]
  | cons m rest ih =>
      rw [List.pairwise_cons] at ordered
      -- what has been inserted before cannot clash with a later member
      have hfresh (m' : String × Json) (hm' : m' ∈ rest) :
          (merged.insert m.1 m.2).contains m'.1 = merged.contains m'.1 := by
        simp [String.ne_of_lt (ordered.1 m' hm')]
      simp only [addMembers, ite_error_eq_ok, ih ordered.2, Bool.not_eq_true, List.foldl_cons,
        List.forall_mem_cons, and_assoc]
      constructor
      · rintro ⟨hprotect, hnew, hrest, rfl⟩
        exact ⟨hprotect, hnew, fun m' hm' => hfresh m' hm' ▸ hrest m' hm', rfl⟩
      · rintro ⟨hprotect, hnew, hrest, rfl⟩
        exact ⟨hprotect, hnew, fun m' hm' => (hfresh m' hm').symm ▸ hrest m' hm', rfl⟩

theorem addMembers_eq_ok :
    r.addMembers merged header.members = .ok out ↔
      r.Admits merged header ∧ out = merged.union header := by
  rw [addMembers_eq_ok_foldl header.ordered, admits_iff_members]
  rfl

/-- What stops a header from being added: one of its names has to be protected, or is
there already. -/
def Refuses (r : HeaderRegistry) (merged : Object) (name : String) (error : Error) : Prop :=
  r.mustProtect name = true ∧ error = .misplacedHeader name ∨
    merged.contains name = true ∧ error = .duplicateHeader name

theorem refuses_of_addMembers_members {members : List (String × Json)}
    (ordered : members.Pairwise fun a b => a.1 < b.1)
    (h : r.addMembers merged members = .error error) :
    ∃ m ∈ members, r.Refuses merged m.1 error := by
  induction members generalizing merged with
  | nil => simp [addMembers] at h
  | cons m rest ih =>
      rw [List.pairwise_cons] at ordered
      simp only [addMembers] at h
      split at h
      · next hprotect => exact ⟨m, by simp, .inl ⟨hprotect, (Except.error.inj h).symm⟩⟩
      · split at h
        · next htwice => exact ⟨m, by simp, .inr ⟨htwice, (Except.error.inj h).symm⟩⟩
        · obtain ⟨m', hm', hrefuses⟩ := ih ordered.2 h
          rw [Refuses, Object.contains_insert,
            decide_eq_false (String.ne_of_lt (ordered.1 m' hm')), Bool.false_or] at hrefuses
          exact ⟨m', List.mem_cons_of_mem _ hm', hrefuses⟩

theorem refuses_of_addMembers (h : r.addMembers merged header.members = .error error) :
    ∃ name, header.contains name = true ∧ r.Refuses merged name error := by
  obtain ⟨m, hm, hrefuses⟩ := refuses_of_addMembers_members header.ordered h
  exact ⟨m.1, Object.contains_iff.2 ⟨m.2, Object.find?_of_mem hm⟩, hrefuses⟩

/-! ### Critical parameters -/

theorem checkNames_mono {names : List Json}
    (hcontains : ∀ name, merged.contains name = true → out.contains name = true)
    (h : r.checkNames merged names = .ok ()) : r.checkNames out names = .ok () := by
  induction names with
  | nil => rfl
  | cons name rest ih =>
      cases name with
      | str name =>
          simp only [checkNames] at h ⊢
          split at h
          · next hname =>
              rw [Bool.and_eq_true] at hname
              simp [hname.1, hcontains name hname.2, ih h]
          · simp at h
      | _ => simp [checkNames] at h

/-- Parameters that are added do not make a critical one wrong. -/
theorem checkCritical_mono (hcritical : out.find? "crit" = merged.find? "crit")
    (hcontains : ∀ name, merged.contains name = true → out.contains name = true)
    (h : r.checkCritical merged = .ok ()) : r.checkCritical out = .ok () := by
  rw [checkCritical] at h ⊢
  rw [hcritical]
  split at h
  · rfl
  · exact checkNames_mono hcontains h
  · simp at h

/-! ### The header of a recipient -/

variable {protectedHeader shared own : Option Object}

/-- An absent header counts as an empty one. -/
theorem merge_eq_bind :
    r.merge protectedHeader [shared, own] =
      (r.addMembers (protectedHeader.getD .empty) (shared.getD .empty).members >>= fun merged =>
        r.addMembers merged (own.getD .empty).members >>= fun merged =>
          r.checkCritical merged >>= fun _ => pure merged) := by
  cases shared <;> cases own <;>
    simp [merge, addHeaders, addMembers, Object.empty, bind_assoc]

/-- The union of a protected and two unprotected headers, of which any may be absent. -/
theorem merge_eq_ok :
    r.merge protectedHeader [shared, own] = .ok out ↔
      r.Admits (protectedHeader.getD .empty) (shared.getD .empty) ∧
        r.Admits ((protectedHeader.getD .empty).union (shared.getD .empty)) (own.getD .empty) ∧
        out = ((protectedHeader.getD .empty).union (shared.getD .empty)).union (own.getD .empty) ∧
        r.checkCritical out = .ok () := by
  simp only [merge_eq_bind, bind_eq_ok, pure_eq_ok, Except.ok.injEq, addMembers_eq_ok]
  constructor
  · rintro ⟨_, ⟨hshared, rfl⟩, _, ⟨hown, rfl⟩, _, hcritical, rfl⟩
    exact ⟨hshared, hown, rfl, hcritical⟩
  · rintro ⟨hshared, hown, rfl, hcritical⟩
    exact ⟨_, ⟨hshared, rfl⟩, _, ⟨hown, rfl⟩, (), hcritical, rfl⟩

/-- The union of a protected and one unprotected header. -/
theorem merge_own_eq_ok :
    r.merge protectedHeader [own] = .ok out ↔
      r.Admits (protectedHeader.getD .empty) (own.getD .empty) ∧
        out = (protectedHeader.getD .empty).union (own.getD .empty) ∧
        r.checkCritical out = .ok () := by
  have hnone : r.merge protectedHeader [own] = r.merge protectedHeader [none, own] := rfl
  rw [hnone, merge_eq_ok]
  simp

end HeaderRegistry

end SealedToken
