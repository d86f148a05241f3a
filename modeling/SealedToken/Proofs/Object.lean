import SealedToken.Proofs.Header

/-!
Objects as finite maps from names to values: what is found under a name after a member
has been inserted, and in the union of two objects.
-/

namespace SealedToken.Object

variable {o p : Object} {name n : String} {value v : Json}

/-! ### Members -/

theorem contains_iff : o.contains n = true ↔ ∃ v, o.find? n = some v := by
  rw [contains_eq_isSome, Option.isSome_iff_exists]

theorem contains_eq_false_iff : o.contains n = false ↔ o.find? n = none := by
  rw [contains_eq_isSome, Option.isSome_eq_false_iff, Option.isNone_iff_eq_none]

theorem mem_of_find? (h : o.find? n = some v) : (n, v) ∈ o.members := by
  obtain ⟨m, hm, rfl⟩ := Option.map_eq_some_iff.1 h
  obtain rfl : m.1 = n := by simpa using List.find?_some hm
  exact List.mem_of_find?_eq_some hm

/-- The names are distinct, so a member is the one that is found under its name. -/
theorem find?_of_mem (h : (n, v) ∈ o.members) : o.find? n = some v := by
  obtain ⟨members, ordered⟩ := o
  simp only [find?] at h ⊢
  induction members with
  | nil => simp at h
  | cons m rest ih =>
      rw [List.pairwise_cons] at ordered
      rcases List.mem_cons.1 h with rfl | h
      · simp
      · have hne : (m.1 == n) = false := by simpa using String.ne_of_lt (ordered.1 _ h)
        rw [List.find?_cons_of_neg (by simp [hne])]
        exact ih ordered.2 h

/-- The first member with a property is the first in the order of the names. -/
theorem find?_of_firstWith {P : String × Json → Prop} {m : String × Json}
    (h : FirstWith P o.members m) :
    o.find? m.1 = some m.2 ∧ P m ∧ ∀ n v, n < m.1 → o.find? n = some v → ¬ P (n, v) := by
  refine ⟨find?_of_mem h.mem, h.holds, fun n v hlt hfound => ?_⟩
  have hmem := mem_of_find? hfound
  have hordered := o.ordered
  obtain ⟨before, rest, heq, -, hbefore⟩ := h
  rw [heq, List.pairwise_append, List.pairwise_cons] at hordered
  rw [heq, List.mem_append, List.mem_cons] at hmem
  rcases hmem with hmem | rfl | hmem
  · exact hbefore _ hmem
  · exact absurd hlt (String.lt_irrefl _)
  · exact absurd hlt (String.lt_asymm (hordered.2.1.1 _ hmem))

@[simp] theorem find?_empty : empty.find? n = none := rfl

@[simp] theorem contains_empty : empty.contains n = false := rfl

theorem eq_of_members (h : o.members = p.members) : o = p := by
  obtain ⟨_, _⟩ := o
  obtain ⟨_, _⟩ := p
  obtain rfl := h
  rfl

theorem eq_empty_of_isEmpty (h : o.isEmpty = true) : o = empty :=
  eq_of_members (List.isEmpty_iff.1 h)

theorem mem_members_iff : (n, v) ∈ o.members ↔ o.find? n = some v :=
  ⟨find?_of_mem, mem_of_find?⟩

/-- The members are kept in order, so an object is known by what is found in it. -/
theorem ext_find? (h : ∀ n, o.find? n = p.find? n) : o = p := by
  have distinct (q : Object) : q.members.Nodup :=
    q.ordered.imp fun {_ _} hlt => ne_of_apply_ne Prod.fst (String.ne_of_lt hlt)
  have hperm : o.members.Perm p.members :=
    (List.perm_ext_iff_of_nodup (distinct o) (distinct p)).2 fun m => by
      rw [mem_members_iff, mem_members_iff, h]
  exact eq_of_members <| hperm.eq_of_pairwise
    (fun a b _ _ hab hba => absurd hba (String.lt_asymm hab)) o.ordered p.ordered

/-! ### Insertion -/

theorem find?_insertInto {members : List (String × Json)} :
    ((insertInto name value members).find? (·.1 == n)).map (·.2) =
      if name = n then some value else (members.find? (·.1 == n)).map (·.2) := by
  induction members with
  | nil => by_cases h : name = n <;> simp [insertInto, h]
  | cons m rest ih =>
      rw [insertInto]
      split
      · by_cases h : name = n <;> simp [h]
      · split
        · next hlt =>
            -- the first member keeps its place, and has another name
            by_cases h : m.1 = n
            · have hne : name ≠ n := h ▸ (String.ne_of_lt hlt).symm
              simp [h, hne]
            · simp [h, ih]
        · next hle hge =>
            have heq : name = m.1 := String.le_antisymm hge hle
            by_cases h : name = n
            · simp [h]
            · simp [h, heq ▸ h]

@[simp] theorem find?_insert :
    (o.insert name value).find? n = if name = n then some value else o.find? n :=
  find?_insertInto

@[simp] theorem contains_insert :
    (o.insert name value).contains n = (decide (name = n) || o.contains n) := by
  rw [contains_eq_isSome, contains_eq_isSome, find?_insert]
  by_cases h : name = n <;> simp [h]

theorem insertInto_eq_self {members : List (String × Json)}
    (ordered : members.Pairwise fun a b => a.1 < b.1) (h : (name, value) ∈ members) :
    insertInto name value members = members := by
  induction members with
  | nil => simp at h
  | cons m rest ih =>
      rw [List.pairwise_cons] at ordered
      rcases List.mem_cons.1 h with rfl | h
      · rw [insertInto, if_neg (String.lt_irrefl _), if_neg (String.lt_irrefl _)]
      · have hlt : m.1 < name := ordered.1 _ h
        rw [insertInto, if_neg (String.lt_asymm hlt), if_pos hlt, ih ordered.2 h]

/-- Inserting a member that is there changes nothing. -/
theorem insert_eq_self (h : o.find? name = some value) : o.insert name value = o :=
  eq_of_members (insertInto_eq_self o.ordered (mem_of_find? h))

/-! ### Union -/

/-- Inserting members of distinct names one after the other. -/
theorem find?_foldl_insert {members : List (String × Json)}
    (distinct : members.Pairwise fun a b => a.1 ≠ b.1) :
    (members.foldl (fun o m => o.insert m.1 m.2) o).find? n =
      ((members.find? (·.1 == n)).map (·.2)).or (o.find? n) := by
  induction members generalizing o with
  | nil => simp
  | cons m rest ih =>
      rw [List.pairwise_cons] at distinct
      rw [List.foldl_cons, ih distinct.2, find?_insert]
      by_cases h : m.1 = n
      · -- no later member has the name of this one
        have hrest : rest.find? (·.1 == n) = none := by
          rw [List.find?_eq_none]
          intro m' hm'
          simpa [← h] using (distinct.1 m' hm').symm
        simp [h, hrest]
      · simp [h]

@[simp] theorem find?_union : (o.union p).find? n = (p.find? n).or (o.find? n) :=
  find?_foldl_insert (p.ordered.imp String.ne_of_lt)

@[simp] theorem contains_union : (o.union p).contains n = (o.contains n || p.contains n) := by
  simp only [contains_eq_isSome, find?_union, Option.isSome_or]
  exact Bool.or_comm _ _

@[simp] theorem union_empty : o.union empty = o := rfl

/-! ### Objects of lists -/

/-- Members of distinct names are all found. -/
theorem find?_ofMembers {members : List (String × Json)}
    (distinct : members.Pairwise fun a b => a.1 ≠ b.1) :
    (ofMembers members).find? n = (members.find? (·.1 == n)).map (·.2) := by
  rw [ofMembers, find?_foldl_insert distinct, find?_empty, Option.or_none]

theorem mem_of_mem_foldl_insert {members : List (String × Json)} {m : String × Json}
    (h : m ∈ (members.foldl (fun o m => o.insert m.1 m.2) o).members) :
    m ∈ o.members ∨ m ∈ members := by
  induction members generalizing o with
  | nil => exact .inl h
  | cons first rest ih =>
      rcases ih h with h | h
      · rcases mem_insertInto h with rfl | h
        · exact .inr (by simp)
        · exact .inl h
      · exact .inr (by simp [h])

/-- An object of a list has no members but those in the list. -/
theorem mem_of_mem_ofMembers {members : List (String × Json)} {m : String × Json}
    (h : m ∈ (ofMembers members).members) : m ∈ members :=
  (mem_of_mem_foldl_insert h).resolve_left List.not_mem_nil

theorem insertInto_eq_append {members : List (String × Json)} (h : ∀ m ∈ members, m.1 < name) :
    insertInto name value members = members ++ [(name, value)] := by
  induction members with
  | nil => rfl
  | cons m rest ih =>
      have hlt : m.1 < name := h m (by simp)
      rw [insertInto, if_neg (String.lt_asymm hlt), if_pos hlt,
        ih fun m' hm' => h m' (by simp [hm'])]
      rfl

theorem members_foldl_insert {members : List (String × Json)}
    (ordered : (o.members ++ members).Pairwise fun a b => a.1 < b.1) :
    (members.foldl (fun o m => o.insert m.1 m.2) o).members = o.members ++ members := by
  induction members generalizing o with
  | nil => simp
  | cons m rest ih =>
      have hlast : ∀ m' ∈ o.members, m'.1 < m.1 := fun m' hm' =>
        (List.pairwise_append.1 ordered).2.2 m' hm' m (by simp)
      have hinsert : (o.insert m.1 m.2).members = o.members ++ [m] := insertInto_eq_append hlast
      rw [List.foldl_cons, ih (by simpa [hinsert] using ordered), hinsert, List.append_assoc,
        List.singleton_append]

/-- An object is made of its members. -/
@[simp] theorem ofMembers_members : ofMembers o.members = o :=
  eq_of_members (members_foldl_insert (by simpa [empty] using o.ordered))

/-! ### Members that pass a test -/

theorem find?_filter {test : String → Json → Bool} :
    (o.filter test).find? n = (o.find? n).filter (test n) := by
  cases h : o.find? n with
  | none =>
      rw [Option.filter_none, ← contains_eq_false_iff, ← Bool.not_eq_true, contains_iff]
      rintro ⟨v, hv⟩
      have hmem := (List.mem_filter.1 (mem_of_find? hv)).1
      simp [find?_of_mem hmem] at h
  | some v =>
      have hmem := mem_of_find? h
      by_cases htest : test n v = true
      · rw [Option.filter_some, if_pos htest]
        exact find?_of_mem (List.mem_filter.2 ⟨hmem, htest⟩)
      · rw [Option.filter_some, if_neg htest, ← contains_eq_false_iff, ← Bool.not_eq_true,
          contains_iff]
        rintro ⟨w, hw⟩
        obtain ⟨hmem', hw'⟩ := List.mem_filter.1 (mem_of_find? hw)
        obtain rfl := Option.some.inj ((find?_of_mem hmem').symm.trans h)
        exact htest hw'

end SealedToken.Object
