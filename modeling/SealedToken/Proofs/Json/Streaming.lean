import SealedToken.Proofs.Json.Record
import SealedToken.Proofs.Outcome

/-!
Objects and arrays that are read straight from their text, member by member and element by
element. A text that was printed is read by the steps for its parts in order, whatever stands
behind it. So to know what is read of it it is enough to know what each step does with the
text of one part (`TakesMember`, `TakesItem`) and how the state goes through them (`Folds`).
-/

namespace SealedToken.Json

/-! ### A state that goes through a list -/

/-- The state that a list leaves, from what each element does with a state. -/
inductive Folds {σ α : Type} (takes : σ → α → σ → Prop) : σ → List α → σ → Prop
  | nil {s : σ} : Folds takes s [] s
  | cons {s s' s'' : σ} {a : α} {as : List α} (first : takes s a s') (others : Folds takes s' as s'') :
      Folds takes s (a :: as) s''

variable {σ : Type}

/-- The step for a member turns one state into another when it is given the value of the
member. -/
def TakesMember (step : String → Step σ) (s : σ) (m : String × Json) (s' : σ) : Prop :=
  ∀ rest, NumberText.Ends rest → step m.1 s (m.2.chars ++ rest) = .ok (s', rest)

def TakesItem (step : Step σ) (s : σ) (item : Json) (s' : σ) : Prop :=
  ∀ rest, NumberText.Ends rest → step s (item.chars ++ rest) = .ok (s', rest)

/-! ### Values -/

/-- A value is kept as it was printed. -/
theorem keep_chars {v : Json} {rest : List Char} (h : v.Readable nestingLimit)
    (hends : NumberText.Ends rest) : keep (v.chars ++ rest) = .ok (v, rest) := by
  have hread : read? (.keep nestingLimit) (v.chars ++ rest) = some (v, rest) :=
    (Reads.of_readable h).value _ _ (by simp [fuelFor]; omega) hends
  rw [keep, hread]
  rfl

/-! ### Objects -/

section Members

variable {step : String → Step σ} {s s' : σ} {members : List (String × Json)} {rest : List Char}
  {fuel : Nat}

/-- One member in front of the rest of an object. -/
theorem foldMembers_member {m : String × Json} {c : Char} (h : TakesMember step s m s')
    (hc : c = ',' ∨ c = '}') :
    foldMembers step (fuel + 1) s (quoted m.1 ++ ':' :: (m.2.chars ++ c :: rest)) =
      if c = ',' then foldMembers step fuel s' rest else .ok (s', rest) := by
  have hends : NumberText.Ends (c :: rest) := by
    rcases hc with rfl | rfl
    · exact ends_comma
    · exact ends_brace
  rw [quoted, List.cons_append, List.append_assoc, foldMembers, dropBlanks_cons rfl]
  simp only [List.singleton_append, stringBody_quoted, dropBlanks_cons (c := ':') rfl, h _ hends,
    ok_bind]
  rcases hc with rfl | rfl <;> rfl

theorem membersChars_cons (m next : String × Json) (others : List (String × Json)) :
    membersChars (m :: next :: others) =
      quoted m.1 ++ ':' :: (m.2.chars ++ ',' :: membersChars (next :: others)) := by
  rw [membersChars]
  simp

theorem length_le_membersChars (members : List (String × Json)) :
    members.length ≤ (membersChars members).length := by
  induction members with
  | nil => simp
  | cons m others ih =>
      cases others with
      | nil => simp [membersChars, quoted]
      | cons next others =>
          rw [membersChars_cons]
          simp only [List.length_append, List.length_cons] at ih ⊢
          omega

theorem foldMembers_membersChars (h : Folds (TakesMember step) s members s') (hne : members ≠ [])
    (hfuel : members.length ≤ fuel) :
    foldMembers step fuel s (membersChars members ++ '}' :: rest) = .ok (s', rest) := by
  induction h generalizing fuel with
  | nil => exact absurd rfl hne
  | @cons s s' s'' m others first folds ih =>
      obtain ⟨fuel, rfl⟩ : ∃ k, fuel = k + 1 := ⟨fuel - 1, by simp at hfuel; omega⟩
      cases others with
      | nil =>
          cases folds
          rw [membersChars, List.append_assoc, List.cons_append,
            foldMembers_member first (.inr rfl), if_neg (by decide)]
      | cons next others =>
          rw [membersChars_cons, List.append_assoc, List.cons_append, List.append_assoc,
            List.cons_append, foldMembers_member first (.inl rfl), if_pos rfl]
          exact ih (by simp) (by simpa using hfuel)

theorem objectRest_membersChars (h : Folds (TakesMember step) s members s') :
    objectRest step s (membersChars members ++ '}' :: rest) = .ok (s', rest) := by
  cases members with
  | nil =>
      cases h
      rfl
  | cons m others =>
      obtain ⟨cs, hhead⟩ : ∃ cs, membersChars (m :: others) ++ '}' :: rest = '"' :: cs := by
        cases others <;> simp [membersChars, quoted]
      have hlength : (m :: others).length ≤
          (membersChars (m :: others) ++ '}' :: rest).length := by
        apply (length_le_membersChars _).trans
        simp
      have hread := @foldMembers_membersChars _ _ _ _ _ rest _ h (by simp) hlength
      rw [hhead] at hread ⊢
      rw [objectRest, dropBlanks_cons rfl]
      exact hread

end Members

/-! ### Arrays -/

section Items

variable {step : Step σ} {s s' : σ} {items : List Json} {rest : List Char} {fuel : Nat}

theorem foldItems_item {item : Json} {c : Char} (h : TakesItem step s item s')
    (hc : c = ',' ∨ c = ']') :
    foldItems step (fuel + 1) s (item.chars ++ c :: rest) =
      if c = ',' then foldItems step fuel s' rest else .ok (s', rest) := by
  have hends : NumberText.Ends (c :: rest) := by
    rcases hc with rfl | rfl
    · exact ends_comma
    · exact ends_bracket
  rw [foldItems, h _ hends, ok_bind]
  rcases hc with rfl | rfl <;> rfl

theorem itemsChars_cons (item next : Json) (others : List Json) :
    itemsChars (item :: next :: others) = item.chars ++ ',' :: itemsChars (next :: others) := by
  rw [itemsChars]
  simp

theorem length_le_itemsChars (h : ∀ item ∈ items, item.Opens) :
    items.length ≤ (itemsChars items).length := by
  induction items with
  | nil => simp
  | cons item others ih =>
      obtain ⟨c, cs, hchars, -⟩ := h item (by simp)
      cases others with
      | nil => simp [itemsChars, hchars]
      | cons next others =>
          have hothers := ih fun i hi => h i (by simp [hi])
          rw [itemsChars_cons]
          simp only [List.length_append, List.length_cons] at hothers ⊢
          omega

theorem foldItems_itemsChars (h : Folds (TakesItem step) s items s') (hne : items ≠ [])
    (hfuel : items.length ≤ fuel) :
    foldItems step fuel s (itemsChars items ++ ']' :: rest) = .ok (s', rest) := by
  induction h generalizing fuel with
  | nil => exact absurd rfl hne
  | @cons s s' s'' item others first folds ih =>
      obtain ⟨fuel, rfl⟩ : ∃ k, fuel = k + 1 := ⟨fuel - 1, by simp at hfuel; omega⟩
      cases others with
      | nil =>
          cases folds
          rw [itemsChars, foldItems_item first (.inr rfl), if_neg (by decide)]
      | cons next others =>
          rw [itemsChars_cons, List.append_assoc, List.cons_append,
            foldItems_item first (.inl rfl), if_pos rfl]
          exact ih (by simp) (by simpa using hfuel)

/-- An array of values none of which begins as an array ends. -/
theorem arrayRest_itemsChars (h : Folds (TakesItem step) s items s')
    (hopens : ∀ item ∈ items, item.Opens) :
    arrayRest step s (itemsChars items ++ ']' :: rest) = .ok (s', rest) := by
  cases items with
  | nil =>
      cases h
      rfl
  | cons item others =>
      obtain ⟨c, cs, hchars, hblank, hclose⟩ := hopens item (by simp)
      obtain ⟨cs, hhead⟩ : ∃ cs, itemsChars (item :: others) ++ ']' :: rest = c :: cs := by
        cases others <;> simp [itemsChars, hchars]
      have hlength : (item :: others).length ≤
          (itemsChars (item :: others) ++ ']' :: rest).length := by
        apply (length_le_itemsChars hopens).trans
        simp
      have hread := @foldItems_itemsChars _ _ _ _ _ rest _ h (by simp) hlength
      rw [hhead] at hread ⊢
      rw [arrayRest, dropBlanks_cons hblank]
      split
      · next heq => exact absurd (List.cons.inj heq).1 hclose
      · exact hread

end Items

/-! ### Records -/

namespace Record

variable {names : List String} {members done : Record} {m : String × Json} {n : String}
  {rest : List Char}

theorem find?_eq_none_iff : find? members n = none ↔ ∀ m ∈ members, m.1 ≠ n := by
  simp [find?]

/-- Where each name stands once, it does not matter from which end it is looked for. -/
theorem find?_reverse (distinct : members.Pairwise fun a b => a.1 ≠ b.1) :
    find? members.reverse n = find? members n := by
  induction members with
  | nil => rfl
  | cons m others ih =>
      obtain ⟨hm, hothers⟩ := List.pairwise_cons.1 distinct
      rw [List.reverse_cons, find?_append, ih hothers, find?_cons, find?_cons, find?_nil]
      by_cases hname : m.1 = n
      · have hnone : find? others n = none :=
          find?_eq_none_iff.2 fun other hother heq => hm other hother (hname.trans heq.symm)
        simp [hname, hnone]
      · simp [hname]

theorem takesMember_step (hname : names.contains m.1 = true) (hnew : find? done m.1 = none)
    (h : m.2.Readable nestingLimit) : TakesMember (step names) done m (m :: done) := by
  intro rest hends
  simp [step, List.contains_iff_mem.1 hname, hnew, keep_chars h hends]

/-- Members with known names that are all different are kept, the last one in front. -/
theorem folds_step (hnames : ∀ m ∈ members, names.contains m.1 = true)
    (distinct : members.Pairwise fun a b => a.1 ≠ b.1)
    (hreadable : ∀ m ∈ members, m.2.Readable nestingLimit)
    (hnew : ∀ m ∈ members, find? done m.1 = none) :
    Folds (TakesMember (step names)) done members (members.reverse ++ done) := by
  induction members generalizing done with
  | nil => exact .nil
  | cons m others ih =>
      obtain ⟨hm, hothers⟩ := List.pairwise_cons.1 distinct
      rw [List.forall_mem_cons] at hnames hreadable hnew
      rw [List.reverse_cons, List.append_assoc]
      refine .cons (takesMember_step hnames.1 hnew.1 hreadable.1)
        (ih hnames.2 hothers hreadable.2 fun other hother => ?_)
      rw [find?_cons, if_neg (hm other hother)]
      exact hnew.2 other hother

/-- A printed object of known members is read as a record of them. -/
theorem read_chars (hnames : ∀ m ∈ members, names.contains m.1 = true)
    (distinct : members.Pairwise fun a b => a.1 ≠ b.1)
    (hreadable : ∀ m ∈ members, m.2.Readable nestingLimit) :
    read names ((obj members).chars ++ rest) = .ok (members.reverse, rest) := by
  have hfolds : Folds (TakesMember (step names)) [] members members.reverse := by
    simpa using @folds_step names members [] hnames distinct hreadable fun _ _ => rfl
  rw [chars, List.cons_append, List.append_assoc, List.singleton_append, read,
    dropBlanks_cons rfl]
  exact objectRest_membersChars hfolds

end Record

end SealedToken.Json
