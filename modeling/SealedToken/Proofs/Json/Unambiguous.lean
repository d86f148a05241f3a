import SealedToken.Proofs.Json.Float
import SealedToken.Proofs.Json.RoundTrip

/-!
The text of a value tells the value: two values with one text are equal. A value is told
where it stands in a text, from what comes before, because its first character tells of which
kind it is and nothing that can follow it could be a part of it.
-/

namespace SealedToken.Json

variable {v w : Json} {r s : List Char}

/-- The values that programs hold: their numbers are the ones there are, and the members of
the objects in them are in order. -/
inductive Proper : Json → Prop
  | null : Proper null
  | bool (value : Bool) : Proper (bool value)
  | num {n : Number} (h : n.Proper) : Proper (num n)
  | str (text : String) : Proper (str text)
  | arr {items : List Json} (h : ∀ item ∈ items, Proper item) : Proper (arr items)
  | obj {members : List (String × Json)} (h : ∀ m ∈ members, Proper m.2)
      (ordered : members.Pairwise fun a b => a.1 < b.1) : Proper (obj members)

/-! ### The first character -/

inductive Kind
  | null
  | bool
  | num
  | str
  | arr
  | obj
  deriving DecidableEq

def kind : Json → Kind
  | null => .null
  | bool _ => .bool
  | num _ => .num
  | str _ => .str
  | arr _ => .arr
  | obj _ => .obj

/-- The kind of the value that a character begins. -/
def kindOf? (c : Char) : Option Kind :=
  if c = 'n' then some .null
  else if c = 't' ∨ c = 'f' then some .bool
  else if c = '"' then some .str
  else if c = '[' then some .arr
  else if c = '{' then some .obj
  else if c = '-' ∨ c.isDigit = true then some .num
  else none

theorem kindOf?_number {c : Char} (h : NumberText.Begins c) : kindOf? c = some .num := by
  have hnum : c = '-' ∨ c.isDigit = true := h
  simp [kindOf?, hnum, h.ne (d := 'n') (by decide) (by decide),
    h.ne (d := 't') (by decide) (by decide), h.ne (d := 'f') (by decide) (by decide),
    h.ne (d := '"') (by decide) (by decide), h.ne (d := '[') (by decide) (by decide),
    h.ne (d := '{') (by decide) (by decide)]

theorem Proper.chars_eq_cons (h : v.Proper) :
    ∃ c cs, v.chars = c :: cs ∧ kindOf? c = some v.kind := by
  cases h with
  | null => exact ⟨'n', _, rfl, rfl⟩
  | bool value => cases value <;> exact ⟨_, _, rfl, rfl⟩
  | @num n h =>
      obtain ⟨c, cs, hchars, hbegins⟩ := h.chars_eq_cons
      exact ⟨c, cs, hchars, kindOf?_number hbegins⟩
  | str text => exact ⟨'"', _, rfl, rfl⟩
  | arr _ => exact ⟨'[', _, rfl, rfl⟩
  | obj _ _ => exact ⟨'{', _, rfl, rfl⟩

theorem Proper.opens (h : v.Proper) : v.Opens := by
  obtain ⟨c, cs, hchars, hkind⟩ := h.chars_eq_cons
  refine ⟨c, cs, hchars, ?_, ?_⟩
  · rw [← Bool.not_eq_true]
    intro hblank
    obtain rfl | rfl | rfl | rfl : c = ' ' ∨ c = '\n' ∨ c = '\t' ∨ c = '\r' := by
      simpa [isBlank, or_assoc] using hblank
    all_goals exact absurd hkind (by simp [kindOf?])
  · rintro rfl
    exact absurd hkind (by simp [kindOf?])

/-- Values that stand at one place of a text are of one kind. -/
theorem Proper.kind_eq (hv : v.Proper) (hw : w.Proper) (h : v.chars ++ r = w.chars ++ s) :
    v.kind = w.kind := by
  obtain ⟨c, cs, hc, hkind⟩ := hv.chars_eq_cons
  obtain ⟨d, ds, hd, hkind'⟩ := hw.chars_eq_cons
  rw [hc, hd, List.cons_append, List.cons_append] at h
  rw [(List.cons.inj h).1, hkind'] at hkind
  exact (Option.some.inj hkind).symm

/-! ### Lists -/

section

variable {α : Type} {chars : α → List Char} {close : Char} {as bs : List α}

/-- The texts of elements, with commas between them. -/
def listChars (chars : α → List Char) : List α → List Char
  | [] => []
  | a :: rest => chars a ++ rest.flatMap fun next => ',' :: chars next

/-- What stands behind an element of a list: what ends the list, or a comma. -/
def Behind (close : Char) (tail : List Char) : Prop :=
  tail.head? = some close ∨ tail.head? = some ','

/-- Elements are told from each other by their texts, up to what stands behind them. -/
def ElementsTold (chars : α → List Char) (close : Char) (as bs : List α) : Prop :=
  ∀ a ∈ as, ∀ b ∈ bs, ∀ tail tail', Behind close tail → Behind close tail' →
    chars a ++ tail = chars b ++ tail' → a = b ∧ tail = tail'

theorem behind_rest (rest : List α) (tail : List Char) :
    Behind close (rest.flatMap (fun a => ',' :: chars a) ++ close :: tail) := by
  cases rest with
  | nil => exact .inl rfl
  | cons a rest => exact .inr rfl

/-- The rest of a list is told up to its end. -/
theorem rest_append_inj (hclose : close ≠ ',') (htold : ElementsTold chars close as bs)
    (h : as.flatMap (fun a => ',' :: chars a) ++ close :: r =
      bs.flatMap (fun b => ',' :: chars b) ++ close :: s) : as = bs ∧ r = s := by
  induction as generalizing bs with
  | nil =>
      cases bs with
      | nil => exact ⟨rfl, (List.cons.inj h).2⟩
      | cons b bs => exact absurd (List.cons.inj h).1 hclose
  | cons a as ih =>
      cases bs with
      | nil => exact absurd (List.cons.inj h).1.symm hclose
      | cons b bs =>
          simp only [List.flatMap_cons, List.cons_append, List.append_assoc, List.cons.injEq,
            true_and] at h
          obtain ⟨rfl, hrest⟩ := htold a (by simp) b (by simp) _ _ (behind_rest as r)
            (behind_rest bs s) h
          obtain ⟨rfl, hend⟩ :=
            ih (fun a ha b hb => htold a (by simp [ha]) b (by simp [hb])) hrest
          exact ⟨rfl, hend⟩

/-- So is a list, if no element begins with what ends the list. -/
theorem list_append_inj (hclose : close ≠ ',') (htold : ElementsTold chars close as bs)
    (hopen : ∀ a ∈ as ++ bs, ∀ tail, (chars a ++ tail).head? ≠ some close)
    (h : listChars chars as ++ close :: r = listChars chars bs ++ close :: s) :
    as = bs ∧ r = s := by
  cases as with
  | nil =>
      cases bs with
      | nil => exact ⟨rfl, (List.cons.inj h).2⟩
      | cons b bs =>
          rw [listChars, listChars, List.append_assoc] at h
          exact absurd (congrArg List.head? h).symm (hopen b (by simp) _)
  | cons a as =>
      cases bs with
      | nil =>
          rw [listChars, listChars, List.append_assoc] at h
          exact absurd (congrArg List.head? h) (hopen a (by simp) _)
      | cons b bs =>
          rw [listChars, listChars, List.append_assoc, List.append_assoc] at h
          obtain ⟨rfl, hrest⟩ := htold a (by simp) b (by simp) _ _ (behind_rest as r)
            (behind_rest bs s) h
          obtain ⟨rfl, hend⟩ := rest_append_inj hclose
            (fun a ha b hb => htold a (by simp [ha]) b (by simp [hb])) hrest
          exact ⟨rfl, hend⟩

end

theorem itemsChars_eq (items : List Json) : itemsChars items = listChars chars items := by
  induction items with
  | nil => rfl
  | cons item rest ih =>
      cases rest with
      | nil => rw [itemsChars, listChars, List.flatMap_nil, List.append_nil]
      | cons next rest =>
          rw [itemsChars, ih]
          · rfl
          · simp

/-- A member of an object. -/
def memberChars (m : String × Json) : List Char := quoted m.1 ++ ':' :: m.2.chars

theorem membersChars_eq (members : List (String × Json)) :
    membersChars members = listChars memberChars members := by
  induction members with
  | nil => rfl
  | cons m rest ih =>
      cases rest with
      | nil => rw [membersChars, listChars, List.flatMap_nil, List.append_nil, memberChars]
      | cons next rest =>
          rw [membersChars, ih]
          · simp [listChars, memberChars]
          · simp

/-! ### Values -/

/-- The value is told where it stands in a text. -/
def Told (v : Json) : Prop :=
  ∀ w r s, w.Proper → NumberText.Ends r → NumberText.Ends s →
    v.chars ++ r = w.chars ++ s → v = w ∧ r = s

theorem ends_of_behind {close : Char} (h : close = ']' ∨ close = '}') (hr : Behind close r) :
    NumberText.Ends r := by
  intro c hc
  obtain rfl | rfl | rfl : c = ']' ∨ c = '}' ∨ c = ',' := by
    rcases hr with hr | hr <;> rw [hr] at hc <;> obtain rfl := Option.some.inj hc
    · rcases h with rfl | rfl <;> simp
    · simp
  all_goals decide

/-- A quoted text is told by the quotes. -/
theorem quoted_append_inj {a b : String} (h : quoted a ++ r = quoted b ++ s) : a = b ∧ r = s := by
  simp only [quoted, List.cons_append, List.append_assoc, List.nil_append, List.cons.injEq,
    true_and] at h
  have hread := stringBody_quoted a r
  rw [h, stringBody_quoted] at hread
  obtain ⟨rfl, rfl⟩ := Prod.mk.inj (Option.some.inj hread)
  exact ⟨rfl, rfl⟩

theorem Told.items {items others : List Json} (hitems : ∀ item ∈ items, Proper item)
    (hothers : ∀ item ∈ others, Proper item) (htold : ∀ item ∈ items, Told item)
    (h : itemsChars items ++ ']' :: r = itemsChars others ++ ']' :: s) :
    items = others ∧ r = s := by
  rw [itemsChars_eq, itemsChars_eq] at h
  refine list_append_inj (by decide) (fun a ha b hb tail tail' htail htail' h => ?_)
    (fun a ha tail hclose => ?_) h
  · exact htold a ha b tail tail' (hothers b hb) (ends_of_behind (.inl rfl) htail)
      (ends_of_behind (.inl rfl) htail') h
  · obtain ⟨c, cs, hchars, hkind⟩ :=
      ((List.mem_append.1 ha).elim (hitems a) (hothers a)).chars_eq_cons
    rw [hchars] at hclose
    obtain rfl : c = ']' := Option.some.inj hclose
    exact absurd hkind (by simp [kindOf?])

theorem Told.members {members others : List (String × Json)}
    (hothers : ∀ m ∈ others, Proper m.2) (htold : ∀ m ∈ members, Told m.2)
    (h : membersChars members ++ '}' :: r = membersChars others ++ '}' :: s) :
    members = others ∧ r = s := by
  rw [membersChars_eq, membersChars_eq] at h
  refine list_append_inj (by decide) (fun a ha b hb tail tail' htail htail' h => ?_)
    (fun a ha tail hclose => ?_) h
  · simp only [memberChars, List.append_assoc, List.cons_append] at h
    obtain ⟨hname, h⟩ := quoted_append_inj h
    obtain ⟨hvalue, hrest⟩ := htold a ha b.2 tail tail' (hothers b hb)
      (ends_of_behind (.inr rfl) htail) (ends_of_behind (.inr rfl) htail') (List.cons.inj h).2
    exact ⟨Prod.ext hname hvalue, hrest⟩
  · exact absurd (Option.some.inj hclose) (by decide)

/-- A value is told by its text, up to what cannot be a part of a number. -/
theorem Told.of_proper (h : v.Proper) : Told v := by
  induction h with
  | null =>
      intro w r s hw hr hs h
      have hkind := Proper.kind_eq .null hw h
      cases hw <;> simp [kind] at hkind
      exact ⟨rfl, List.append_cancel_left h⟩
  | bool value =>
      intro w r s hw hr hs h
      have hkind := Proper.kind_eq (.bool value) hw h
      cases hw <;> simp [kind] at hkind
      next other => cases value <;> cases other <;> simp_all [chars]
  | num hn =>
      intro w r s hw hr hs h
      have hkind := Proper.kind_eq (.num hn) hw h
      cases hw <;> simp [kind] at hkind
      next m hm =>
        obtain ⟨rfl, hrest⟩ := hn.chars_append_inj hm hr hs h
        exact ⟨rfl, hrest⟩
  | str text =>
      intro w r s hw hr hs h
      have hkind := Proper.kind_eq (.str text) hw h
      cases hw <;> simp [kind] at hkind
      next other =>
        obtain ⟨rfl, hrest⟩ := quoted_append_inj h
        exact ⟨rfl, hrest⟩
  | arr hitems ih =>
      intro w r s hw hr hs h
      have hkind := Proper.kind_eq (.arr hitems) hw h
      cases hw <;> simp [kind] at hkind
      next others hothers =>
        simp only [chars, List.cons_append, List.append_assoc, List.nil_append, List.cons.injEq,
          true_and] at h
        obtain ⟨rfl, hrest⟩ := Told.items hitems hothers ih h
        exact ⟨rfl, hrest⟩
  | obj hmembers ordered ih =>
      intro w r s hw hr hs h
      have hkind := Proper.kind_eq (.obj hmembers ordered) hw h
      cases hw <;> simp [kind] at hkind
      next others hothers _ =>
        simp only [chars, List.cons_append, List.append_assoc, List.nil_append, List.cons.injEq,
          true_and] at h
        obtain ⟨rfl, hrest⟩ := Told.members hothers ih h
        exact ⟨rfl, hrest⟩

/-- Two values with one text are equal. -/
theorem Proper.eq_of_print (hv : v.Proper) (hw : w.Proper) (h : v.print = w.print) : v = w := by
  have hchars : v.chars ++ [] = w.chars ++ [] := by
    rw [List.append_nil, List.append_nil]
    exact String.ofList_inj.1 h
  exact (Told.of_proper hv w [] [] hw NumberText.ends_nil NumberText.ends_nil hchars).1

end SealedToken.Json
