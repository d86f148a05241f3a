import SealedToken.Proofs.Json.Number

/-!
The text of a value is read as the value. Strings always are; numbers are where each of
them is, and arrays and objects as long as they do not nest too deep.
-/

namespace SealedToken.Json

/-! ### Strings -/

theorem codeUnit?_control : ∀ n < 0x20,
    codeUnit? '0' '0' (hexDigit (n / 16)) (hexDigit (n % 16)) = some n := by
  decide

/-- An escaped character stands for itself. -/
theorem stringBody_escape (done : List Char) (c : Char) (rest : List Char) :
    stringBody done (escape c ++ rest) = stringBody (c :: done) rest := by
  unfold escape
  split
  · next h => subst h; rfl
  split
  · next h => subst h; rfl
  split
  · next hquote hslash hplain =>
      rw [List.singleton_append, stringBody.eq_def]
      split
      · next heq => simp at heq
      · next heq => exact absurd (List.cons.inj heq).1 hquote
      · next heq => exact absurd (List.cons.inj heq).1 hslash
      · next heq => exact absurd (List.cons.inj heq).1 hslash
      · next heq =>
          obtain ⟨rfl, rfl⟩ := List.cons.inj heq
          rw [if_neg (Nat.not_lt.2 hplain)]
  split
  · next h => subst h; rfl
  split
  · next h => subst h; rfl
  split
  · next h => subst h; rfl
  split
  · next h =>
      obtain rfl : c = Char.ofNat 8 := by rw [← h, Char.ofNat_toNat]
      rfl
  split
  · next h =>
      obtain rfl : c = Char.ofNat 12 := by rw [← h, Char.ofNat_toNat]
      rfl
  · next hlow _ _ _ _ _ =>
      have hcontrol : c.toNat < 0x20 := Nat.lt_of_not_le hlow
      have hleading : isLeading c.toNat = false := by simp [isLeading]; omega
      have htrailing : isTrailing c.toNat = false := by simp [isTrailing]; omega
      simp only [List.cons_append, List.nil_append]
      rw [stringBody, codeUnit?_control _ hcontrol]
      simp [hleading, htrailing]

theorem stringBody_flatMap_escape (cs done rest : List Char) :
    stringBody done (cs.flatMap escape ++ '"' :: rest) =
      some (String.ofList (done.reverse ++ cs), rest) := by
  induction cs generalizing done with
  | nil => simp [stringBody]
  | cons c cs ih =>
      rw [List.flatMap_cons, List.append_assoc, stringBody_escape, ih]
      simp

/-- A quoted string is read behind its opening quote. -/
theorem stringBody_quoted (text : String) (rest : List Char) :
    stringBody [] (text.toList.flatMap escape ++ '"' :: rest) = some (text, rest) := by
  simp [stringBody_flatMap_escape]

/-! ### Values -/

/-- A value that fits into so many levels of nesting and whose numbers are read as they
are written. -/
inductive Readable : (levels : Nat) → Json → Prop
  | null {levels : Nat} : Readable levels null
  | bool {levels : Nat} (value : Bool) : Readable levels (bool value)
  | num {levels : Nat} {n : Number} (h : n.ReadsBack) : Readable levels (num n)
  | str {levels : Nat} (text : String) : Readable levels (str text)
  | arr {levels : Nat} {items : List Json} (h : ∀ item ∈ items, Readable levels item) :
      Readable (levels + 1) (arr items)
  | obj {levels : Nat} {members : List (String × Json)}
      (h : ∀ m ∈ members, Readable levels m.2) : Readable (levels + 1) (obj members)

/-- The text of the value begins neither with white space nor with what ends a list. -/
def Opens (v : Json) : Prop :=
  ∃ c cs, v.chars = c :: cs ∧ isBlank c = false ∧ c ≠ ']'

/-- The text of a value is read as the value, whatever stands behind it. -/
structure Reads (levels : Nat) (v : Json) : Prop where
  opens : v.Opens
  value : ∀ fuel rest, 2 * v.chars.length ≤ fuel → NumberText.Ends rest →
    value? fuel (.keep levels) (v.chars ++ rest) = some (v, rest)

theorem ends_cons {c : Char} {rest : List Char} (hdigit : c.isDigit = false) (hpoint : c ≠ '.')
    (he : c ≠ 'e') (hE : c ≠ 'E') : NumberText.Ends (c :: rest) := by
  intro d hd
  obtain rfl := Option.some.inj hd
  exact ⟨hdigit, hpoint, he, hE⟩

theorem ends_comma {rest : List Char} : NumberText.Ends (',' :: rest) :=
  ends_cons (by decide) (by decide) (by decide) (by decide)

theorem ends_bracket {rest : List Char} : NumberText.Ends (']' :: rest) :=
  ends_cons (by decide) (by decide) (by decide) (by decide)

theorem ends_brace {rest : List Char} : NumberText.Ends ('}' :: rest) :=
  ends_cons (by decide) (by decide) (by decide) (by decide)

theorem dropBlanks_cons {c : Char} {cs : List Char} (h : isBlank c = false) :
    dropBlanks (c :: cs) = c :: cs := by
  simp [dropBlanks, h]

theorem isBlank_number {c : Char} (h : NumberText.Begins c) : isBlank c = false := by
  simp [isBlank, h.ne (d := ' ') (by decide) (by decide), h.ne (d := '\n') (by decide) (by decide),
    h.ne (d := '\t') (by decide) (by decide), h.ne (d := '\r') (by decide) (by decide)]

/-- What begins like a number is read as a number. -/
theorem value?_number {purpose : Purpose} {fuel : Nat} {c : Char} {cs : List Char}
    (h : NumberText.Begins c) :
    value? (fuel + 1) purpose (c :: cs) = numberFor purpose (c :: cs) := by
  rw [value?, dropBlanks_cons (isBlank_number h)]
  split
  case h_7 => rfl
  -- a number does not begin as any other value does
  all_goals next heq => exact absurd (List.cons.inj heq).1 (h.ne (by decide) (by decide))

theorem value?_quote {levels fuel : Nat} {rest : List Char} :
    value? (fuel + 1) (.keep levels) ('"' :: rest) =
      (stringBody [] rest).map fun (text, rest) => (Json.str text, rest) :=
  rfl

theorem Reads.num {levels : Nat} {n : Number} (h : n.ReadsBack) : Reads levels (num n) := by
  obtain ⟨text, hread, hvalue⟩ := h
  obtain ⟨c, cs, hchars⟩ : ∃ c cs, n.chars = c :: cs := by
    cases hchars : n.chars with
    | nil => simp [hchars, NumberText.read?, NumberText.readWhole?] at hread
    | cons c cs => exact ⟨c, cs, rfl⟩
  have hbegins : NumberText.Begins c := NumberText.begins_of_read? (hchars ▸ hread)
  refine ⟨⟨c, cs, hchars, isBlank_number hbegins, hbegins.ne (by decide) (by decide)⟩,
    fun fuel rest hfuel hends => ?_⟩
  rw [chars, hchars, List.length_cons] at hfuel
  obtain ⟨fuel, rfl⟩ : ∃ k, fuel = k + 1 := ⟨fuel - 1, by omega⟩
  have hread' := NumberText.read?_append hends hread
  have hnumber : numberFor (.keep levels) (n.chars ++ rest) = some (Json.num n, rest) := by
    simp [numberFor, hread', hvalue]
  rw [chars]
  rw [hchars, List.cons_append] at hnumber ⊢
  rw [value?_number hbegins, hnumber]

theorem Reads.str {levels : Nat} (text : String) : Reads levels (str text) := by
  refine ⟨⟨'"', _, rfl, rfl, by decide⟩, fun fuel rest hfuel _ => ?_⟩
  obtain ⟨fuel, rfl⟩ : ∃ k, fuel = k + 1 := ⟨fuel - 1, by
    simp only [chars, quoted, List.length_cons] at hfuel
    omega⟩
  rw [chars, quoted, List.cons_append, List.append_assoc, value?_quote, List.singleton_append,
    stringBody_quoted]
  rfl

/-! ### Elements and members -/

theorem items?_itemsChars {levels : Nat} {items : List Json} (hne : items ≠ [])
    (h : ∀ item ∈ items, Reads levels item) (fuel : Nat) (done : List Json) (rest : List Char)
    (hfuel : 2 * (itemsChars items).length + 1 ≤ fuel) :
    items? fuel (.keep levels) done (itemsChars items ++ ']' :: rest) =
      some (arr (done.reverse ++ items), rest) := by
  induction items generalizing fuel done with
  | nil => exact absurd rfl hne
  | cons item others ih =>
      obtain ⟨fuel, rfl⟩ : ∃ k, fuel = k + 1 := ⟨fuel - 1, by omega⟩
      have hitem := (h item (by simp)).value fuel
      cases others with
      | nil =>
          rw [itemsChars] at hfuel ⊢
          rw [items?, hitem (']' :: rest) (by omega) ends_bracket]
          simp [show dropBlanks (']' :: rest) = ']' :: rest from rfl]
      | cons next others =>
          rw [itemsChars] at hfuel ⊢
          · rw [List.length_append, List.length_cons] at hfuel
            rw [List.append_assoc, List.cons_append, items?, hitem _ (by omega) ends_comma]
            have hrest := ih (by simp) (fun i hi => h i (by simp [hi])) fuel (item :: done)
              (by omega)
            rw [List.reverse_cons, List.append_assoc] at hrest
            exact hrest
          · simp
          · simp

/-- One member in front of the rest of an object, as the value in it is read. -/
theorem members?_member {levels fuel : Nat} {name : String} {value : Json} {c : Char}
    {done : List (String × Json)} {cs rest : List Char} (hc : c = ',' ∨ c = '}')
    (h : value? fuel (.keep levels) cs = some (value, c :: rest)) :
    members? (fuel + 1) (.keep levels) done (quoted name ++ ':' :: cs) =
      if c = ',' then members? fuel (.keep levels) ((name, value) :: done) rest
      else some (obj ((name, value) :: done).reverse, rest) := by
  rw [quoted, List.cons_append, List.append_assoc, members?, dropBlanks_cons rfl]
  simp only [textFor, List.singleton_append, stringBody_quoted, dropBlanks_cons (c := ':') rfl, h]
  rcases hc with rfl | rfl
  · rw [dropBlanks_cons rfl]
    exact (if_pos rfl).symm
  · rw [dropBlanks_cons rfl]
    exact (if_neg (by decide)).symm

theorem members?_none {levels fuel : Nat} {name : String} {done : List (String × Json)}
    {cs : List Char} (h : value? fuel (.keep levels) cs = none) :
    members? (fuel + 1) (.keep levels) done (quoted name ++ ':' :: cs) = none := by
  rw [quoted, List.cons_append, List.append_assoc, members?, dropBlanks_cons rfl]
  simp only [textFor, List.singleton_append, stringBody_quoted, dropBlanks_cons (c := ':') rfl, h]

theorem members?_membersChars {levels : Nat} {members : List (String × Json)} (hne : members ≠ [])
    (h : ∀ m ∈ members, Reads levels m.2) (fuel : Nat) (done : List (String × Json))
    (rest : List Char) (hfuel : 2 * (membersChars members).length + 1 ≤ fuel) :
    members? fuel (.keep levels) done (membersChars members ++ '}' :: rest) =
      some (obj (done.reverse ++ members), rest) := by
  induction members generalizing fuel done with
  | nil => exact absurd rfl hne
  | cons m others ih =>
      obtain ⟨name, value⟩ := m
      obtain ⟨fuel, rfl⟩ : ∃ k, fuel = k + 1 := ⟨fuel - 1, by omega⟩
      have hvalue (tail) (hfuel : 2 * value.chars.length ≤ fuel) (hends : NumberText.Ends tail) :=
        (h (name, value) (by simp)).value fuel tail hfuel hends
      cases others with
      | nil =>
          rw [membersChars, List.length_append, List.length_cons] at hfuel
          rw [membersChars, List.append_assoc, List.cons_append, members?_member (.inr rfl)
            (hvalue ('}' :: rest) (by omega) ends_brace), if_neg (by decide)]
          simp
      | cons next others =>
          rw [membersChars] at hfuel ⊢
          · simp only [List.length_append, List.length_cons] at hfuel
            rw [List.append_assoc, List.cons_append, List.append_assoc, List.cons_append,
              members?_member (.inl rfl) (hvalue _ (by omega) ends_comma), if_pos rfl]
            have hrest := ih (by simp) (fun m hm => h m (by simp [hm])) fuel ((name, value) :: done)
              (by omega)
            rw [List.reverse_cons, List.append_assoc] at hrest
            exact hrest
          · simp
          · simp

theorem value?_bracket {levels fuel : Nat} {rest : List Char} :
    value? (fuel + 1) (.keep (levels + 1)) ('[' :: rest) =
      match dropBlanks rest with
      | ']' :: rest => some (arr [], rest)
      | rest => items? fuel (.keep levels) [] rest :=
  rfl

theorem value?_brace {levels fuel : Nat} {rest : List Char} :
    value? (fuel + 1) (.keep (levels + 1)) ('{' :: rest) =
      match dropBlanks rest with
      | '}' :: rest => some (obj [], rest)
      | rest => members? fuel (.keep levels) [] rest :=
  rfl

/-- An element begins where a list could also end. -/
theorem value?_items {levels fuel : Nat} {item : Json} {others : List Json} {rest : List Char}
    (h : item.Opens) :
    value? (fuel + 1) (.keep (levels + 1)) ('[' :: (itemsChars (item :: others) ++ ']' :: rest)) =
      items? fuel (.keep levels) [] (itemsChars (item :: others) ++ ']' :: rest) := by
  obtain ⟨c, cs, hchars, hblank, hclose⟩ := h
  obtain ⟨cs, hhead⟩ : ∃ cs, itemsChars (item :: others) ++ ']' :: rest = c :: cs := by
    cases others <;> simp [itemsChars, hchars]
  rw [value?_bracket, hhead, dropBlanks_cons hblank]
  split
  · next heq => exact absurd (List.cons.inj heq).1 hclose
  · rfl

theorem value?_members {levels fuel : Nat} {m : String × Json} {others : List (String × Json)}
    {rest : List Char} :
    value? (fuel + 1) (.keep (levels + 1))
        ('{' :: (membersChars (m :: others) ++ '}' :: rest)) =
      members? fuel (.keep levels) [] (membersChars (m :: others) ++ '}' :: rest) := by
  obtain ⟨cs, hhead⟩ : ∃ cs, membersChars (m :: others) ++ '}' :: rest = '"' :: cs := by
    cases others <;> simp [membersChars, quoted]
  rw [value?_brace, hhead, dropBlanks_cons rfl]
  rfl

theorem Reads.arr {levels : Nat} {items : List Json} (h : ∀ item ∈ items, Reads levels item) :
    Reads (levels + 1) (arr items) := by
  refine ⟨⟨'[', _, rfl, rfl, by decide⟩, fun fuel rest hfuel _ => ?_⟩
  rw [chars, List.length_cons, List.length_append, List.length_singleton] at hfuel
  obtain ⟨fuel, rfl⟩ : ∃ k, fuel = k + 1 := ⟨fuel - 1, by omega⟩
  rw [chars, List.cons_append, List.append_assoc, List.singleton_append]
  cases items with
  | nil => rfl
  | cons item others =>
      rw [value?_items (h item (by simp)).opens]
      exact items?_itemsChars (by simp) h fuel [] rest (by omega)

theorem Reads.obj {levels : Nat} {members : List (String × Json)}
    (h : ∀ m ∈ members, Reads levels m.2) : Reads (levels + 1) (obj members) := by
  refine ⟨⟨'{', _, rfl, rfl, by decide⟩, fun fuel rest hfuel _ => ?_⟩
  rw [chars, List.length_cons, List.length_append, List.length_singleton] at hfuel
  obtain ⟨fuel, rfl⟩ : ∃ k, fuel = k + 1 := ⟨fuel - 1, by omega⟩
  rw [chars, List.cons_append, List.append_assoc, List.singleton_append]
  cases members with
  | nil => rfl
  | cons m others =>
      rw [value?_members]
      exact members?_membersChars (by simp) h fuel [] rest (by omega)

theorem Reads.of_readable {levels : Nat} {v : Json} (h : Readable levels v) : Reads levels v := by
  induction h with
  | null =>
      refine ⟨⟨'n', _, rfl, rfl, by decide⟩, fun fuel rest hfuel _ => ?_⟩
      obtain ⟨fuel, rfl⟩ : ∃ k, fuel = k + 1 := ⟨fuel - 1, by simp [chars] at hfuel; omega⟩
      rfl
  | bool value =>
      refine ⟨by cases value <;> exact ⟨_, _, rfl, rfl, by decide⟩, fun fuel rest hfuel _ => ?_⟩
      cases value with
      | true =>
          obtain ⟨fuel, rfl⟩ : ∃ k, fuel = k + 1 := ⟨fuel - 1, by simp [chars] at hfuel; omega⟩
          rfl
      | false =>
          obtain ⟨fuel, rfl⟩ : ∃ k, fuel = k + 1 := ⟨fuel - 1, by simp [chars] at hfuel; omega⟩
          rfl
  | num h => exact .num h
  | str text => exact .str text
  | arr _ ih => exact .arr ih
  | obj _ ih => exact .obj ih

/-! ### Whole texts -/

/-- The text of a value is read as the value, with the members of its objects in order. -/
theorem parse?_print {v : Json} (h : Readable nestingLimit v) :
    parse? v.print = some v.canonical := by
  have hread := (Reads.of_readable h).value (fuelFor v.chars) [] (by simp [fuelFor])
    NumberText.ends_nil
  rw [List.append_nil] at hread
  simp [parse?, print, read?, hread, dropBlanks]

end SealedToken.Json
