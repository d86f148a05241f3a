import SealedToken.Proofs.Json.Record
import SealedToken.Proofs.Json.Unambiguous

/-!
What the text of a value can be read as: the value with each float as the text of that float
is read. A float is rounded twice when it is read, so it is not always read as itself.
-/

namespace SealedToken.Json

variable {v w : Json} {rest left : List Char} {levels fuel : Nat}

mutual

/-- The value with each float as its text is read. -/
def reread : Json → Json
  | num n => num n.reread
  | arr items => arr (rereadItems items)
  | obj members => obj (rereadMembers members)
  | other => other

def rereadItems : List Json → List Json
  | [] => []
  | item :: rest => reread item :: rereadItems rest

def rereadMembers : List (String × Json) → List (String × Json)
  | [] => []
  | (name, value) :: rest => (name, reread value) :: rereadMembers rest

end

theorem rereadItems_eq_map (items : List Json) : rereadItems items = items.map reread := by
  induction items with
  | nil => rfl
  | cons item rest ih => rw [rereadItems, ih, List.map_cons]

theorem rereadMembers_eq_map (members : List (String × Json)) :
    rereadMembers members = members.map fun m => (m.1, m.2.reread) := by
  induction members with
  | nil => rfl
  | cons m rest ih => rw [rereadMembers, ih, List.map_cons]

@[simp] theorem reread_eq_str {text : String} : v.reread = str text ↔ v = str text := by
  cases v <;> simp [reread]

/-- The members of a proper value are in order. -/
theorem Proper.canonical_eq (h : v.Proper) : v.canonical = v := by
  induction h with
  | null => rfl
  | bool value => rfl
  | num h => rfl
  | str text => rfl
  | @arr items h ih =>
      rw [canonical, canonicalItems_eq_map]
      exact congrArg Json.arr ((List.map_congr_left ih).trans (List.map_id _))
  | @obj members h ordered ih =>
      have hmembers : canonicalMembers members = members := by
        rw [canonicalMembers_eq_map]
        refine (List.map_congr_left (g := id) fun m hm => ?_).trans (List.map_id _)
        exact Prod.ext rfl (ih m hm)
      rw [canonical, hmembers]
      exact congrArg Object.toJson (Object.ofMembers_members (o := ⟨_, ordered⟩))

/-- Reading leaves the members in order. -/
theorem Proper.canonical_reread (h : v.Proper) : v.reread.canonical = v.reread := by
  induction h with
  | null => rfl
  | bool value => rfl
  | num h => rfl
  | str text => rfl
  | @arr items h ih =>
      rw [reread, canonical, rereadItems_eq_map, canonicalItems_eq_map, List.map_map]
      exact congrArg Json.arr (List.map_congr_left ih)
  | @obj members h ordered ih =>
      have hmembers : canonicalMembers (rereadMembers members) = rereadMembers members := by
        rw [canonicalMembers_eq_map, rereadMembers_eq_map, List.map_map]
        exact List.map_congr_left fun m hm => Prod.ext rfl (ih m hm)
      have hordered : (rereadMembers members).Pairwise fun a b => a.1 < b.1 := by
        rw [rereadMembers_eq_map]
        exact List.pairwise_map.2 ordered
      rw [reread, canonical, hmembers]
      exact congrArg Object.toJson (Object.ofMembers_members (o := ⟨_, hordered⟩))

/-! ### Elements and members -/

/-- Whatever the text of the value is read as, it is the value reread, and what stands behind
it is left. -/
def ReadOnlyAs (v : Json) : Prop :=
  ∀ fuel levels rest w left, NumberText.Ends rest →
    value? fuel (.keep levels) (v.chars ++ rest) = some (w, left) → w = v.reread ∧ left = rest

theorem items?_eq_some {items done : List Json} (hne : items ≠ [])
    (h : ∀ item ∈ items, ReadOnlyAs item)
    (hread : items? fuel (.keep levels) done (itemsChars items ++ ']' :: rest) = some (w, left)) :
    w = arr (done.reverse ++ rereadItems items) ∧ left = rest := by
  induction items generalizing fuel done with
  | nil => exact absurd rfl hne
  | cons item others ih =>
      cases fuel with
      | zero => simp [items?] at hread
      | succ fuel =>
          cases others with
          | nil =>
              rw [itemsChars, items?] at hread
              split at hread
              · simp at hread
              · next hvalue =>
                  obtain ⟨rfl, rfl⟩ := h item (by simp) _ _ _ _ _ ends_bracket hvalue
                  rw [dropBlanks_cons rfl] at hread
                  obtain ⟨rfl, rfl⟩ := Prod.mk.inj (Option.some.inj hread)
                  simp [rereadItems]
          | cons next others =>
              rw [itemsChars, List.append_assoc, List.cons_append, items?] at hread
              · split at hread
                · simp at hread
                · next hvalue =>
                    obtain ⟨rfl, rfl⟩ := h item (by simp) _ _ _ _ _ ends_comma hvalue
                    rw [dropBlanks_cons rfl] at hread
                    obtain ⟨rfl, rfl⟩ := ih (by simp) (fun i hi => h i (by simp [hi])) hread
                    simp [rereadItems]
              · simp

/-- What is read of one member in front of the rest of an object. -/
theorem ReadOnlyAs.member {name : String} {c : Char} {done : List (String × Json)}
    {found : Json × List Char} (h : ReadOnlyAs v) (hc : c = ',' ∨ c = '}')
    (hread : members? (fuel + 1) (.keep levels) done
      (quoted name ++ ':' :: (v.chars ++ c :: rest)) = some found) :
    (if c = ',' then members? fuel (.keep levels) ((name, v.reread) :: done) rest
      else some (obj ((name, v.reread) :: done).reverse, rest)) = some found := by
  have hends : NumberText.Ends (c :: rest) := by
    rcases hc with rfl | rfl
    · exact ends_comma
    · exact ends_brace
  cases hvalue : value? fuel (.keep levels) (v.chars ++ c :: rest) with
  | none => simp [members?_none hvalue] at hread
  | some found =>
      obtain ⟨w, left⟩ := found
      obtain ⟨rfl, rfl⟩ := h _ _ _ _ _ hends hvalue
      rwa [members?_member hc hvalue] at hread

theorem members?_eq_some {members done : List (String × Json)} (hne : members ≠ [])
    (h : ∀ m ∈ members, ReadOnlyAs m.2)
    (hread : members? fuel (.keep levels) done (membersChars members ++ '}' :: rest) =
      some (w, left)) :
    w = obj (done.reverse ++ rereadMembers members) ∧ left = rest := by
  induction members generalizing fuel done with
  | nil => exact absurd rfl hne
  | cons m others ih =>
      obtain ⟨name, value⟩ := m
      have hvalue : ReadOnlyAs value := h (name, value) (by simp)
      cases fuel with
      | zero => simp [members?] at hread
      | succ fuel =>
          cases others with
          | nil =>
              rw [membersChars, List.append_assoc, List.cons_append] at hread
              have hrest := hvalue.member (.inr rfl) hread
              rw [if_neg (by decide)] at hrest
              obtain ⟨rfl, rfl⟩ := Prod.mk.inj (Option.some.inj hrest)
              simp [rereadMembers]
          | cons next others =>
              rw [membersChars, List.append_assoc, List.cons_append, List.append_assoc,
                List.cons_append] at hread
              · have hrest := hvalue.member (.inl rfl) hread
                rw [if_pos rfl] at hrest
                obtain ⟨rfl, rfl⟩ := ih (by simp) (fun m hm => h m (by simp [hm])) hrest
                simp [rereadMembers]
              · simp

/-! ### Values -/

theorem ReadOnlyAs.num {n : Number} (h : n.Proper) : ReadOnlyAs (num n) := by
  intro fuel levels rest w left hends hread
  have htext := NumberText.read?_chars h.wellFormed hends
  rw [Number.chars_text] at htext
  cases fuel with
  | zero => simp [value?] at hread
  | succ fuel =>
      obtain ⟨c, cs, hchars, hbegins⟩ := h.chars_eq_cons
      rw [chars, hchars, List.cons_append, value?_number hbegins, ← List.cons_append, ← hchars]
        at hread
      simp only [numberFor, htext, Option.bind_eq_bind, Option.bind_some, Option.map_eq_some_iff,
        Prod.mk.injEq] at hread
      obtain ⟨m, hm, rfl, rfl⟩ := hread
      rw [reread, h.reread_eq hm]
      exact ⟨rfl, rfl⟩

theorem ReadOnlyAs.arr {items : List Json} (hproper : ∀ item ∈ items, Proper item)
    (h : ∀ item ∈ items, ReadOnlyAs item) : ReadOnlyAs (arr items) := by
  intro fuel levels rest w left _ hread
  rw [chars, List.cons_append, List.append_assoc, List.singleton_append] at hread
  cases fuel with
  | zero => simp [value?] at hread
  | succ fuel =>
      cases levels with
      | zero => simp [value?, dropBlanks_cons, isBlank, Purpose.deeper?] at hread
      | succ levels =>
          cases items with
          | nil =>
              obtain ⟨rfl, rfl⟩ := Prod.mk.inj (Option.some.inj hread)
              exact ⟨rfl, rfl⟩
          | cons item others =>
              rw [value?_items (hproper item (by simp)).opens] at hread
              exact items?_eq_some (by simp) h hread

theorem ReadOnlyAs.obj {members : List (String × Json)} (h : ∀ m ∈ members, ReadOnlyAs m.2) :
    ReadOnlyAs (obj members) := by
  intro fuel levels rest w left _ hread
  rw [chars, List.cons_append, List.append_assoc, List.singleton_append] at hread
  cases fuel with
  | zero => simp [value?] at hread
  | succ fuel =>
      cases levels with
      | zero => simp [value?, dropBlanks_cons, isBlank, Purpose.deeper?] at hread
      | succ levels =>
          cases members with
          | nil =>
              obtain ⟨rfl, rfl⟩ := Prod.mk.inj (Option.some.inj hread)
              exact ⟨rfl, rfl⟩
          | cons m others =>
              rw [value?_members] at hread
              exact members?_eq_some (by simp) h hread

theorem ReadOnlyAs.of_proper (h : v.Proper) : ReadOnlyAs v := by
  induction h with
  | null =>
      intro fuel levels rest w left _ hread
      cases fuel with
      | zero => simp [value?] at hread
      | succ fuel =>
          obtain ⟨rfl, rfl⟩ := Prod.mk.inj (Option.some.inj hread)
          exact ⟨rfl, rfl⟩
  | bool value =>
      intro fuel levels rest w left _ hread
      cases fuel with
      | zero => simp [value?] at hread
      | succ fuel =>
          cases value <;> obtain ⟨rfl, rfl⟩ := Prod.mk.inj (Option.some.inj hread) <;>
            exact ⟨rfl, rfl⟩
  | num h => exact .num h
  | str text =>
      intro fuel levels rest w left _ hread
      cases fuel with
      | zero => simp [value?] at hread
      | succ fuel =>
          rw [chars, quoted, List.cons_append, List.append_assoc, value?_quote,
            List.singleton_append, stringBody_quoted] at hread
          obtain ⟨rfl, rfl⟩ := Prod.mk.inj (Option.some.inj hread)
          exact ⟨rfl, rfl⟩
  | arr h ih => exact .arr h ih
  | obj h _ ih => exact .obj ih

/-- What the text of a value is read as, if it is read. -/
theorem Proper.eq_of_parse? (h : v.Proper) (hread : parse? v.print = some w) : w = v.reread := by
  rw [parse?, print, String.toList_ofList] at hread
  split at hread
  · next hvalue =>
      rw [read?, ← List.append_nil v.chars] at hvalue
      obtain ⟨rfl, rfl⟩ := ReadOnlyAs.of_proper h _ _ _ _ _ NumberText.ends_nil hvalue
      obtain rfl := Option.some.inj hread
      exact h.canonical_reread
  · simp at hread

end SealedToken.Json
