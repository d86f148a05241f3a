import SealedToken.Json.Bytes
import SealedToken.Json.Record
import SealedToken.Proofs.Json.RoundTrip
import SealedToken.Proofs.Object
import SealedToken.Proofs.Outcome
import SealedToken.Proofs.Text

/-!
Members of an object that is written and read again. What is found under a name is what
was written there, whatever order the members have.
-/

namespace SealedToken.Json

variable {members r s : Record} {name n : String} {value : Json}

/-! ### What is found under a name -/

namespace Record

@[simp] theorem find?_nil : find? [] n = none := rfl

@[simp] theorem find?_cons :
    find? ((name, value) :: r) n = if name = n then some value else find? r n := by
  by_cases h : name = n <;> simp [find?, h]

@[simp] theorem find?_append : find? (r ++ s) n = (find? r n).or (find? s n) := by
  simp only [find?, List.find?_append, Option.map_or]

theorem mem_of_find? (h : find? r n = some value) : (n, value) ∈ r := by
  obtain ⟨m, hm, rfl⟩ := Option.map_eq_some_iff.1 h
  have hname : m.1 = n := by simpa using List.find?_some hm
  rw [← hname]
  exact List.mem_of_find?_eq_some hm

@[simp] theorem find?_textMember {text : String} :
    find? (textMember name text) n = if name = n ∧ text ≠ "" then some (.str text) else none := by
  unfold textMember
  by_cases htext : text = "" <;> simp [htext]

@[simp] theorem find?_optionMember {α : Type} {write : α → Json} {member : Option α} :
    find? (optionMember name write member) n = if name = n then member.map write else none := by
  cases member <;> simp [optionMember]

/-- A member that is wanted is kept. -/
theorem find?_filter {names : List String} (h : names.contains n = true) :
    find? (r.filter fun m => names.contains m.1) n = find? r n := by
  rw [find?, List.find?_filter, find?]
  congr 2
  funext m
  by_cases hm : m.1 = n <;> simp_all

/-! ### Typed members -/

theorem withDefault_text {text : String}
    (h : find? r name = if text = "" then none else some (.str text)) :
    r.withDefault asString? "" name = .ok text := by
  by_cases htext : text = "" <;> simp [withDefault, h, htext, asString?]

theorem optional_eq_ok {α : Type} {read? : Json → Option α} {member : Option α}
    (write : α → Json) (h : find? r name = member.map write)
    (hread : ∀ a, member = some a → read? (write a) = some a ∧ write a ≠ null) :
    r.optional read? name = .ok member := by
  cases member with
  | none => simp [optional, h]
  | some a =>
      obtain ⟨hread, hnull⟩ := hread a rfl
      rw [optional, h, Option.map_some]
      split <;> simp_all

theorem required_eq_ok {α : Type} {read? : Json → Option α} {a : α} (value : Json)
    (h : find? r name = some value) (hread : read? value = some a) :
    r.required read? name = .ok a := by
  simp [required, h, hread]

end Record

/-- What holds of the value of an optional member holds of the member. -/
theorem forall_mem_optionMember {α : Type} {write : α → Json} {member : Option α}
    {P : Json → Prop} (h : ∀ a, member = some a → P (write a)) :
    ∀ m ∈ optionMember name write member, P m.2 := by
  cases member with
  | none => simp [optionMember]
  | some a => simpa [optionMember] using h a rfl

/-! ### Distinct names -/

theorem names_textMember {text : String} : ((textMember name text).map (·.1)).Sublist [name] := by
  unfold textMember
  split <;> simp

theorem names_optionMember {α : Type} {write : α → Json} {member : Option α} :
    ((optionMember name write member).map (·.1)).Sublist [name] := by
  cases member <;> simp [optionMember]

theorem distinct_of_sublist {names : List String} (h : (members.map (·.1)).Sublist names)
    (hnames : names.Nodup) : members.Pairwise fun a b => a.1 ≠ b.1 :=
  List.pairwise_map.1 (hnames.sublist h)

/-- There is nothing under other names. -/
theorem find?_eq_none {names : List String} (h : (members.map (·.1)).Sublist names)
    (hn : n ∉ names) : Record.find? members n = none := by
  rw [Record.find?, Option.map_eq_none_iff, List.find?_eq_none]
  intro m hm heq
  obtain rfl : m.1 = n := by simpa using heq
  exact hn (h.subset (List.mem_map_of_mem hm))

/-! ### The canonical object -/

theorem canonicalMembers_eq_map :
    canonicalMembers members = members.map fun m => (m.1, m.2.canonical) := by
  induction members with
  | nil => rfl
  | cons m rest ih => rw [canonicalMembers, ih, List.map_cons]

theorem canonicalItems_eq_map {items : List Json} : canonicalItems items = items.map canonical := by
  induction items with
  | nil => rfl
  | cons item rest ih => rw [canonicalItems, ih, List.map_cons]

theorem find?_canonicalMembers :
    Record.find? (canonicalMembers members) n = (Record.find? members n).map canonical := by
  induction members with
  | nil => rfl
  | cons m rest ih =>
      rw [canonicalMembers, Record.find?_cons, ih, Record.find?_cons]
      split <;> rfl

/-- The object that is read when members of distinct names have been written. -/
theorem find?_canonical (distinct : members.Pairwise fun a b => a.1 ≠ b.1) :
    (Object.ofMembers (canonicalMembers members)).find? n =
      (Record.find? members n).map canonical := by
  rw [← find?_canonicalMembers, canonicalMembers_eq_map]
  exact Object.find?_ofMembers (List.pairwise_map.2 distinct)

/-! ### The text of an object -/

theorem readable_textMember {levels : Nat} {text : String} :
    ∀ m ∈ textMember name text, m.2.Readable levels := by
  unfold textMember
  split
  · simp
  · simpa using Readable.str text

theorem startsObject_print_obj : startsObject (obj members).print = true := by
  simp [startsObject, print, chars]

/-- The text of an object begins and ends with its braces. -/
theorem trim_print_obj : Text.trim (obj members).print = (obj members).print := by
  have hchars : (obj members).print.toList = '{' :: (membersChars members ++ ['}']) := by
    rw [print, String.toList_ofList, chars]
  refine Text.trim_eq_self (fun c hc => ?_) fun c hc => ?_
  · rw [hchars] at hc
    obtain rfl := Option.some.inj hc
    rfl
  · rw [hchars, ← List.cons_append, List.getLast?_concat] at hc
    obtain rfl := Option.some.inj hc
    rfl

end SealedToken.Json
