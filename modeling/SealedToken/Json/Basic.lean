import SealedToken.Number.Binary64

/-!
JSON values and JSON objects. A value keeps the members of an object in the
order in which they were given, because some texts prescribe one. An `Object` is
what headers and claims are made of: its names are distinct and stand in
increasing order, so two objects with the same members are equal.
-/

namespace SealedToken

/-- A JSON number. An integer is one that fits 64 bits, signed or unsigned; it
is never equal to a float. -/
inductive Number
  | int (value : Int)
  | float (value : Binary64)
  deriving DecidableEq, Repr

inductive Json
  | null
  | bool (value : Bool)
  | num (value : Number)
  | str (value : String)
  | arr (items : List Json)
  | obj (members : List (String × Json))
  deriving Repr, Inhabited

namespace Json

/-! ### Decidable equality -/

mutual

def beq : Json → Json → Bool
  | null, null => true
  | bool a, bool b => a == b
  | num a, num b => a == b
  | str a, str b => a == b
  | arr a, arr b => beqItems a b
  | obj a, obj b => beqMembers a b
  | _, _ => false

def beqItems : List Json → List Json → Bool
  | [], [] => true
  | a :: as, b :: bs => beq a b && beqItems as bs
  | _, _ => false

def beqMembers : List (String × Json) → List (String × Json) → Bool
  | [], [] => true
  | (m, a) :: as, (n, b) :: bs => m == n && beq a b && beqMembers as bs
  | _, _ => false

end

mutual

theorem eq_of_beq : (a b : Json) → beq a b = true → a = b
  | null, b, h => by cases b <;> simp_all [beq]
  | bool _, b, h => by cases b <;> simp_all [beq]
  | num _, b, h => by cases b <;> simp_all [beq]
  | str _, b, h => by cases b <;> simp_all [beq]
  | arr as, b, h => by
      cases b with
      | arr bs => rw [eq_of_beqItems as bs (by simpa [beq] using h)]
      | _ => simp [beq] at h
  | obj as, b, h => by
      cases b with
      | obj bs => rw [eq_of_beqMembers as bs (by simpa [beq] using h)]
      | _ => simp [beq] at h

theorem eq_of_beqItems : (as bs : List Json) → beqItems as bs = true → as = bs
  | [], bs, h => by cases bs <;> simp_all [beqItems]
  | a :: as, bs, h => by
      cases bs with
      | nil => simp [beqItems] at h
      | cons b bs =>
          simp only [beqItems, Bool.and_eq_true] at h
          rw [eq_of_beq a b h.1, eq_of_beqItems as bs h.2]

theorem eq_of_beqMembers :
    (as bs : List (String × Json)) → beqMembers as bs = true → as = bs
  | [], bs, h => by cases bs <;> simp_all [beqMembers]
  | (m, a) :: as, bs, h => by
      cases bs with
      | nil => simp [beqMembers] at h
      | cons b bs =>
          obtain ⟨n, b⟩ := b
          simp only [beqMembers, Bool.and_eq_true, beq_iff_eq] at h
          rw [h.1.1, eq_of_beq a b h.1.2, eq_of_beqMembers as bs h.2]

end

mutual

theorem beq_self : (a : Json) → beq a a = true
  | null => by simp [beq]
  | bool _ => by simp [beq]
  | num _ => by simp [beq]
  | str _ => by simp [beq]
  | arr as => by simpa [beq] using beqItems_self as
  | obj as => by simpa [beq] using beqMembers_self as

theorem beqItems_self : (as : List Json) → beqItems as as = true
  | [] => by simp [beqItems]
  | a :: as => by simp [beqItems, beq_self a, beqItems_self as]

theorem beqMembers_self : (as : List (String × Json)) → beqMembers as as = true
  | [] => by simp [beqMembers]
  | (_, a) :: as => by simp [beqMembers, beq_self a, beqMembers_self as]

end

instance : DecidableEq Json := fun a b =>
  if h : beq a b = true then isTrue (eq_of_beq a b h)
  else isFalse fun he => h (he ▸ beq_self a)

/-! ### Equality of values -/

mutual

/-- Equality of values, for which the two zeros among the floats are one. -/
def same : Json → Json → Bool
  | null, null => true
  | bool a, bool b => a == b
  | num (.int a), num (.int b) => a == b
  | num (.float a), num (.float b) => a.same b
  | str a, str b => a == b
  | arr a, arr b => sameItems a b
  | obj a, obj b => sameMembers a b
  | _, _ => false

def sameItems : List Json → List Json → Bool
  | [], [] => true
  | a :: as, b :: bs => same a b && sameItems as bs
  | _, _ => false

def sameMembers : List (String × Json) → List (String × Json) → Bool
  | [], [] => true
  | (m, a) :: as, (n, b) :: bs => m == n && same a b && sameMembers as bs
  | _, _ => false

end

/-! ### Views -/

def int (value : Int) : Json := .num (.int value)

def asString? : Json → Option String
  | .str text => some text
  | _ => none

def asBool? : Json → Option Bool
  | .bool value => some value
  | _ => none

def asItems? : Json → Option (List Json)
  | .arr items => some items
  | _ => none

def isNull : Json → Bool
  | .null => true
  | _ => false

/-- A list of strings, `none` for anything else. -/
def asStrings? : Json → Option (List String)
  | .arr items => items.mapM asString?
  | _ => none

end Json

/-! ### Objects -/

/-- Members under distinct names, in increasing order of the names. Names
compare by code points, which is the order of their bytes. -/
structure Object where
  members : List (String × Json)
  ordered : members.Pairwise fun a b => a.1 < b.1
  deriving DecidableEq

namespace Object

/-- Put a member in its place, replacing the one of the same name. -/
def insertInto (name : String) (value : Json) :
    List (String × Json) → List (String × Json)
  | [] => [(name, value)]
  | (n, v) :: rest =>
      if name < n then (name, value) :: (n, v) :: rest
      else if n < name then (n, v) :: insertInto name value rest
      else (name, value) :: rest

theorem mem_insertInto {name : String} {value : Json} {m : String × Json}
    {members : List (String × Json)} (h : m ∈ insertInto name value members) :
    m = (name, value) ∨ m ∈ members := by
  induction members with
  | nil => simpa [insertInto] using h
  | cons p rest ih =>
      simp only [insertInto] at h
      split at h
      · simpa using h
      · split at h
        · rcases List.mem_cons.1 h with h | h
          · simp [h]
          · rcases ih h with h | h <;> simp [h]
        · rcases List.mem_cons.1 h with h | h <;> simp [h]

theorem ordered_insertInto {name : String} {value : Json}
    {members : List (String × Json)} (h : members.Pairwise fun a b => a.1 < b.1) :
    (insertInto name value members).Pairwise fun a b => a.1 < b.1 := by
  induction members with
  | nil => simp [insertInto]
  | cons p rest ih =>
      rw [List.pairwise_cons] at h
      simp only [insertInto]
      split
      · rename_i hlt
        refine List.pairwise_cons.2 ⟨?_, List.pairwise_cons.2 h⟩
        intro m hm
        rcases List.mem_cons.1 hm with rfl | hm
        · exact hlt
        · exact String.lt_trans hlt (h.1 m hm)
      · split
        · rename_i hgt
          refine List.pairwise_cons.2 ⟨?_, ih h.2⟩
          intro m hm
          rcases mem_insertInto hm with rfl | hm
          · exact hgt
          · exact h.1 m hm
        · rename_i hle hge
          have heq : name = p.1 := String.le_antisymm hge hle
          refine List.pairwise_cons.2 ⟨fun m hm => ?_, h.2⟩
          simpa [heq] using h.1 m hm

def empty : Object := ⟨[], .nil⟩

instance : Inhabited Object := ⟨empty⟩
instance : EmptyCollection Object := ⟨empty⟩

/-- Add a member or replace the one of that name. -/
def insert (o : Object) (name : String) (value : Json) : Object :=
  ⟨insertInto name value o.members, ordered_insertInto o.ordered⟩

/-- The object of a list of members; of two with one name the later counts. -/
def ofMembers (members : List (String × Json)) : Object :=
  members.foldl (fun o m => o.insert m.1 m.2) empty

/-- The members of both, those of the second where both have one. -/
def union (o p : Object) : Object :=
  p.members.foldl (fun o m => o.insert m.1 m.2) o

def find? (o : Object) (name : String) : Option Json :=
  (o.members.find? (·.1 == name)).map (·.2)

def contains (o : Object) (name : String) : Bool :=
  o.members.any (·.1 == name)

def isEmpty (o : Object) : Bool := o.members.isEmpty

def erase (o : Object) (name : String) : Object :=
  ⟨o.members.filter (·.1 != name), o.ordered.filter _⟩

def names (o : Object) : List String := o.members.map (·.1)

def toJson (o : Object) : Json := .obj o.members

/-- The members for which a test holds. -/
def filter (o : Object) (test : String → Json → Bool) : Object :=
  ⟨o.members.filter fun m => test m.1 m.2, o.ordered.filter _⟩

/-- Change the values and keep the names. -/
def mapValues (o : Object) (f : String → Json → Json) : Object :=
  ⟨o.members.map fun m => (m.1, f m.1 m.2), List.pairwise_map.2 o.ordered⟩

end Object

namespace Json

def asObject? : Json → Option Object
  | .obj members => some (Object.ofMembers members)
  | _ => none

mutual

/-- Put the members of every object inside in order, the last of each name. -/
def canonical : Json → Json
  | arr items => arr (canonicalItems items)
  | obj members => (Object.ofMembers (canonicalMembers members)).toJson
  | other => other

def canonicalItems : List Json → List Json
  | [] => []
  | item :: rest => canonical item :: canonicalItems rest

def canonicalMembers : List (String × Json) → List (String × Json)
  | [] => []
  | (name, value) :: rest => (name, canonical value) :: canonicalMembers rest

end

end Json

end SealedToken
