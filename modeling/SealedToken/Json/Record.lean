import SealedToken.Error
import SealedToken.Json.Reader

/-!
Reading objects whose members are known beforehand straight from a text. The
members are handled one after the other in the order of the text, so a fault in
one of them is found before anything behind it is looked at.
-/

namespace SealedToken.Json

/-- The fault of a text that is no JSON or has another shape. -/
def shapeFault : Error := .invalidFormat (.json none)

/-- What is done with one part of a text: take it from the front and change a
state by it. -/
abbrev Step (σ : Type) := σ → List Char → Except Error (σ × List Char)

/-- Read the members of an object from the next one on; `step` is told the name
of the member whose value comes next. -/
def foldMembers {σ : Type} (step : String → Step σ) : (fuel : Nat) → Step σ
  | 0, _, _ => throw shapeFault
  | fuel + 1, s, cs =>
      match dropBlanks cs with
      | '"' :: rest =>
          match stringBody [] rest with
          | none => throw shapeFault
          | some (name, rest) =>
              match dropBlanks rest with
              | ':' :: rest => do
                  let (s, rest) ← step name s rest
                  match dropBlanks rest with
                  | ',' :: rest => foldMembers step fuel s rest
                  | '}' :: rest => pure (s, rest)
                  | _ => throw shapeFault
              | _ => throw shapeFault
      | _ => throw shapeFault

/-- Read the elements of an array from the next one on. -/
def foldItems {σ : Type} (step : Step σ) : (fuel : Nat) → Step σ
  | 0, _, _ => throw shapeFault
  | fuel + 1, s, cs => do
      let (s, rest) ← step s cs
      match dropBlanks rest with
      | ',' :: rest => foldItems step fuel s rest
      | ']' :: rest => pure (s, rest)
      | _ => throw shapeFault

/-- Read an object behind its opening brace. -/
def objectRest {σ : Type} (step : String → Step σ) : Step σ := fun s cs =>
  match dropBlanks cs with
  | '}' :: rest => pure (s, rest)
  | rest => foldMembers step rest.length s rest

/-- Read an array behind its opening bracket. -/
def arrayRest {σ : Type} (step : Step σ) : Step σ := fun s cs =>
  match dropBlanks cs with
  | ']' :: rest => pure (s, rest)
  | rest => foldItems step rest.length s rest

/-- Take a value and keep it. -/
def keep (cs : List Char) : Except Error (Json × List Char) :=
  match read? (.keep nestingLimit) cs with
  | some (value, rest) => pure (value, rest)
  | none => throw shapeFault

/-- Pass over a value. -/
def passOver (cs : List Char) : Except Error (List Char) :=
  match read? .skip cs with
  | some (_, rest) => pure rest
  | none => throw shapeFault

/-- The members with known names, each of which may occur once. -/
abbrev Record := List (String × Json)

def Record.find? (r : Record) (name : String) : Option Json :=
  (List.find? (·.1 == name) r).map (·.2)

/-- Keep a member with a known name and pass over any other. -/
def Record.step (names : List String) (name : String) : Step Record := fun r cs =>
  if names.contains name then
    if (r.find? name).isSome then throw shapeFault
    else do
      let (value, rest) ← keep cs
      pure ((name, value) :: r, rest)
  else do
    let rest ← passOver cs
    pure (r, rest)

/-- A record in the form of an array: the members in the order of their names, of
which the first `least` have to be there. -/
def Record.ofItems (names : List String) (least : Nat) (items : List Json) :
    Except Error Record :=
  if least ≤ items.length ∧ items.length ≤ names.length then pure (names.zip items)
  else throw shapeFault

/-- The record at the front of a text, and the rest. In the form of an array it
has all its members. -/
def Record.read (names : List String) (cs : List Char) : Except Error (Record × List Char) :=
  match dropBlanks cs with
  | '{' :: rest => objectRest (Record.step names) [] rest
  | rest => do
      match ← keep rest with
      | (.arr items, rest) => do
          let r ← Record.ofItems names names.length items
          pure (r, rest)
      | _ => throw shapeFault

/-- The record that a value is. -/
def Record.ofJson (names : List String) (least : Nat) : Json → Except Error Record
  | .obj members => pure (members.filter fun m => names.contains m.1)
  | .arr items => Record.ofItems names least items
  | _ => throw shapeFault

/-! ### Typed members -/

/-- A member that is read as `read?` says; null counts as absent. -/
def Record.optional {α : Type} (r : Record) (read? : Json → Option α) (name : String) :
    Except Error (Option α) :=
  match r.find? name with
  | none => pure none
  | some .null => pure none
  | some value =>
      match read? value with
      | some a => pure (some a)
      | none => throw shapeFault

/-- A member that has to be there. -/
def Record.required {α : Type} (r : Record) (read? : Json → Option α) (name : String) :
    Except Error α :=
  match (r.find? name).bind read? with
  | some a => pure a
  | none => throw shapeFault

/-- A member that stands for `default` while it is absent. -/
def Record.withDefault {α : Type} (r : Record) (read? : Json → Option α) (default : α)
    (name : String) : Except Error α :=
  match r.find? name with
  | none => pure default
  | some value =>
      match read? value with
      | some a => pure a
      | none => throw shapeFault

/-- A name among several, alone or as the only name of an object. -/
def asName? {α : Type} (ofName? : String → Option α) : Json → Option α
  | .str name => ofName? name
  | .obj [(name, .null)] => ofName? name
  | _ => none

/-- Nothing but blanks may stand behind a value. -/
def endOfText (cs : List Char) : Except Error Unit :=
  if (dropBlanks cs).isEmpty then pure () else throw shapeFault

end SealedToken.Json
