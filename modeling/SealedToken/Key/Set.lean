import SealedToken.Key.Json

/-!
Sets of keys, and the keys that are tried for a token.
-/

namespace SealedToken

/-- Keys in the order in which they are tried. -/
structure KeySet where
  keys : List Jwk := []
  deriving DecidableEq

namespace KeySet

def add (set : KeySet) (key : Jwk) : KeySet := ⟨set.keys ++ [key]⟩

/-- The first key with an identifier. -/
def find? (set : KeySet) (kid : String) : Option Jwk :=
  set.keys.find? (·.kid == some kid)

/-- Read one more key of an array. -/
def keyStep : Json.Step (List Jwk) := fun keys cs => do
  let (key, rest) ← Jwk.read cs
  pure (keys ++ [key], rest)

/-- The array of keys at the front of a text, and the rest. -/
def readKeys (cs : List Char) : Except Error (List Jwk × List Char) :=
  match Json.dropBlanks cs with
  | '[' :: rest => Json.arrayRest keyStep [] rest
  | _ => throw Json.shapeFault

/-- Read the keys of a set, which may be given once, or pass over a member. -/
def memberStep (name : String) : Json.Step (Option (List Jwk)) := fun found cs =>
  if name = "keys" then
    if found.isSome then throw Json.shapeFault
    else do
      let (keys, rest) ← readKeys cs
      pure (some keys, rest)
  else do
    let rest ← Json.passOver cs
    pure (found, rest)

/-- The set at the front of a text, and the rest. A set is an object or an array
of its only member. -/
def read (cs : List Char) : Except Error (KeySet × List Char) :=
  match Json.dropBlanks cs with
  | '{' :: rest => do
      match ← Json.objectRest memberStep none rest with
      | (some keys, rest) => pure (⟨keys⟩, rest)
      | (none, _) => throw Json.shapeFault
  | '[' :: rest => do
      let (keys, rest) ← readKeys rest
      match Json.dropBlanks rest with
      | ']' :: rest => pure (⟨keys⟩, rest)
      | _ => throw Json.shapeFault
  | _ => throw Json.shapeFault

def ofText (text : String) : Except Error KeySet := do
  let (set, rest) ← read text.toList
  Json.endOfText rest
  pure set

def toText (set : KeySet) : String :=
  (Json.obj [("keys", .arr (set.keys.map Jwk.toJson))]).print

end KeySet

/-- The keys offered for verification or decryption. -/
inductive KeySource
  | single (key : Jwk)
  | anyOf (set : KeySet)

/-- The keys that are tried for a token. An identifier restricts a set to the
keys that carry it; a single key is always tried. -/
def KeySource.offered (source : KeySource) (kid : Option String) : List Jwk :=
  match source, kid with
  | .single key, _ => [key]
  | .anyOf set, some kid => set.keys.filter (·.kid == some kid)
  | .anyOf set, none => set.keys

def KeySource.candidates (source : KeySource) (kid : Option String) : Except Error (List Jwk) :=
  match source.offered kid with
  | [] => .error .keyNotFound
  | keys => .ok keys

end SealedToken
