import SealedToken.Key.Basic
import SealedToken.Text.Unseen

/-!
The description of a key for people: its restrictions and names, and whether it
has a private part, but none of its material.
-/

namespace SealedToken

namespace Text

/-- A character inside a quoted text; what would not be seen is written as its
number. -/
def described (c : Char) : List Char :=
  if c = '"' then ['\\', '"']
  else if c = '\\' then ['\\', '\\']
  else if c = '\n' then ['\\', 'n']
  else if c = '\r' then ['\\', 'r']
  else if c = '\t' then ['\\', 't']
  else if c.toNat = 0 then ['\\', '0']
  else if isUnseen c then '\\' :: 'u' :: '\x7b' :: (Nat.toDigits 16 c.toNat ++ ['\x7d'])
  else [c]

def describedQuoted (text : String) : String :=
  String.ofList ('"' :: (text.toList.flatMap described ++ ['"']))

end Text

/-- An optional part, with a word that says whether it is there. -/
def describedOption {α : Type} (f : α → String) : Option α → String
  | none => "None"
  | some a => s!"Some({f a})"

def Jwk.description (key : Jwk) : String :=
  let operations (ops : List KeyOperation) :=
    "[" ++ ", ".intercalate (ops.map KeyOperation.title) ++ "]"
  let parts := [
    "kty: " ++ Text.describedQuoted key.type.name,
    "kid: " ++ describedOption Text.describedQuoted key.kid,
    "use: " ++ describedOption KeyUse.title key.use,
    "key_ops: " ++ describedOption operations key.operations,
    "alg: " ++ describedOption Text.describedQuoted key.alg,
    "private: " ++ toString key.hasPrivate]
  "JWK \x7b " ++ ", ".intercalate parts ++ " \x7d"

end SealedToken
