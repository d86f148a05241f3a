import SealedToken.Bytes.Base64Url
import SealedToken.Json.Basic

/-!
Members of objects that spell bytes, and members that may be left out.
-/

namespace SealedToken.Json

def ofBytes (bytes : ByteArray) : Json := .str (Base64Url.encode bytes)

/-- A member that is left out when it is empty. -/
def textMember (name text : String) : List (String × Json) :=
  if text.isEmpty then [] else [(name, .str text)]

/-- A member that is left out when it is absent. -/
def optionMember {α : Type} (name : String) (write : α → Json) (value : Option α) :
    List (String × Json) :=
  match value with
  | some a => [(name, write a)]
  | none => []

end SealedToken.Json
