import SealedToken.Bytes.Base64Url
import SealedToken.Error
import SealedToken.Json.Basic

/-!
Reading single parameters of a header.
-/

namespace SealedToken.Header

/-- A parameter that is a string where it occurs. -/
def text? (header : Object) (name : String) : Except Error (Option String) :=
  match header.find? name with
  | none => .ok none
  | some (.str text) => .ok (some text)
  | some _ => .error (.invalidFormat (.headerNotString name))

/-- A parameter that spells bytes where it occurs. -/
def bytes? (header : Object) (name : String) : Except Error (Option ByteArray) :=
  match header.find? name with
  | none => .ok none
  | some (.str text) =>
      match Base64Url.decode? text with
      | some bytes => .ok (some bytes)
      | none => .error (.invalidFormat .base64)
  | some _ => .error (.invalidFormat (.headerNotBase64 name))

/-- A parameter that has to be there and spells bytes. -/
def bytes (header : Object) (name : String) : Except Error ByteArray := do
  match ← bytes? header name with
  | some bytes => pure bytes
  | none => throw (.invalidFormat (.headerMissing name))

/-- A parameter that has to be there. -/
def value (header : Object) (name : String) : Except Error Json :=
  match header.find? name with
  | some value => .ok value
  | none => .error (.invalidFormat (.headerMissing name))

end SealedToken.Header
