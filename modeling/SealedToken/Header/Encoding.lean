import SealedToken.Bytes.Base64Url
import SealedToken.Error
import SealedToken.Json.Printer
import SealedToken.Json.Reader

/-!
The written form of a protected header, and headers under construction.
-/

namespace SealedToken.Header

/-- An absent or empty header is written as nothing. -/
def encode (header : Option Object) : String :=
  match header with
  | none => ""
  | some h => if h.isEmpty then "" else Base64Url.encode h.toJson.print.toUTF8

/-- Bytes that have to be written strictly. -/
def decodeBytes (text : String) : Except Error ByteArray :=
  match Base64Url.decode? text with
  | some bytes => .ok bytes
  | none => .error (.invalidFormat .base64)

/-- Nothing is read as an absent header. -/
def decode (text : String) : Except Error (Option Object) :=
  if text.isEmpty then .ok none
  else do
    let bytes ← decodeBytes text
    match Json.parseBytes? bytes with
    | none => throw (.invalidFormat (.json none))
    | some value =>
        match value.asObject? with
        | some header => pure (some header)
        | none => throw (.invalidFormat .protectedNotObject)

/-- An empty header counts as absent. -/
def nonempty (header : Option Object) : Option Object :=
  header.filter (! ·.isEmpty)

end SealedToken.Header

namespace SealedToken

/-- A header under construction; it may be absent as a whole. -/
structure Headers where
  object : Option Object := none
  deriving DecidableEq

namespace Headers

def find? (h : Headers) (name : String) : Option Json := h.object.bind (·.find? name)

/-- Absent or without members. -/
def isNone (h : Headers) : Bool := h.object.all (·.isEmpty)

/-- Set a parameter, whether or not it is there. -/
def set (h : Headers) (name : String) (value : Json) : Headers :=
  ⟨some ((h.object.getD .empty).insert name value)⟩

/-- Set all parameters that an object has. -/
def setAll (h : Headers) (value : Json) : Except Error Headers :=
  match value.asObject? with
  | some added => .ok ⟨some ((h.object.getD .empty).union added)⟩
  | none => .error (.invalidFormat .headersNotObject)

/-- Read the parameters with a reader of objects. -/
def decode {α : Type} (h : Headers) (read : Object → Except Error α) : Except Error α :=
  match h.object with
  | some header => read header
  | none => .error (.invalidOperation .noHeaders)

def toJson (h : Headers) : Json :=
  match h.object with
  | some header => header.toJson
  | none => .null

end Headers

end SealedToken
