import SealedToken.Header.Encoding
import SealedToken.Json.Bytes
import SealedToken.Json.Record
import SealedToken.Jws.Basic
import SealedToken.Text.Blank
import SealedToken.Text.Segments
import SealedToken.Text.Utf8

/-!
The written forms of signed tokens: three segments, or a JSON object with one
signature, or a JSON object with a list of signatures.
-/

namespace SealedToken.Jws

/-! ### Writing -/

/-- The payload as it is written, none while it is detached. -/
def payloadText? (t : Jws) (encoded : Bool) : Except Error (Option String) :=
  match t.held with
  | none => .ok none
  | some payload =>
      if encoded then .ok (some (Base64Url.encode payload))
      else
        match Utf8.decode payload with
        | .ok text => .ok (some text)
        | .error fault => .error (.invalidOperation (.payloadNotText fault))

/-- Can a signature stand in a compact token? -/
def checkCompact (s : SealedToken.Signature) : Except Error Unit :=
  if (Header.nonempty s.header).isSome then .error (.invalidOperation .compactSignedHeader)
  else if ! s.protectedHeader.any (·.contains "alg") then
    .error (.invalidOperation .compactSignedAlgorithm)
  else .ok ()

/-- The compact form, which has exactly one signature. -/
def compactText (t : Jws) (encoded : Bool) (payload : Option String) : Except Error String :=
  match t.signatures with
  | [s] => do
      checkCompact s
      let payload := payload.getD ""
      if ! encoded && payload.toList.contains '.' then
        throw (.invalidOperation .compactPayloadDot)
      pure (Text.joinSegments [s.protectedText, payload, Base64Url.encode s.bytes])
  | others => .error (.invalidOperation (.compactSignatures others.length))

def signatureMembers (s : SealedToken.Signature) : List (String × Json) :=
  Json.textMember "protected" s.protectedText ++
    Json.optionMember "header" Object.toJson (Header.nonempty s.header) ++
    [("signature", .ofBytes s.bytes)]

/-- The JSON form, flat for a single signature. -/
def jsonText (t : Jws) (payload : Option String) : Except Error String :=
  let payload := Json.optionMember "payload" Json.str payload
  match t.signatures with
  | [] => .error (.invalidOperation .serializeUnsigned)
  | [s] => .ok (Json.obj (payload ++ signatureMembers s)).print
  | others =>
      let list := others.map fun s => Json.obj (signatureMembers s)
      .ok (Json.obj (payload ++ [("signatures", .arr list)])).print

/-- Write a token in its compact or its JSON form. -/
def serialize (t : Jws) (compact : Bool) : Except Error String := do
  let encoded ← t.encodesPayload
  let payload ← t.payloadText? encoded
  if compact then t.compactText encoded payload else t.jsonText payload

/-! ### Reading -/

/-- A signature from its written parts. -/
def readSignature (protectedText : String) (header : Option Object) (bytesText : String) :
    Except Error SealedToken.Signature := do
  let protectedHeader ← Header.decode protectedText
  let bytes ← Header.decodeBytes bytesText
  pure { protectedHeader, protectedText, header, bytes }

/-- A payload as the protected header of the first signature says. -/
def readPayload (text : String) (protectedHeader : Option Object) : Except Error ByteArray := do
  if ← payloadEncoded protectedHeader .empty then Header.decodeBytes text
  else pure text.toUTF8

def readCompact (text : String) :
    Except Error (Option ByteArray × List SealedToken.Signature) :=
  match Text.segments text with
  | [protectedText, payload, bytesText] => do
      let s ← readSignature protectedText none bytesText
      let payload ← readPayload payload s.protectedHeader
      pure (some payload, [s])
  | _ => .error (.invalidFormat .signedSegments)

def signatureMemberNames : List String := ["protected", "header", "signature"]

/-- The written parts of a signature. -/
structure WrittenSignature where
  protectedText : String
  header : Option Object
  bytesText : String

def WrittenSignature.ofRecord (r : Json.Record) : Except Error WrittenSignature := do
  pure {
    protectedText := ← r.withDefault Json.asString? "" "protected"
    header := ← r.optional Json.asObject? "header"
    bytesText := ← r.required Json.asString? "signature" }

def WrittenSignature.ofJson (value : Json) : Except Error WrittenSignature := do
  WrittenSignature.ofRecord (← Json.Record.ofJson signatureMemberNames 3 value)

/-- The written payload and signatures of an object. -/
def readMembers (object : Object) : Except Error (Option String × List WrittenSignature) := do
  let r : Json.Record := object.members
  if object.contains "signatures" then
    if object.contains "signature" then throw (.invalidFormat .signedBothForms)
    let payload ← r.optional Json.asString? "payload"
    let items ← r.required Json.asItems? "signatures"
    pure (payload, ← items.mapM WrittenSignature.ofJson)
  else
    let payload ← r.optional Json.asString? "payload"
    pure (payload, [← WrittenSignature.ofRecord r])

def readJson (text : String) : Except Error (Option ByteArray × List SealedToken.Signature) := do
  match (Json.parse? text).bind Json.asObject? with
  | none => throw Json.shapeFault
  | some object =>
      let (payload, written) ← readMembers object
      let signatures ← written.mapM fun w => readSignature w.protectedText w.header w.bytesText
      match signatures with
      | [] => throw (.invalidFormat .noSignatures)
      | first :: _ =>
          match payload with
          | none => pure (none, signatures)
          | some text =>
              let bytes ← readPayload text first.protectedHeader
              pure (some bytes, signatures)

/-- All signatures have the mode of the first. -/
def checkModes (first : SealedToken.Signature) : List SealedToken.Signature → Except Error Unit
  | [] => .ok ()
  | s :: rest => do
      let mode ← Signature.payloadEncoded s
      if mode = (← Signature.payloadEncoded first) then checkModes first rest
      else throw (.invalidFormat .mixedPayloadEncoding)

/-- Read a token in any form. Nothing is verified. -/
def deserialize (raw : String) : Except Error Jws := do
  let text := Text.trim raw
  let (payload, signatures) ← if Json.startsObject text then readJson text else readCompact text
  match signatures with
  | [] => pure ()
  | first :: _ => checkModes first signatures
  pure { held := payload, trusted := false, signatures }

end SealedToken.Jws
