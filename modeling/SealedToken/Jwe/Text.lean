import SealedToken.Json.Bytes
import SealedToken.Json.Record
import SealedToken.Jwe.Basic
import SealedToken.Text.Blank
import SealedToken.Text.Segments

/-!
The written forms of encrypted tokens: five segments, or a JSON object with one
recipient, or a JSON object with a list of recipients.
-/

namespace SealedToken.Jwe

/-! ### Writing -/

/-- The members that all recipients share. -/
def sharedMembers (t : Jwe) (content : EncryptedContent) : List (String × Json) :=
  Json.textMember "protected" t.protectedText ++
    Json.optionMember "unprotected" Object.toJson t.sharedHeader ++
    Json.optionMember "aad" Json.ofBytes t.aad ++
    [("iv", .ofBytes content.iv), ("ciphertext", .ofBytes content.ciphertext),
     ("tag", .ofBytes content.tag)]

def recipientMembers (r : Recipient) : List (String × Json) :=
  Json.optionMember "header" Object.toJson (Header.nonempty r.header) ++
    Json.textMember "encrypted_key" (Base64Url.encode r.encryptedKey)

/-- The JSON form, flat for a single recipient. -/
def jsonText (t : Jwe) (content : EncryptedContent) : String :=
  match t.recipients with
  | [r] => (Json.obj (t.sharedMembers content ++ recipientMembers r)).print
  | others =>
      let list := others.map fun r => Json.obj (recipientMembers r)
      (Json.obj (t.sharedMembers content ++ [("recipients", .arr list)])).print

/-- Can the token be written in compact form, as far as its shared parts go? The
single recipient if it can. -/
def compactRecipient (t : Jwe) : Except Error Recipient :=
  match t.recipients with
  | [r] =>
      if t.aad.isSome then .error (.invalidOperation .compactAdditionalData)
      else if t.sharedHeader.isSome then .error (.invalidOperation .compactSharedHeader)
      else .ok r
  | others => .error (.invalidOperation (.compactRecipients others.length))

/-- Add members to a header until one of them is there already: what has been added
by then, and the name of that one. -/
def moveMembers (header : Object) : List (String × Json) → Object × Option String
  | [] => (header, none)
  | (name, value) :: rest =>
      if header.contains name then (header, some name)
      else moveMembers (header.insert name value) rest

/-- Move the header of the single recipient into the protected header and encrypt
again. When a name is in both the token stays as it is at that point. -/
def protectHeader (p : Primitives) (rng : Entropy) (t : Jwe) (r : Recipient) :
    Except Error Unit × Jwe :=
  match t.algorithm, t.contentKey with
  | some a, some contentKey =>
      let (header, twice) :=
        moveMembers (t.protectedHeader.getD .empty) (r.header.getD .empty).members
      let t := { t with
        protectedHeader := some header
        recipients := [{ r with header := none }] }
      match twice with
      | some name => (.error (.duplicateHeader name), t)
      | none =>
          match t.sealContent p rng a contentKey with
          | .ok t => (.ok (), t)
          | .error error => (.error error, t)
  | _, _ => (.error (.invalidOperation .compactKeyNotHeld), t)

/-- The compact form of a token whose single recipient has no header. -/
def compactText (t : Jwe) : Except Error String :=
  if ! t.protectedHeader.any (fun h => h.contains "alg" && h.contains "enc") then
    .error (.invalidOperation .compactEncryptedAlgorithms)
  else
    match t.content, t.recipients with
    | some content, [r] =>
        .ok (Text.joinSegments
          [t.protectedText, Base64Url.encode r.encryptedKey, Base64Url.encode content.iv,
           Base64Url.encode content.ciphertext, Base64Url.encode content.tag])
    | _, _ => .error (.invalidOperation .compactUnencrypted)

/-- Write a token in compact form. -/
def serializeCompact (p : Primitives) (rng : Entropy) (t : Jwe) : Except Error String × Jwe :=
  match t.compactRecipient with
  | .error error => (.error error, t)
  | .ok r =>
      if (Header.nonempty r.header).isNone then (t.compactText, t)
      else
        match t.protectHeader p rng r with
        | (.error error, t) => (.error error, t)
        | (.ok (), t) => (t.compactText, t)

/-- Write a token in its compact or its JSON form. The compact form has no place
for the header of a recipient, which therefore becomes part of the protected
one. -/
def serialize (p : Primitives) (rng : Entropy) (t : Jwe) (compact : Bool) :
    Except Error String × Jwe :=
  match t.content with
  | none => (.error (.invalidOperation .serializeUnencrypted), t)
  | some content =>
      if compact then t.serializeCompact p rng else (.ok (t.jsonText content), t)

/-! ### Reading -/

/-- The written parts that all recipients share. -/
structure WrittenContent where
  protectedText : String
  sharedHeader : Option Object := none
  aad : Option String := none
  iv : String
  ciphertext : String
  tag : String

/-- The written parts of a recipient. -/
structure WrittenRecipient where
  header : Option Object := none
  encryptedKey : String

def WrittenContent.ofRecord (r : Json.Record) : Except Error WrittenContent := do
  pure {
    protectedText := ← r.withDefault Json.asString? "" "protected"
    sharedHeader := ← r.optional Json.asObject? "unprotected"
    aad := ← r.optional Json.asString? "aad"
    iv := ← r.required Json.asString? "iv"
    ciphertext := ← r.required Json.asString? "ciphertext"
    tag := ← r.required Json.asString? "tag" }

def WrittenRecipient.ofRecord (r : Json.Record) : Except Error WrittenRecipient := do
  pure {
    header := ← r.optional Json.asObject? "header"
    encryptedKey := ← r.withDefault Json.asString? "" "encrypted_key" }

def recipientMemberNames : List String := ["header", "encrypted_key"]

def WrittenRecipient.ofJson (value : Json) : Except Error WrittenRecipient := do
  WrittenRecipient.ofRecord (← Json.Record.ofJson recipientMemberNames 0 value)

/-- The written parts of an object. -/
def readMembers (object : Object) : Except Error (WrittenContent × List WrittenRecipient) := do
  let r : Json.Record := object.members
  if object.contains "recipients" then
    if object.contains "encrypted_key" || object.contains "header" then
      throw (.invalidFormat .encryptedBothForms)
    let content ← WrittenContent.ofRecord r
    let items ← r.required Json.asItems? "recipients"
    pure (content, ← items.mapM WrittenRecipient.ofJson)
  else
    let content ← WrittenContent.ofRecord r
    pure (content, [← WrittenRecipient.ofRecord r])

def readJson (text : String) : Except Error (WrittenContent × List WrittenRecipient) :=
  match (Json.parse? text).bind Json.asObject? with
  | none => .error Json.shapeFault
  | some object => readMembers object

def readCompact (text : String) : Except Error (WrittenContent × List WrittenRecipient) :=
  match Text.segments text with
  | [protectedText, encryptedKey, iv, ciphertext, tag] =>
      if protectedText.isEmpty then .error (.invalidFormat .encryptedWithoutHeader)
      else .ok ({ protectedText, iv, ciphertext, tag }, [{ encryptedKey }])
  | _ => .error (.invalidFormat .encryptedSegments)

def readRecipient (w : WrittenRecipient) : Except Error Recipient := do
  let encryptedKey ← Header.decodeBytes w.encryptedKey
  pure { header := Header.nonempty w.header, encryptedKey }

/-- A token from its written parts. -/
def ofWritten (w : WrittenContent) (recipients : List WrittenRecipient) : Except Error Jwe := do
  if recipients.isEmpty then throw (.invalidFormat .noRecipients)
  let protectedHeader ← Header.decode w.protectedText
  let aad ← w.aad.mapM Header.decodeBytes
  let iv ← Header.decodeBytes w.iv
  let ciphertext ← Header.decodeBytes w.ciphertext
  let tag ← Header.decodeBytes w.tag
  let recipients ← recipients.mapM readRecipient
  pure {
    plaintext := none
    protectedHeader
    protectedText := w.protectedText
    sharedHeader := Header.nonempty w.sharedHeader
    aad
    recipients
    content := some ⟨iv, ciphertext, tag⟩ }

/-- Read a token in any form. Nothing is decrypted. -/
def deserialize (raw : String) : Except Error Jwe := do
  let text := Text.trim raw
  let (content, recipients) ← if Json.startsObject text then readJson text else readCompact text
  ofWritten content recipients

end SealedToken.Jwe
