import SealedToken.Json.Bytes
import SealedToken.Json.Printer
import SealedToken.Json.Record
import SealedToken.Key.Basic

/-!
The JSON form of keys. Reading goes in two steps: the members with known names
are taken with their types, then the material is made of them. Faults of the
second step say which member is missing or wrong.
-/

namespace SealedToken

namespace Jwk

/-- The members of a key in the order in which an array would list them. -/
def memberNames : List String :=
  ["kty", "crv", "k", "n", "e", "d", "p", "q", "dp", "dq", "qi", "x", "y", "use", "key_ops",
   "kid", "alg"]

/-- The members of a key as they are written. -/
structure Written where
  kty : String
  crv : Option String
  k : Option String
  n : Option String
  e : Option String
  d : Option String
  p : Option String
  q : Option String
  dp : Option String
  dq : Option String
  qi : Option String
  x : Option String
  y : Option String
  use : Option KeyUse
  operations : Option (List KeyOperation)
  kid : Option String
  alg : Option String

def asOperations? (value : Json) : Option (List KeyOperation) := do
  (← value.asItems?).mapM (Json.asName? KeyOperation.ofName?)

def Written.ofRecord (r : Json.Record) : Except Error Written := do
  let text := r.optional Json.asString?
  pure {
    kty := ← r.required Json.asString? "kty"
    crv := ← text "crv"
    k := ← text "k"
    n := ← text "n"
    e := ← text "e"
    d := ← text "d"
    p := ← text "p"
    q := ← text "q"
    dp := ← text "dp"
    dq := ← text "dq"
    qi := ← text "qi"
    x := ← text "x"
    y := ← text "y"
    use := ← r.optional (Json.asName? KeyUse.ofName?) "use"
    operations := ← r.optional asOperations? "key_ops"
    kid := ← text "kid"
    alg := ← text "alg" }

/-- A member that has to be there. -/
def needed (name : String) (member : Option String) : Except MemberFault String :=
  match member with
  | some text => .ok text
  | none => .error (.missing name)

/-- The bytes of a member that has to be there. -/
def neededBytes (name : String) (member : Option String) : Except MemberFault ByteArray := do
  match Base64Url.decode? (← needed name member) with
  | some bytes => .ok bytes
  | none => .error .base64

def checkSize (expected : Nat) (bytes : ByteArray) : Except MemberFault Unit :=
  if bytes.size = expected then .ok () else .error (.length expected bytes.size)

/-- The bytes of a private member of a fixed size, if it is there. -/
def privateBytes (size : Nat) (member : Option String) :
    Except MemberFault (Option ByteArray) := do
  match member with
  | none => .ok none
  | some _ =>
      let bytes ← neededBytes "d" member
      checkSize size bytes
      .ok (some bytes)

/-- The private members of an RSA key, if it has any. -/
def Written.rsaSecret (w : Written) : Except MemberFault (Option RsaSecret) := do
  match w.d with
  | none => .ok none
  | some _ =>
      .ok (some {
        d := ← neededBytes "d" w.d
        p := ← neededBytes "p" w.p
        q := ← neededBytes "q" w.q
        dp := ← neededBytes "dp" w.dp
        dq := ← neededBytes "dq" w.dq
        qi := ← neededBytes "qi" w.qi })

/-- The curve of a key among those that `ofName?` knows. -/
def Written.curve {α : Type} (w : Written) (ofName? : String → Option α) :
    Except MemberFault α := do
  let name ← needed "crv" w.crv
  match ofName? name with
  | some curve => .ok curve
  | none => .error (.unknownCurve name)

def Written.octMaterial (w : Written) : Except MemberFault KeyMaterial := do
  .ok (.oct (← neededBytes "k" w.k))

def Written.rsaMaterial (w : Written) : Except MemberFault KeyMaterial := do
  let secret ← w.rsaSecret
  .ok (.rsa (← neededBytes "n" w.n) (← neededBytes "e" w.e) secret)

def Written.ecMaterial (w : Written) : Except MemberFault KeyMaterial := do
  let curve ← w.curve EllipticCurve.ofName?
  let x ← neededBytes "x" w.x
  let y ← neededBytes "y" w.y
  checkSize curve.coordinateSize x
  checkSize curve.coordinateSize y
  .ok (.ec curve x y (← privateBytes curve.coordinateSize w.d))

def Written.okpMaterial (w : Written) : Except MemberFault KeyMaterial := do
  let curve ← w.curve OctetCurve.ofName?
  let x ← neededBytes "x" w.x
  checkSize OctetCurve.memberSize x
  .ok (.okp curve x (← privateBytes OctetCurve.memberSize w.d))

def Written.material (w : Written) : Except MemberFault KeyMaterial :=
  if w.kty = KeyType.oct.name then w.octMaterial
  else if w.kty = KeyType.rsa.name then w.rsaMaterial
  else if w.kty = KeyType.ec.name then w.ecMaterial
  else if w.kty = KeyType.okp.name then w.okpMaterial
  else .error (.unknownType w.kty)

def Written.key (w : Written) : Except MemberFault Jwk := do
  let material ← w.material
  .ok { material, use := w.use, operations := w.operations, kid := w.kid, alg := w.alg }

def ofRecord (r : Json.Record) : Except Error Jwk := do
  let w ← Written.ofRecord r
  match w.key with
  | .ok key => pure key
  | .error fault => throw (.invalidFormat (.json (some fault)))

/-- The key at the front of a text, and the rest. -/
def read (cs : List Char) : Except Error (Jwk × List Char) := do
  let (r, rest) ← Json.Record.read memberNames cs
  let key ← ofRecord r
  pure (key, rest)

/-- The key that a text spells. -/
def ofText (text : String) : Except Error Jwk := do
  let (key, rest) ← read text.toList
  Json.endOfText rest
  pure key

/-- The key that a value is. -/
def ofJson (value : Json) : Except Error Jwk := do
  ofRecord (← Json.Record.ofJson memberNames memberNames.length value)

/-! ### Writing -/

def secretMembers : Option RsaSecret → List (String × Json)
  | none => []
  | some s =>
      [("d", .ofBytes s.d), ("p", .ofBytes s.p), ("q", .ofBytes s.q), ("dp", .ofBytes s.dp),
       ("dq", .ofBytes s.dq), ("qi", .ofBytes s.qi)]

def materialMembers : KeyMaterial → List (String × Json)
  | .oct k => [("k", .ofBytes k)]
  | .rsa n e secret => ("n", .ofBytes n) :: ("e", .ofBytes e) :: secretMembers secret
  | .ec curve x y d =>
      ("crv", .str curve.name) :: ("x", .ofBytes x) :: ("y", .ofBytes y) ::
        Json.optionMember "d" Json.ofBytes d
  | .okp curve x d =>
      ("crv", .str curve.name) :: ("x", .ofBytes x) :: Json.optionMember "d" Json.ofBytes d

def operationsJson (ops : List KeyOperation) : Json := .arr (ops.map fun op => .str op.name)

/-- The JSON form of a key; absent members are left out. -/
def toJson (key : Jwk) : Json :=
  .obj (("kty", .str key.type.name) ::
    (materialMembers key.material ++
      Json.optionMember "use" (fun use => .str use.name) key.use ++
      Json.optionMember "key_ops" operationsJson key.operations ++
      Json.optionMember "kid" Json.str key.kid ++ Json.optionMember "alg" Json.str key.alg))

def toText (key : Jwk) : String := key.toJson.print

end Jwk

end SealedToken
