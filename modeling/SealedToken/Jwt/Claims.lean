import SealedToken.Entropy
import SealedToken.Json.Bytes
import SealedToken.Json.Printer
import SealedToken.Json.Record
import SealedToken.Text.Utf8

/-!
Claims: what a token says. Claims are an object or, for a token inside a token, a
text. Dates are seconds in 64 bits; sums and differences stop at the ends of that
range.
-/

namespace SealedToken

/-- The payload of a token that carries claims. -/
inductive Claims
  | object (members : Object)
  | text (text : String)
  deriving DecidableEq

/-- Those a token is meant for: one, or a list. -/
inductive Audience
  | one (name : String)
  | many (names : List String)
  deriving DecidableEq, Repr

namespace Audience

def contains (a : Audience) (name : String) : Bool :=
  match a with
  | one n => n == name
  | many names => names.contains name

def names : Audience → List String
  | one name => [name]
  | many names => names

/-- Do two audiences have a member in common? -/
def meets (a b : Audience) : Bool := b.names.any a.contains

def ofJson? (value : Json) : Option Audience :=
  match value with
  | .str name => some (one name)
  | other => other.asStrings?.map many

def toJson : Audience → Json
  | one name => .str name
  | many names => .arr (names.map .str)

end Audience

/-! ### Seconds -/

namespace Seconds

def least : Int := -2 ^ 63
def greatest : Int := 2 ^ 63 - 1

/-- The nearest number of seconds in range. -/
def clamp (n : Int) : Int := max least (min greatest n)

/-- Is a number of seconds in range? -/
def inRange (n : Int) : Bool := least ≤ n && n ≤ greatest

def add (a b : Int) : Int := clamp (a + b)
def sub (a b : Int) : Int := clamp (a - b)

/-- An integer in range. -/
def ofJson? : Json → Option Int
  | .num (.int n) => if inRange n then some n else none
  | _ => none

/-- Any number, its fraction cut off. -/
def truncated? : Json → Option Int
  | .num (.int n) => some (clamp n)
  | .num (.float x) => some (clamp x.truncate)
  | _ => none

end Seconds

/-! ### Registered claims -/

/-- The claims with a fixed meaning, and all others. -/
structure RegisteredClaims where
  iss : Option String := none
  sub : Option String := none
  aud : Option Audience := none
  exp : Option Int := none
  nbf : Option Int := none
  iat : Option Int := none
  jti : Option String := none
  extra : Object := .empty
  deriving DecidableEq

namespace RegisteredClaims

/-- The claims with a fixed meaning. -/
def registeredNames : List String := ["iss", "sub", "aud", "exp", "nbf", "iat", "jti"]

/-- Read the claims of an object; null counts as absent where the meaning is
fixed. -/
def ofObject (claims : Object) : Except Error RegisteredClaims := do
  let r : Json.Record := claims.members
  pure {
    iss := ← r.optional Json.asString? "iss"
    sub := ← r.optional Json.asString? "sub"
    aud := ← r.optional Audience.ofJson? "aud"
    exp := ← r.optional Seconds.ofJson? "exp"
    nbf := ← r.optional Seconds.ofJson? "nbf"
    iat := ← r.optional Seconds.ofJson? "iat"
    jti := ← r.optional Json.asString? "jti"
    extra := claims.filter fun name _ => ! registeredNames.contains name }

/-- The members in the order in which they are written: the claims with a fixed
meaning, then all others. -/
def members (c : RegisteredClaims) : List (String × Json) :=
  Json.optionMember "iss" Json.str c.iss ++ Json.optionMember "sub" Json.str c.sub ++
    Json.optionMember "aud" Audience.toJson c.aud ++ Json.optionMember "exp" Json.int c.exp ++
    Json.optionMember "nbf" Json.int c.nbf ++ Json.optionMember "iat" Json.int c.iat ++
    Json.optionMember "jti" Json.str c.jti ++ c.extra.members

/-- The text of the claims in that order. -/
def toText (c : RegisteredClaims) : String := (Json.obj c.members).print

/-- The claims as a value, which has each name once. -/
def toJson (c : RegisteredClaims) : Json := (Json.obj c.members).canonical

end RegisteredClaims

namespace Claims

/-- The claims that a value stands for. -/
def ofJson (value : Json) : Except Error Claims :=
  match value with
  | .str t => .ok (.text t)
  | other =>
      match other.asObject? with
      | some members => .ok (.object members)
      | none => .error (.invalidFormat .claimsShape)

def asObject? : Claims → Option Object
  | object members => some members
  | text _ => none

def asText? : Claims → Option String
  | object _ => none
  | text t => some t

def registered : Claims → Except Error RegisteredClaims
  | object members => RegisteredClaims.ofObject members
  | text _ => .error (.invalidOperation .claimsNotObject)

def toPayload : Claims → ByteArray
  | object members => members.toJson.print.toUTF8
  | text t => t.toUTF8

/-- A payload that spells an object is that object, any other is a text. -/
def ofPayload (payload : ByteArray) : Except Error Claims :=
  match (Json.parseBytes? payload).bind Json.asObject? with
  | some members => .ok (.object members)
  | none =>
      match Utf8.decode payload with
      | .ok t => .ok (.text t)
      | .error fault => .error (.invalidFormat (.claimsText fault))

/-! ### Default claims -/

/-- Sixteen bytes as an identifier of the fourth version: the digits in five
groups. -/
def identifier (bytes : ByteArray) : String :=
  let n := Bytes.toNat bytes % 2 ^ 128
  let version := 4 * 2 ^ 76
  let variant := 2 ^ 63
  let n := n - n / 2 ^ 76 % 16 * 2 ^ 76 + version
  let n := n - n / 2 ^ 62 % 4 * 2 ^ 62 + variant
  let digits := (List.range 32).map fun i => Json.hexDigit (n / 16 ^ (31 - i) % 16)
  let group (start count : Nat) := String.ofList ((digits.drop start).take count)
  "-".intercalate [group 0 8, group 8 4, group 12 4, group 16 4, group 20 12]

/-- The value of a default. Null stands for a value that is made: an expiry, the
current time or a random identifier; for any other name it stands for nothing. -/
def defaultValue? (rng : Entropy) (now validity : Int) (name : String) (value : Json) :
    Option Json :=
  if ! value.isNull then some value
  else if name = "exp" then some (.int (Seconds.add now validity))
  else if name = "nbf" ∨ name = "iat" then some (.int now)
  else if name = "jti" then some (.str (identifier (rng.take 16)))
  else none

/-- Add what the defaults have and the claims have not. -/
def withDefaults (rng : Entropy) (now validity : Int) (claims defaults : Object) : Object :=
  defaults.members.foldl
    (fun out m =>
      if out.contains m.1 then out
      else
        match defaultValue? rng now validity m.1 m.2 with
        | some value => out.insert m.1 value
        | none => out)
    claims

/-! ### Checks -/

/-- A date among the claims, its fraction cut off. -/
def date? (claims : Object) (name : String) : Except Error (Option Int) :=
  match claims.find? name with
  | none => .ok none
  | some value =>
      match Seconds.truncated? value with
      | some date => .ok (some date)
      | none => .error (.invalidClaimValue name)

/-- The times at which claims hold, where they say so. -/
def checkValidity (claims : Object) (now leeway : Int) : Except Error Unit := do
  if (← date? claims "exp").any fun exp => Seconds.add exp leeway < now then throw .expired
  if (← date? claims "nbf").any fun nbf => now < Seconds.sub nbf leeway then
    throw .notYetValid

/-- The time a date is compared with; null stands for now. -/
def reference (name : String) (expected : Json) (now : Int) : Except Error Int :=
  if expected.isNull then .ok now
  else
    match Seconds.ofJson? expected with
    | some date => .ok date
    | none => .error (.invalidClaimValue name)

/-- Compare a date. An expiry must not lie before the reference, the others must
not lie behind it. -/
def checkDate (claims : Object) (name : String) (expected : Json) (now leeway : Int) :
    Except Error Unit := do
  let reference ← reference name expected now
  let date := (← date? claims name).getD reference
  if name = "exp" then
    if Seconds.add date leeway < reference then throw .expired
  else if reference < Seconds.sub date leeway then
    if name = "nbf" then throw .notYetValid else throw (.invalidClaimValue name)

def checkAudience (actual expected : Json) : Except Error Unit :=
  if expected.isNull then .ok ()
  else
    match Audience.ofJson? actual, Audience.ofJson? expected with
    | some a, some b => if a.meets b then .ok () else .error (.invalidClaimValue "aud")
    | _, _ => .error (.invalidClaimValue "aud")

/-- The claims that are dates. -/
def dateNames : List String := ["exp", "nbf", "iat"]

/-- Check one entry of a table of expected claims. Null only asks for the claim
to be there. -/
def checkEntry (claims : Object) (now leeway : Int) (name : String) (expected : Json) :
    Except Error Unit :=
  match claims.find? name with
  | none => .error (.missingClaim name)
  | some actual =>
      if dateNames.contains name then checkDate claims name expected now leeway
      else if name = "aud" then checkAudience actual expected
      else if expected.isNull || actual.same expected then .ok ()
      else .error (.invalidClaimValue name)

def checkEntries (claims : Object) (now leeway : Int) :
    List (String × Json) → Except Error Unit
  | [] => .ok ()
  | (name, expected) :: rest => do
      checkEntry claims now leeway name expected
      checkEntries claims now leeway rest

/-- Check every entry of a table of expected claims. -/
def checkExpected (claims expected : Object) (now leeway : Int) : Except Error Unit :=
  checkEntries claims now leeway expected.members

end Claims

end SealedToken
