import SealedToken.Jwe.Decrypt
import SealedToken.Jwe.Encrypt
import SealedToken.Jwe.Text
import SealedToken.Jws.Sign
import SealedToken.Jws.Text
import SealedToken.Jws.Verify
import SealedToken.Jwt.Claims

/-!
Claims in a signed or an encrypted token. A token that came from elsewhere is first
authenticated and only then are its claims checked, so an error about claims is
always about an authentic token.
-/

namespace SealedToken

structure JwtOptions where
  /-- How many seconds the clock may be off. -/
  leeway : Int := 60
  /-- For how many seconds claims hold whose expiry is made here. -/
  validity : Int := 600
  /-- Claims that are added where they are missing. -/
  defaults : Option Object := none
  /-- Claims that a token has to have. -/
  checks : Option Object := none
  /-- The kind of token that is accepted; inferred while it is not set. -/
  expected : Option TokenKind := none
  /-- The accepted algorithms, or else the default ones. -/
  allowed : Option (List String) := none
  deriving DecidableEq

/-- The token that claims are carried in. -/
inductive Carrier
  | signed (token : Jws)
  | encrypted (token : Jwe)
  deriving DecidableEq

def Carrier.kind : Carrier → TokenKind
  | .signed _ => .signed
  | .encrypted _ => .encrypted

structure Jwt where
  header : Option Object := none
  claims : Option Claims := none
  token : Option Carrier := none
  options : JwtOptions := {}
  deriving DecidableEq

namespace Jwt

/-- Set the claims, with the defaults where they are missing. -/
def setClaims (rng : Entropy) (now : Int) (t : Jwt) (claims : Claims) : Jwt :=
  match claims, t.options.defaults with
  | .object members, some defaults =>
      let members := Claims.withDefaults rng now t.options.validity members defaults
      { t with claims := some (.object members) }
  | claims, _ => { t with claims := some claims }

def registeredClaims (t : Jwt) : Except Error RegisteredClaims :=
  match t.claims with
  | some claims => claims.registered
  | none => .error (.invalidOperation .noClaims)

/-! ### Making tokens -/

/-- The header of a token, whose type is a token of claims unless it says otherwise. -/
def tokenHeader (t : Jwt) : Object :=
  let header := t.header.getD .empty
  if header.contains "typ" then header else header.insert "typ" (.str "JWT")

def payload (t : Jwt) : Except Error ByteArray :=
  match t.claims with
  | some claims => .ok claims.toPayload
  | none => .error (.invalidOperation .noClaimsToWrap)

def signedOptions (t : Jwt) : JwsOptions := { allowed := t.options.allowed }
def encryptedOptions (t : Jwt) : JweOptions := { allowed := t.options.allowed }

/-- Sign the claims. The algorithm is that of the header, or else that of the key. -/
def makeSigned (p : Primitives) (rng : Entropy) (t : Jwt) (key : Jwk) : Except Error Jwt := do
  let header := t.tokenHeader
  let alg := if header.contains "alg" then none else key.alg
  let payload ← t.payload
  let token := { Jws.ofPayload payload with options := t.signedOptions }
  let token ← token.addSignature p rng key alg (some header) none
  pure { t with
    token := some (.signed token), options := { t.options with expected := some .signed } }

/-- Encrypt the claims. The header names both algorithms. -/
def makeEncrypted (p : Primitives) (rng : Entropy) (t : Jwt) (key : Jwk) : Except Error Jwt := do
  let payload ← t.payload
  let token := { Jwe.ofPlaintext payload (some t.tokenHeader) none with
    options := t.encryptedOptions }
  let token ← token.addRecipient p rng key none
  pure { t with
    token := some (.encrypted token), options := { t.options with expected := some .encrypted } }

/-- Write the token. -/
def serialize (p : Primitives) (rng : Entropy) (t : Jwt) (compact : Bool) :
    Except Error String × Jwt :=
  match t.token with
  | none => (.error (.invalidOperation .noTokenMade), t)
  | some (.signed token) => (token.serialize compact, t)
  | some (.encrypted token) =>
      let (text, token) := token.serialize p rng compact
      (text, { t with token := some (.encrypted token) })

/-! ### The expected kind of token -/

/-- The kind of token that a key is restricted to, by its use or else by its
operations. -/
def kindOfKey (key : Jwk) : Option TokenKind :=
  match key.use, key.operations with
  | some .signature, _ => some .signed
  | some .encryption, _ => some .encrypted
  | none, none => none
  | none, some [] => none
  | none, some ops =>
      if ops.all (·.isSigning) then some .signed
      else if ops.any (·.isSigning) then none
      else some .encrypted

/-- The kind of token that all keys are restricted to. -/
def kindOfKeys (keys : List Jwk) : Option TokenKind :=
  match keys.map kindOfKey with
  | some first :: rest => if rest.all (· == some first) then some first else none
  | _ => none

/-- The kind of token that an algorithm is for. -/
def kindOfAlgorithm (name : String) : Option TokenKind :=
  match Algorithm.lookup name with
  | .ok (.signing _) => some .signed
  | .ok _ => some .encrypted
  | .error _ => none

/-- The kind of token that all names of a list are for. -/
def kindOfNames (names : List String) : Option TokenKind :=
  match names.map kindOfAlgorithm with
  | some first :: rest => if rest.all (· == some first) then some first else none
  | _ => none

/-- The kind of token that a header tells: an algorithm for the content is only
named by an encrypted one. -/
def kindOfHeader (header : Option Object) : Option TokenKind :=
  if header.any fun h => h.contains "enc" then some .encrypted else none

/-- The kind of token that is accepted: the one that is set, that of the accepted
algorithms, an encrypted one if the header names an algorithm for the content, that
of the keys, and a signed one if nothing tells. -/
def expectedKind (t : Jwt) (keys : KeySource) : TokenKind :=
  let told := t.options.expected <|> t.options.allowed.bind kindOfNames <|>
    kindOfHeader t.header <|> kindOfKeys (keys.offered none)
  told.getD .signed

/-! ### Reading tokens -/

/-- Check claims that are authentic. -/
def checkClaims (t : Jwt) (now : Int) : Except Error Unit :=
  let leeway := t.options.leeway
  match t.claims, t.options.checks with
  | some (.object claims), checks => do
      Claims.checkValidity claims now leeway
      match checks with
      | some expected => Claims.checkExpected claims expected now leeway
      | none => pure ()
  | _, some ⟨(name, _) :: _, _⟩ => .error (.missingClaim name)
  | _, _ => .ok ()

/-- The first signature that is valid. -/
def validIndex (token : Jws) : Nat :=
  (token.signatures.findIdx? (·.state == .valid)).getD 0

/-- Authenticate a token: the header that goes with the payload, and the payload. -/
def authenticate (p : Primitives) (supply : Recipient → Jwk → Entropy) (token : Carrier)
    (keys : KeySource) : Except Error (Object × Option ByteArray) × Carrier :=
  match token with
  | .signed token =>
      match token.verify p keys none none with
      | (.error error, token) => (.error error, .signed token)
      | (.ok (), token) =>
          ((token.headerAt (validIndex token)).map fun header => (header, token.payload?),
           .signed token)
  | .encrypted token =>
      match token.decrypt p supply keys with
      | (.error error, token) => (.error error, .encrypted token)
      | (.ok (), token) =>
          ((token.headerAt 0).map fun header => (header, token.plaintext), .encrypted token)

/-- The claims of a payload. -/
def claimsOf (payload : Option ByteArray) : Except Error Claims :=
  match payload with
  | some bytes => Claims.ofPayload bytes
  | none => .error (.invalidOperation .noPayload)

/-- Authenticate the token, then check its claims. -/
def validate (p : Primitives) (supply : Recipient → Jwk → Entropy) (now : Int) (t : Jwt)
    (keys : KeySource) : Except Error Unit × Jwt :=
  match t.token with
  | none => (.error (.invalidOperation .noTokenToValidate), t)
  | some token =>
      let expected := t.expectedKind keys
      if expected ≠ token.kind then (.error (.typeMismatch expected token.kind), t)
      else
        let (outcome, token) := authenticate p supply token keys
        let t := { t with token := some token }
        match outcome.bind fun (header, payload) => (claimsOf payload).map (header, ·) with
        | .error error => (.error error, t)
        | .ok (header, claims) =>
            let t := { t with header := some header, claims := some claims }
            (t.checkClaims now, t)

/-- The kind of a written token, told by its shape alone. -/
def kindOfText (text : String) : Except Error TokenKind :=
  if Json.startsObject text then
    match (Json.parse? text).bind Json.asObject? with
    | none => .error Json.shapeFault
    | some object => .ok (if object.contains "ciphertext" then .encrypted else .signed)
  else
    match (Text.segments text).length with
    | 3 => .ok .signed
    | 5 => .ok .encrypted
    | found => .error (.invalidFormat (.segmentCount found))

/-- Read a token of either kind under the options for claims. -/
def readCarrier (t : Jwt) (text : String) : Except Error Carrier := do
  match ← kindOfText text with
  | .signed =>
      let token ← Jws.deserialize text
      pure (.signed { token with options := t.signedOptions })
  | .encrypted =>
      let token ← Jwe.deserialize text
      pure (.encrypted { token with options := t.encryptedOptions })

/-- Read a token, and validate it if keys are given. -/
def deserialize (p : Primitives) (supply : Recipient → Jwk → Entropy) (now : Int) (t : Jwt)
    (raw : String) (keys : Option KeySource) : Except Error Unit × Jwt :=
  match t.readCarrier (Text.trim raw) with
  | .error error => (.error error, t)
  | .ok token =>
      let t := { t with token := some token, claims := none }
      match keys with
      | none => (.ok (), t)
      | some keys => t.validate p supply now keys

end Jwt

end SealedToken
