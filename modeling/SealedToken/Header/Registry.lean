import SealedToken.Error
import SealedToken.Json.Basic

/-!
Header parameters and the union of headers. A header that is protected against
changes and any number that are not make up one header; that union is never
lenient. A name that occurs twice, a parameter that has to be protected and is
not, and a critical parameter that is not understood are all fatal.
-/

namespace SealedToken

/-- What is known about a header parameter. -/
structure HeaderParameter where
  name : String
  description : String := ""
  /-- It may only occur in the protected header. -/
  mustProtect : Bool := false
  /-- It is understood, which it has to be in order to be critical. -/
  supported : Bool := false
  /-- The value that is assumed while it is absent. -/
  default : Option Json := none
  deriving DecidableEq

/-- The known header parameters. Others may be used freely, but cannot be
critical. -/
structure HeaderRegistry where
  parameters : List HeaderParameter
  deriving DecidableEq

namespace HeaderRegistry

def find? (r : HeaderRegistry) (name : String) : Option HeaderParameter :=
  r.parameters.find? (·.name == name)

/-- Register a parameter in place of the one of that name. -/
def register (r : HeaderRegistry) (parameter : HeaderParameter) : HeaderRegistry :=
  ⟨parameter :: r.parameters.filter (·.name != parameter.name)⟩

/-- Do two registries know the same? -/
def agrees (r s : HeaderRegistry) : Bool :=
  (r.parameters ++ s.parameters).all fun parameter =>
    r.find? parameter.name == s.find? parameter.name

def mustProtect (r : HeaderRegistry) (name : String) : Bool :=
  (r.find? name).any (·.mustProtect)

def supports (r : HeaderRegistry) (name : String) : Bool :=
  (r.find? name).any (·.supported)

/-- The parameters that every token may have. -/
def common : List HeaderParameter :=
  [{ name := "alg", description := "Algorithm", supported := true },
   { name := "jku", description := "JWK Set URL" },
   { name := "jwk", description := "JSON Web Key" },
   { name := "kid", description := "Key ID", supported := true },
   { name := "x5u", description := "X.509 URL" },
   { name := "x5c", description := "X.509 Certificate Chain" },
   { name := "x5t", description := "X.509 Certificate SHA-1 Thumbprint" },
   { name := "x5t#S256", description := "X.509 Certificate SHA-256 Thumbprint" },
   { name := "typ", description := "Type", supported := true },
   { name := "cty", description := "Content Type", supported := true },
   { name := "crit", description := "Critical", mustProtect := true, supported := true }]

/-- The parameters of a signed token. -/
def signed : HeaderRegistry :=
  ⟨common ++
    [{ name := "b64", description := "Base64url-Encode Payload", mustProtect := true,
       supported := true, default := some (.bool true) }]⟩

/-- The parameters of an encrypted token. -/
def encrypted : HeaderRegistry :=
  ⟨common ++
    [{ name := "enc", description := "Encryption Algorithm", supported := true },
     { name := "zip", description := "Compression Algorithm", mustProtect := true,
       supported := true },
     { name := "epk", description := "Ephemeral Public Key", supported := true },
     { name := "apu", description := "Agreement PartyUInfo", supported := true },
     { name := "apv", description := "Agreement PartyVInfo", supported := true },
     { name := "iv", description := "Initialization Vector", supported := true },
     { name := "tag", description := "Authentication Tag", supported := true },
     { name := "p2s", description := "PBES2 Salt Input", supported := true },
     { name := "p2c", description := "PBES2 Count", supported := true }]⟩

/-- The registry for a kind of token. -/
def forKind : TokenKind → HeaderRegistry
  | .signed => signed
  | .encrypted => encrypted

/-! ### The union of headers -/

/-- Add the members of an unprotected header one after the other. -/
def addMembers (r : HeaderRegistry) (merged : Object) :
    List (String × Json) → Except Error Object
  | [] => .ok merged
  | (name, value) :: rest =>
      if r.mustProtect name then .error (.misplacedHeader name)
      else if merged.contains name then .error (.duplicateHeader name)
      else r.addMembers (merged.insert name value) rest

/-- Add unprotected headers one after the other. -/
def addHeaders (r : HeaderRegistry) (merged : Object) : List Object → Except Error Object
  | [] => .ok merged
  | header :: rest => do
      let merged ← r.addMembers merged header.members
      r.addHeaders merged rest

/-- Every critical name has to be understood and present. -/
def checkNames (r : HeaderRegistry) (merged : Object) : List Json → Except Error Unit
  | [] => .ok ()
  | .str name :: rest =>
      if r.supports name && merged.contains name then r.checkNames merged rest
      else .error (.unsupportedCritical name)
  | _ :: _ => .error (.invalidFormat .criticalNotStrings)

def checkCritical (r : HeaderRegistry) (merged : Object) : Except Error Unit :=
  match merged.find? "crit" with
  | none => .ok ()
  | some (.arr (name :: names)) => r.checkNames merged (name :: names)
  | some _ => .error (.invalidFormat .criticalNotList)

/-- The union of a protected header and unprotected ones. -/
def merge (r : HeaderRegistry) (protectedHeader : Option Object)
    (others : List (Option Object)) : Except Error Object := do
  let merged ← r.addHeaders (protectedHeader.getD .empty) others.reduceOption
  r.checkCritical merged
  pure merged

end HeaderRegistry

end SealedToken
