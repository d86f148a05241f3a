import SealedToken.Algorithm.Basic
import SealedToken.Header.Member
import SealedToken.Key.Basic
import SealedToken.Primitives.Basic

/-!
Keys derived from passwords. Salt and repetitions come from the header, which
anyone can write, so both are bounded before any work is done.
-/

namespace SealedToken

/-- The bounds of the work on a password, and what is used where a header leaves
salt or repetitions open. -/
structure PasswordLimits where
  defaultIterations : Nat := 8192
  maxIterations : Nat := 16384
  minSaltSize : Nat := 8
  defaultSaltSize : Nat := 16
  deriving DecidableEq, Repr

/-- Refuse what is out of bounds. -/
def PasswordLimits.check (limits : PasswordLimits) (iterations : Nat) (salt : ByteArray) :
    Except Error Unit :=
  if limits.maxIterations < iterations then
    .error (.invalidFormat (.iterationsAbove iterations limits.maxIterations))
  else if salt.size < limits.minSaltSize then
    .error (.invalidFormat (.saltBelow limits.minSaltSize))
  else if iterations = 0 then .error (.invalidFormat .iterationsZero)
  else .ok ()

namespace KeyManagementAlgorithm

/-- Repetitions are a number of 32 bits. -/
def iterationsOf (value : Json) : Except Error Nat :=
  match value with
  | .num (.int n) =>
      if 0 ≤ n ∧ n < 2 ^ 32 then .ok n.toNat else .error (.invalidFormat .iterationsNotCount)
  | _ => .error (.invalidFormat .iterationsNotCount)

/-- The salt is bound to the algorithm by the name in front of it. -/
def saltInput (a : KeyManagementAlgorithm) (salt : ByteArray) : ByteArray :=
  a.name.toUTF8 ++ Bytes.zeros 1 ++ salt

/-- The key that wraps, from a password. -/
def passwordKey (p : Primitives) (a : KeyManagementAlgorithm) (s : AesSize)
    (limits : PasswordLimits) (password salt : ByteArray) (iterations : Nat) :
    Except Error ByteArray := do
  limits.check iterations salt
  pure (p.passwordKey s.sha password (a.saltInput salt) iterations s.bytes)

/-- The salt and the repetitions of a sender, from the header where it names them. -/
def chosenSalt (rng : Entropy) (limits : PasswordLimits) (header : Object) :
    Except Error (ByteArray × Nat) := do
  let salt := (← Header.bytes? header "p2s").getD (rng.take limits.defaultSaltSize)
  match header.find? "p2c" with
  | some value => pure (salt, ← iterationsOf value)
  | none => pure (salt, limits.defaultIterations)

/-- The salt and the repetitions of a recipient, which the header has to name. -/
def receivedSalt (header : Object) : Except Error (ByteArray × Nat) := do
  let salt ← Header.bytes header "p2s"
  let iterations ← iterationsOf (← Header.value header "p2c")
  pure (salt, iterations)

end KeyManagementAlgorithm

end SealedToken
