import SealedToken.Error

/-!
Trying one thing after another, and what is told of the failures.
-/

namespace SealedToken

/-- Try the members of a list until one succeeds: the failures before it in order,
and the success. -/
def tryEach {α β : Type} (f : α → Except Error β) : List α → List (α × Error) × Option β
  | [] => ([], none)
  | a :: rest =>
      match f a with
      | .ok b => ([], some b)
      | .error error =>
          let (failures, success) := tryEach f rest
          ((a, error) :: failures, success)

/-- Of many errors the one that tells the most. -/
def Error.mostRelevantOf (errors : List Error) : Option Error :=
  errors.foldl Error.mostRelevant none

/-- A key that was tried without success. -/
structure FailedAttempt where
  kid : Option String
  /-- The algorithm or algorithms it was tried for. -/
  algorithm : String
  error : Error
  deriving DecidableEq

def FailedAttempt.line (a : FailedAttempt) : String :=
  let kid := a.kid.getD "<none>"
  s!"kid {kid}: {a.algorithm}: {a.error.message}"

end SealedToken
