import SealedToken.Jwe.Basic
import SealedToken.KeyManagement.Basic

/-!
Adding recipients.
-/

namespace SealedToken.Jwe

/-- All recipients share one algorithm of the content. -/
def checkSameAlgorithm (t : Jwe) (a : ContentEncryptionAlgorithm) : Except Error Unit :=
  match t.algorithm with
  | none => .ok ()
  | some chosen =>
      if chosen = a then .ok ()
      else .error (.invalidFormat (.contentAlgorithmFixed chosen.name))

/-- Add what an algorithm puts into the header, except for what is there already. -/
def addParameters (header merged added : Object) : Object :=
  added.members.foldl
    (fun out m =>
      if (merged.find? m.1).any (·.same m.2) then out else out.insert m.1 m.2)
    header

/-- Encrypt the content for the first recipient and hold its key; keep it as it is
for all others. -/
def withContent (p : Primitives) (rng : Entropy) (t : Jwe) (a : ContentEncryptionAlgorithm)
    (contentKey : ByteArray) : Except Error Jwe :=
  if t.content.isSome then .ok t
  else do
    let t ← t.sealContent p rng a contentKey
    pure { t with algorithm := some a, contentKey := some contentKey }

/-- Bring the content key to one more recipient. -/
def addRecipient (p : Primitives) (rng : Entropy) (t : Jwe) (key : Jwk)
    (header : Option Object) : Except Error Jwe := do
  if t.plaintext.isNone then throw (.invalidOperation .noPlaintext)
  let header := header.getD .empty
  let merged ← t.merged (some header)
  let (management, encryption) ← algorithms t.options merged
  t.checkSameAlgorithm encryption
  let wrapped ← management.wrap p (rng.fork 0) key encryption.keySize t.contentKey merged
    t.options.limits
  let header := addParameters header merged wrapped.header
  let t ← t.withContent p (rng.fork 1) encryption wrapped.contentKey
  let recipient : Recipient :=
    { header := Header.nonempty (some header), encryptedKey := wrapped.encryptedKey }
  pure { t with recipients := t.recipients ++ [recipient] }

end SealedToken.Jwe
