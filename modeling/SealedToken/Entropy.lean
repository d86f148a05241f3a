import SealedToken.Bytes.Number
import SealedToken.Digest.Sha2

/-!
Random bytes as a value. A supply answers every request with bytes of the
requested number and can be split into branches; an operation that draws twice
uses two branches. So operations need no state, and what they draw is a function
of the supply they are given.
-/

namespace SealedToken

/-- A supply of random bytes. A request names the branch it is made on. -/
structure Entropy where
  bytes : (path : List Nat) → (count : Nat) → ByteArray
  size_bytes : ∀ path count, (bytes path count).size = count

namespace Entropy

def take (e : Entropy) (count : Nat) : ByteArray := e.bytes [] count

@[simp] theorem size_take (e : Entropy) (count : Nat) : (e.take count).size = count :=
  e.size_bytes [] count

/-- The branch of a supply under a label. -/
def fork (e : Entropy) (label : Nat) : Entropy :=
  ⟨fun path count => e.bytes (label :: path) count,
   fun path count => e.size_bytes (label :: path) count⟩

/-- What a seed and a branch give: the digests of both with a running number. -/
def expand (seed : ByteArray) (path : List Nat) (blocks : Nat) : ByteArray :=
  let start := path.foldl (fun b label => b ++ Bytes.ofNat 8 label)
    (seed ++ Bytes.ofNat 8 path.length)
  (List.range blocks).foldl
    (fun out i => out ++ ShaSize.sha256.digest (start ++ Bytes.ofNat 8 i)) ByteArray.empty

theorem size_foldl_digest (f : Nat → ByteArray) (is : List Nat) (out : ByteArray) :
    (is.foldl (fun out i => out ++ ShaSize.sha256.digest (f i)) out).size =
      out.size + 32 * is.length := by
  induction is generalizing out with
  | nil => simp
  | cons i is ih =>
      rw [List.foldl_cons, ih, ByteArray.size_append, ShaSize.size_digest, List.length_cons]
      simp only [ShaSize.bytes, ShaSize.bits]
      omega

theorem size_expand (seed : ByteArray) (path : List Nat) (blocks : Nat) :
    (expand seed path blocks).size = 32 * blocks := by
  simp [expand, size_foldl_digest]

/-- The supply that a seed determines. -/
def ofSeed (seed : ByteArray) : Entropy :=
  ⟨fun path count => (expand seed path ((count + 31) / 32)).extract 0 count,
   fun path count => by
    rw [ByteArray.size_extract, size_expand]
    omega⟩

end Entropy

end SealedToken
