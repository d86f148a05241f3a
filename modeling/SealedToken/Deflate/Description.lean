import SealedToken.Deflate.Code

/-!
The description of the two codes of a block: the lengths of their words, written in
a third code whose own lengths come first.
-/

namespace SealedToken.Deflate.Description

/-- The order in which the lengths for the code of the lengths are listed. -/
def lengthOrder : List Nat :=
  [16, 17, 18, 0, 8, 7, 9, 6, 10, 5, 11, 4, 12, 3, 13, 2, 14, 1, 15]

/-- So many lengths of three bits each. -/
def shortLengths (r : BitReader) : (count : Nat) → Except Stop (List Nat × BitReader)
  | 0 => .ok ([], r)
  | count + 1 => do
      let (n, r) ← r.bits 3
      let (rest, r) ← shortLengths r count
      .ok (n :: rest, r)

/-- Lengths in a code of their own, with repetitions, until there are `total`;
those in `done` are the latest first. -/
def codedLengths (c : Code) (total : Nat) (r : BitReader) (done : List Nat) :
    (fuel : Nat) → Except Stop (List Nat × BitReader)
  | 0 => .error .fault
  | fuel + 1 =>
      if total < done.length then .error .fault
      else if total = done.length then .ok (done.reverse, r)
      else do
        let (symbol, r) ← c.symbol r
        if symbol < 16 then codedLengths c total r (symbol :: done) fuel
        else if symbol = 16 then
          match done with
          | [] => .error .fault
          | length :: _ => do
              let (n, r) ← r.bits 2
              codedLengths c total r (List.replicate (n + 3) length ++ done) fuel
        else if symbol = 17 then do
          let (n, r) ← r.bits 3
          codedLengths c total r (List.replicate (n + 3) 0 ++ done) fuel
        else do
          let (n, r) ← r.bits 7
          codedLengths c total r (List.replicate (n + 11) 0 ++ done) fuel

/-- The code of literals or distances, if its lengths make one. It need not use up
all bit patterns when there is little to tell apart. -/
def codeOf (lengths : List Nat) : Except Stop Code :=
  if Code.isComplete lengths || Code.isSparse lengths then .ok (Code.ofLengths lengths)
  else .error .fault

/-- The code of lengths, if its own lengths make one that is complete. -/
def lengthCodeOf (lengths : List Nat) : Except Stop Code :=
  if Code.isComplete lengths then .ok (Code.ofLengths lengths) else .error .fault

/-- The description of the two codes of a block. -/
def read (r : BitReader) : Except Stop (Code × Code × BitReader) := do
  let (literals, r) ← r.bits 5
  let (distances, r) ← r.bits 5
  let (short, r) ← r.bits 4
  let literals := literals + 257
  let distances := distances + 1
  if 286 < literals ∨ 30 < distances then .error .fault
  else
    let (lengths, r) ← shortLengths r (short + 4)
    let listed := lengthOrder.zip lengths
    let c ← lengthCodeOf ((List.range 19).map fun symbol =>
      ((listed.find? (·.1 == symbol)).map (·.2)).getD 0)
    let total := literals + distances
    let (lengths, r) ← codedLengths c total r [] (total + 1)
    .ok (← codeOf (lengths.take literals), ← codeOf (lengths.drop literals), r)

end SealedToken.Deflate.Description
