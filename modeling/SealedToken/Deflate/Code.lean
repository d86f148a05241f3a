import SealedToken.Deflate.Bits

/-!
Codes given by the lengths of their words: words of one length stand for symbols
in increasing order, and shorter words come before longer ones. Beside them the
tables for the lengths and distances of copies.
-/

namespace SealedToken.Deflate

/-- How many words there are of each length, and the symbols in the order of
their words. -/
structure Code where
  counts : Array Nat
  symbols : Array Nat

namespace Code

def greatestLength : Nat := 15

/-- Do words of these lengths use up all bit patterns, and none twice? A symbol
with length zero has no word. -/
def isComplete (lengths : List Nat) : Bool :=
  let patterns := lengths.map fun length =>
    if length = 0 then 0 else 2 ^ (greatestLength - length)
  patterns.foldl (· + ·) 0 == 2 ^ greatestLength

/-- Is there no word, or a single one of one bit? -/
def isSparse (lengths : List Nat) : Bool :=
  let used := lengths.filter (· != 0)
  used == [] || used == [1]

/-- The code of a list of lengths. -/
def ofLengths (lengths : List Nat) : Code :=
  let counts := (List.range (greatestLength + 1)).map fun length =>
    if length = 0 then 0 else lengths.count length
  let symbols := (List.range greatestLength).flatMap fun i =>
    (lengths.zipIdx.filter (·.1 == i + 1)).map (·.2)
  ⟨counts.toArray, symbols.toArray⟩

/-- Go on with a word that is `length` bits long so far: `word` is its distance
from the first word of that length, `index` the place of that word's symbol. It is
a fault when all words are shorter than that. -/
def symbolFrom (c : Code) (word index length : Nat) (r : BitReader) :
    (left : Nat) → Except Stop (Nat × BitReader)
  | 0 => .error .fault
  | left + 1 => do
      let (b, r) ← r.bit
      let word := 2 * word + b
      let count := c.counts.getD (length + 1) 0
      if word < count then
        match c.symbols[index + word]? with
        | some symbol => .ok (symbol, r)
        | none => .error .fault
      else if c.symbols.size ≤ index + count then .error .fault
      else c.symbolFrom (word - count) (index + count) (length + 1) r left

/-- The symbol of the next word. -/
def symbol (c : Code) (r : BitReader) : Except Stop (Nat × BitReader) :=
  c.symbolFrom 0 0 0 r greatestLength

/-- The lengths of the code of literals that needs no description. -/
def fixedLengths : List Nat :=
  List.replicate 144 8 ++ List.replicate 112 9 ++ List.replicate 24 7 ++ List.replicate 8 8

/-- The two codes that need no description. -/
def fixedLiterals : Code := ofLengths fixedLengths
def fixedDistances : Code := ofLengths (List.replicate 32 5)

end Code

/-- The symbol that ends a block; those below it stand for themselves. -/
def endOfBlock : Nat := 256

/-- The least length of a copy and the number of additional bits, for each symbol
behind the end of a block. -/
def lengthTable : Array (Nat × Nat) :=
  #[(3, 0), (4, 0), (5, 0), (6, 0), (7, 0), (8, 0), (9, 0), (10, 0), (11, 1), (13, 1), (15, 1),
    (17, 1), (19, 2), (23, 2), (27, 2), (31, 2), (35, 3), (43, 3), (51, 3), (59, 3), (67, 4),
    (83, 4), (99, 4), (115, 4), (131, 5), (163, 5), (195, 5), (227, 5), (258, 0)]

/-- The least distance of a copy and the number of additional bits. -/
def distanceTable : Array (Nat × Nat) :=
  #[(1, 0), (2, 0), (3, 0), (4, 0), (5, 1), (7, 1), (9, 2), (13, 2), (17, 3), (25, 3), (33, 4),
    (49, 4), (65, 5), (97, 5), (129, 6), (193, 6), (257, 7), (385, 7), (513, 8), (769, 8),
    (1025, 9), (1537, 9), (2049, 10), (3073, 10), (4097, 11), (6145, 11), (8193, 12),
    (12289, 12), (16385, 13), (24577, 13)]

end SealedToken.Deflate
