/-!
Texts made of segments with a dot between each two of them.
-/

namespace SealedToken.Text

/-- The segments of a text; there is always at least one. -/
def segmentChars : List Char → List (List Char)
  | [] => [[]]
  | c :: rest =>
      if c = '.' then [] :: segmentChars rest
      else
        match segmentChars rest with
        | [] => [[c]]
        | segment :: others => (c :: segment) :: others

def segments (text : String) : List String :=
  (segmentChars text.toList).map String.ofList

theorem segmentChars_ne_nil (cs : List Char) : segmentChars cs ≠ [] := by
  cases cs with
  | nil => simp [segmentChars]
  | cons c rest =>
      simp only [segmentChars]
      split
      · simp
      · split <;> simp

/-- Put segments together. -/
def joinSegments (parts : List String) : String := ".".intercalate parts

end SealedToken.Text
