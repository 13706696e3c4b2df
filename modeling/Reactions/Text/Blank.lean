/-!
# Blank characters

The characters with the property White_Space, which are the ones that may stand around the parts
of a time and that make up an empty line of a log.
-/

namespace Reactions

/-- The ranges of White_Space, in order. -/
def blankRanges : List (Nat × Nat) :=
  [(0x09, 0x0d), (0x20, 0x20), (0x85, 0x85), (0xa0, 0xa0), (0x1680, 0x1680), (0x2000, 0x200a),
    (0x2028, 0x2029), (0x202f, 0x202f), (0x205f, 0x205f), (0x3000, 0x3000)]

/-- Whether a character is White_Space. -/
def isBlank (c : Char) : Bool :=
  blankRanges.any fun (lo, hi) => lo ≤ c.toNat && c.toNat ≤ hi

/-- Drops blanks in front. -/
def skipBlanks (cs : List Char) : List Char := cs.dropWhile isBlank

end Reactions
