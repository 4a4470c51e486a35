import StoredProgram.Text.Basic

/-! # Sets of characters

A set of characters is given by ranges of code points in ascending order, so that a property of Unicode can
be written down as the standard lists it. -/

namespace StoredProgram.Text

/-- A set of characters, as the first and the last code point of each of its ranges. -/
structure CharSet where
  ranges : List (Nat × Nat)

namespace CharSet

/-- Whether a character belongs to a set. -/
def contains (s : CharSet) (c : Char) : Bool :=
  s.ranges.any fun (first, last) => first ≤ c.toNat && c.toNat ≤ last

end CharSet
end StoredProgram.Text
