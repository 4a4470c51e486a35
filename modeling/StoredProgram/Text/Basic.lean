/-! # Text

Text is a list of characters, so that programs, names and tables can be taken apart and put together by
the operations on lists. White space is what Unicode calls so; trimming and splitting go by it. -/

namespace StoredProgram

/-- Text is a sequence of characters. -/
abbrev Text := List Char

namespace Text

/-- The characters with Unicode's property `White_Space`. -/
def isSpace (c : Char) : Bool :=
  let n := c.toNat
  (9 ≤ n && n ≤ 13) || n == 0x20 || n == 0x85 || n == 0xA0 || n == 0x1680 ||
    (0x2000 ≤ n && n ≤ 0x200A) || n == 0x2028 || n == 0x2029 || n == 0x202F || n == 0x205F ||
    n == 0x3000

/-- The text without the white space at its two ends. -/
def trim (t : Text) : Text := ((t.dropWhile isSpace).reverse.dropWhile isSpace).reverse

/-- The maximal pieces without white space, from left to right. -/
def words (t : Text) : List Text := (t.splitOnP isSpace).filter (!·.isEmpty)

/-- The lines one after the other, each ended by a line feed. -/
def unlines (ls : List Text) : Text := ls.flatMap (· ++ ['\n'])

end Text
end StoredProgram
