/-!
# White space and trimming

The characters with the Unicode property White_Space, and texts without them at
either end. This is wider than the blanks inside a line: a no-break space may
surround a line but not stand in it.
-/

namespace LineCalc.Text

/-- The characters with the property White_Space. -/
def isWhiteSpace (c : Char) : Bool :=
  let n := c.toNat
  (0x09 ≤ n && n ≤ 0x0D) || n = 0x20 || n = 0x85 || n = 0xA0 || n = 0x1680
    || (0x2000 ≤ n && n ≤ 0x200A) || n = 0x2028 || n = 0x2029 || n = 0x202F || n = 0x205F
    || n = 0x3000

/-- Without the white space at its start and at its end. -/
def trimmed (cs : List Char) : List Char :=
  ((cs.dropWhile isWhiteSpace).reverse.dropWhile isWhiteSpace).reverse

/-- A text without the white space at its start and at its end. -/
def trim (s : String) : String := String.ofList (trimmed s.toList)

end LineCalc.Text
