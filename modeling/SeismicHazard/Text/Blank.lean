/-!
# Blanks

The characters with the Unicode property of being white space, and text without them at its ends.
-/

namespace SeismicHazard.Text

/-- White space: the control characters that move the position, and every kind of space, line and
paragraph separator. -/
def isBlank (c : Char) : Bool :=
  let code := c.toNat
  (0x09 ≤ code && code ≤ 0x0d) || code == 0x20 || code == 0x85 || code == 0xa0
    || code == 0x1680 || (0x2000 ≤ code && code ≤ 0x200a) || code == 0x2028 || code == 0x2029
    || code == 0x202f || code == 0x205f || code == 0x3000

/-- Text without the blanks at both ends. -/
def trim (text : String) : String :=
  let front := text.toList.dropWhile isBlank
  String.ofList (front.reverse.dropWhile isBlank).reverse

end SeismicHazard.Text
