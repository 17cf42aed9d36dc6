/-!
# Blank and control characters

`isBlank` holds of the characters with the Unicode property White_Space and `isControl` of those of
the general category Cc.  `trim` and `trimEnd` remove blanks from the ends of a text.
-/

namespace EquationLang

/-- Whether `c` is white space: the tabs, line and page breaks, the next-line control, the spaces of
all widths, and the line and paragraph separators. -/
def isBlank (c : Char) : Bool :=
  let n := c.toNat
  (0x09 ≤ n && n ≤ 0x0D) || n == 0x20 || n == 0x85 || n == 0xA0 || n == 0x1680
    || (0x2000 ≤ n && n ≤ 0x200A) || n == 0x2028 || n == 0x2029 || n == 0x202F || n == 0x205F
    || n == 0x3000

/-- Whether `c` is a control character. -/
def isControl (c : Char) : Bool :=
  let n := c.toNat
  n ≤ 0x1F || (0x7F ≤ n && n ≤ 0x9F)

/-- `cs` without the blanks at its start. -/
def trimStart (cs : List Char) : List Char := cs.dropWhile isBlank

/-- `cs` without the blanks at its end. -/
def trimEnd (cs : List Char) : List Char := (cs.reverse.dropWhile isBlank).reverse

/-- `cs` without the blanks at its start and at its end. -/
def trim (cs : List Char) : List Char := trimEnd (trimStart cs)

end EquationLang
