import EquationLang.Token.Basic
import EquationLang.Text.CharClass

/-!
# The alphabet of equations

The roles that single characters play in the text of an equation: the statement terminator,
punctuation, and the characters that numbers and identifiers start with and go on with.
-/

namespace EquationLang

/-- The character that ends a statement. -/
def terminator : Char := ';'

/-- The kind of the token that `c` forms on its own; `none` if `c` is no punctuation. -/
def punctuation? (c : Char) : Option Token.Kind :=
  match c with
  | ',' | '+' | '-' | '*' | '/' | '^' | '|' | '&' | '=' | '<' | '>' => some .operator
  | '(' => some .lparen
  | ')' => some .rparen
  | '[' => some .lbracket
  | ']' => some .rbracket
  | '{' => some .lbrace
  | '}' => some .rbrace
  | _ => none

/-- Whether a number starts with `c`. -/
def isNumberStart (c : Char) : Bool := c.isDigit || c = '.'

/-- Whether an identifier goes on with `c`: anything does but blanks, control characters,
punctuation and the terminator. -/
def isIdentContinue (c : Char) : Bool :=
  !(isBlank c || isControl c || (punctuation? c).isSome || c = terminator)

/-- Whether an identifier starts with `c`: anything it goes on with but digits and quotes. -/
def isIdentStart (c : Char) : Bool := isIdentContinue c && !c.isDigit && c ≠ '"'

end EquationLang
