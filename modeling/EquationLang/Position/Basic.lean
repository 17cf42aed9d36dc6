/-!
# Positions

A position is a byte offset into a text together with the line and the column it falls in.
-/

namespace EquationLang

/-- A byte offset with its line and column.  Lines and columns count from 1, and columns count
characters. -/
structure Position where
  offset : Nat
  line : Nat
  column : Nat
deriving DecidableEq

/-- The position as it is shown to a reader: line and column. -/
def Position.text (p : Position) : String :=
  toString p.line ++ ":" ++ toString p.column

end EquationLang
