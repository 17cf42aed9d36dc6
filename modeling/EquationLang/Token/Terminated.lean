import EquationLang.Token.Character

/-!
# Terminated equations

An equation is read with a statement terminator at its end.
-/

namespace EquationLang

/-- The equation `eqn`, ended by a statement terminator unless the last character that is not blank
already is one. -/
def normalize (eqn : String) : String :=
  if (trimEnd eqn.toList).getLast? = some terminator then eqn else eqn.push terminator

end EquationLang
