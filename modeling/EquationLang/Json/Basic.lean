/-!
# JSON values

The values that expressions and tokens are given out as.
-/

namespace EquationLang

/-- A JSON value whose numbers are natural numbers.  The fields of an object have an order. -/
inductive Json where
  | num (n : Nat)
  | str (s : String)
  | arr (items : List Json)
  | obj (fields : List (String × Json))

end EquationLang
