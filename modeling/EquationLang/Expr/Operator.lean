/-!
# Operators and signs

The five binary operators and the two signs of equations, with the symbols they are written with.
-/

namespace EquationLang

/-- The binary operators. -/
inductive Operator where
  | add
  | sub
  | mul
  | div
  | exp
deriving DecidableEq

namespace Operator

/-- All operators. -/
def all : List Operator := [add, sub, mul, div, exp]

/-- The symbol an operator is written with. -/
def symbol : Operator → String
  | add => "+"
  | sub => "-"
  | mul => "*"
  | div => "/"
  | exp => "^"

/-- The name of an operator in data. -/
def name : Operator → String
  | add => "Add"
  | sub => "Sub"
  | mul => "Mul"
  | div => "Div"
  | exp => "Exp"

/-- The operator written with the symbol `text`. -/
def ofSymbol? (text : String) : Option Operator := all.find? (·.symbol = text)

theorem ofSymbol?_eq_some_iff {text : String} {op : Operator} :
  ofSymbol? text = some op ↔ op.symbol = text
  := by
  constructor
  · intro h
    simpa using List.find?_some h
  · rintro rfl
    cases op <;> decide

end Operator

/-- The signs that an operand can bear. -/
inductive Sign where
  | positive
  | negative
deriving DecidableEq

namespace Sign

/-- All signs. -/
def all : List Sign := [positive, negative]

/-- The symbol a sign is written with. -/
def symbol : Sign → String
  | positive => "+"
  | negative => "-"

/-- The name of a sign in data. -/
def name : Sign → String
  | positive => "Positive"
  | negative => "Negative"

/-- The sign written with the symbol `text`. -/
def ofSymbol? (text : String) : Option Sign := all.find? (·.symbol = text)

theorem ofSymbol?_eq_some_iff {text : String} {sign : Sign} :
  ofSymbol? text = some sign ↔ sign.symbol = text
  := by
  constructor
  · intro h
    simpa using List.find?_some h
  · rintro rfl
    cases sign <;> decide

end Sign

end EquationLang
