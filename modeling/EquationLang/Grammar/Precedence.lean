import EquationLang.Expr.Operator

/-!
# Precedence of operators

A precedence table arranges binary operators in levels, from the loosest to the tightest.  The
operators of one level bind equally tightly and associate to the left.  A table is usable if it has
a level, no level is empty, and no operator occurs twice; `PrecedenceTable.check` finds the first
thing wrong with a table.
-/

namespace EquationLang

/-- Levels of operators, the loosest first. -/
abbrev PrecedenceTable := List (List Operator)

namespace PrecedenceTable

/-- The precedence table of equations. -/
def standard : PrecedenceTable := [[.add, .sub], [.mul, .div], [.exp]]

/-- The operators of the tightest level. -/
def tightest (table : PrecedenceTable) : List Operator := table.getLastD []

/-- What makes a table unusable. -/
inductive Fault where
  | noLevels
  /-- The level with the given number, counted from 0, is empty. -/
  | emptyLevel (n : Nat)
  /-- The operator occurs a second time. -/
  | repeated (op : Operator)
deriving DecidableEq

/-- The fault in words. -/
def Fault.message : Fault → String
  | noLevels => "precedence table has no levels"
  | emptyLevel n => "precedence level " ++ toString n ++ " is empty"
  | repeated op => "operator '" ++ op.symbol ++ "' appears in more than one precedence level"

/-- The operators `seen` together with those of a level, unless one of these occurs a second
time. -/
def checkLevel (seen : List Operator) : List Operator → Except Fault (List Operator)
  | [] => .ok seen
  | op :: level => if op ∈ seen then .error (.repeated op) else checkLevel (op :: seen) level

/-- Check the levels from number `n` on, where the operators `seen` occur in those before. -/
def checkFrom (n : Nat) (seen : List Operator) : PrecedenceTable → Except Fault Unit
  | [] => .ok ()
  | [] :: _ => .error (.emptyLevel n)
  | (op :: level) :: table => do
    let seen ← checkLevel seen (op :: level)
    checkFrom (n + 1) seen table

/-- Check a table, level by level and operator by operator. -/
def check : PrecedenceTable → Except Fault Unit
  | [] => .error .noLevels
  | level :: table => checkFrom 0 [] (level :: table)

end PrecedenceTable

end EquationLang
