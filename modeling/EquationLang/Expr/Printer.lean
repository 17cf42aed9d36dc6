import EquationLang.Expr.Basic

/-!
# Printing expressions

`Expr.print` writes an expression as the text of an equation: binary operators stand between blanks,
signs directly before their operand, and arguments are separated by a comma and a blank.  Parens are
nodes of the tree, so none are added.
-/

namespace EquationLang.Expr

mutual

/-- The expression as the text of an equation. -/
def print : Expr → String
  | bad .. => "<bad expression>"
  | ident _ name => name
  | literal _ value => value
  | paren _ body _ => "(" ++ body.print ++ ")"
  | index base _ subscript _ => base.print ++ "[" ++ subscript.print ++ "]"
  | call callee _ args _ => callee.print ++ "(" ++ printArgs args ++ ")"
  | unary _ sign operand => sign.symbol ++ operand.print
  | binary left _ op right => left.print ++ " " ++ op.symbol ++ " " ++ right.print

/-- The arguments of a call, separated by commas. -/
def printArgs : List Expr → String
  | [] => ""
  | [arg] => arg.print
  | arg :: next :: args => arg.print ++ ", " ++ printArgs (next :: args)

end

end EquationLang.Expr
