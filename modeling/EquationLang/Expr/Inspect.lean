import EquationLang.Expr.Basic

/-!
# Walking through expressions

`Expr.inspect` visits an expression and then, as long as the visitor wants to go deeper, the
subexpressions in the order in which they are written.  The visitor carries a state from each visit
to the next.
-/

namespace EquationLang.Expr

variable {σ : Type}

mutual

/-- Visit `e` in the state `s`, and its children if `visit` answers that it wants to go deeper;
returns the state after the last visit. -/
def inspect (visit : σ → Expr → σ × Bool) (s : σ) (e : Expr) : σ :=
  match visit s e with
  | (s, false) => s
  | (s, true) =>
    match e with
    | bad .. | ident .. | literal .. => s
    | paren _ body _ => inspect visit s body
    | index base _ subscript _ => inspect visit (inspect visit s base) subscript
    | call callee _ args _ => inspectAll visit (inspect visit s callee) args
    | unary _ _ operand => inspect visit s operand
    | binary left _ _ right => inspect visit (inspect visit s left) right

/-- Visit the expressions of a list one after the other. -/
def inspectAll (visit : σ → Expr → σ × Bool) (s : σ) : List Expr → σ
  | [] => s
  | e :: es => inspectAll visit (inspect visit s e) es

end

/-- The nodes of an expression in pre-order. -/
def nodes (e : Expr) : List Expr :=
  (e.inspect (fun visited e => (e :: visited, true)) []).reverse

end EquationLang.Expr
