import EquationLang.Json.Basic
import EquationLang.Expr.Basic
import EquationLang.Token.Basic

/-!
# Expressions and tokens as JSON

An expression is an object with one field, named for the shape of the node, that holds the object of
its parts.
-/

namespace EquationLang

mutual

/-- The expression as a JSON value. -/
def Expr.toJson : Expr → Json
  | .bad start stop => .obj [("Bad", .obj [("from", .num start), ("to", .num stop)])]
  | .ident pos name => .obj [("Ident", .obj [("name_pos", .num pos), ("name", .str name)])]
  | .literal pos value =>
    .obj [("BasicLit",
      .obj [("value_pos", .num pos), ("kind", .str "Number"), ("value", .str value)])]
  | .paren lparen body rparen =>
    .obj [("Paren",
      .obj [("lparen", .num lparen), ("x", body.toJson), ("rparen", .num rparen)])]
  | .index base lbrack subscript rbrack =>
    .obj [("Index",
      .obj [("x", base.toJson), ("lbrack", .num lbrack), ("index", subscript.toJson),
        ("rbrack", .num rbrack)])]
  | .call callee lparen args rparen =>
    .obj [("Call",
      .obj [("fun", callee.toJson), ("lparen", .num lparen), ("args", .arr (Expr.toJsonAll args)),
        ("rparen", .num rparen)])]
  | .unary opPos sign operand =>
    .obj [("Unary",
      .obj [("op_pos", .num opPos), ("op", .str sign.name), ("x", operand.toJson)])]
  | .binary left opPos op right =>
    .obj [("Binary",
      .obj [("x", left.toJson), ("op_pos", .num opPos), ("op", .str op.name),
        ("y", right.toJson)])]

/-- The expressions of a list as JSON values. -/
def Expr.toJsonAll : List Expr → List Json
  | [] => []
  | e :: es => e.toJson :: Expr.toJsonAll es

end

/-- The token as a JSON value. -/
def Token.toJson (t : Token) : Json :=
  .obj [("kind", .str t.kind.name), ("pos", .num t.pos), ("text", .str t.text)]

end EquationLang
