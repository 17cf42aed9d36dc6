import EquationLang.Grammar.Parser
import EquationLang.Token.Lexer
import EquationLang.Token.Terminated
import EquationLang.Diagnostic.ParseError

/-!
# Reading equations

An equation is an expression and a statement terminator.  `parse` reads the text of an equation into
an expression.  What the lexer reports comes before what the grammar has to say about the same
place, and it is reported only if the reading came as far as the fault.
-/

namespace EquationLang

/-- The expression of the equation that the tokens are: an expression, any number of terminators but
at least one, and the end of the text. -/
def equation (ts : List Token) : Except Failure Expr :=
  match (lookahead ts).kind with
  | .semi | .eof => refuse .emptyEquation ts
  | _ => do
    let (e, rest) ← (Parser.expression (Parser.factor maxNesting)).run ts
    match (lookahead rest).kind with
    | .semi =>
      let trailing := rest.dropWhile (·.kind = .semi)
      if (lookahead trailing).kind = .eof then .ok e else refuse .noEquationEnd trailing
    | .eof => refuse .noTerminator rest
    | _ => refuse .noEquationEnd rest

/-- Read the text `eqn` of an equation; its faults are reported under `name`. -/
def parse (name eqn : String) : Except ParseError Expr :=
  let text := normalize eqn
  let (tokens, lexer) := (Lexer.ofText text).drain
  match equation tokens with
  | .ok e => if lexer.hasErrors then .error ⟨name, text, lexer.errors.sorted⟩ else .ok e
  | .error failure =>
    let reached := (lookahead failure.rest).kind = .eof
    let lexical := if reached then lexer.errors else ∅
    let faults : Diagnostics := ⟨failure.faults.map (·.diagnose lexer.resolve)⟩
    .error ⟨name, text, (lexical ++ faults).sorted⟩

end EquationLang
