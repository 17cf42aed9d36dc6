import EquationLang.Token.Basic
import EquationLang.Diagnostic.Basic

/-!
# Faults of the grammar

A fault is a complaint about the token that was found in a place where the grammar has no use for
it.  A failure is the fault that stopped the reading of an equation, with the faults that the
constructs around it add.
-/

namespace EquationLang

/-- How many operands may be open at once, one inside the other. -/
def maxNesting : Nat := 100

/-- What a token was found in place of, or what it is too much for. -/
inductive Complaint where
  /-- The equation has no expression. -/
  | emptyEquation
  | noOperand
  | noCloseParen
  | noCloseBracket
  /-- An argument of a call could not be read. -/
  | badArgument
  /-- An argument is followed by neither a comma nor the end of the call. -/
  | noArgumentEnd
  /-- The equation goes on after its expression. -/
  | noEquationEnd
  | noTerminator
  | tooDeep
deriving DecidableEq

/-- A complaint about the token that was found. -/
structure Fault where
  complaint : Complaint
  found : Token
deriving DecidableEq

namespace Fault

/-- The code of the fault. -/
def code (f : Fault) : Diagnostic.Code :=
  match f.complaint with
  | .emptyEquation => .emptyEquation
  | .noOperand =>
    match f.found.kind with
    | .eof | .semi => .unexpectedEof
    | _ => .unexpectedToken
  | .noCloseParen => .expectedRParen
  | .noCloseBracket => .expectedRBracket
  | .badArgument | .noArgumentEnd => .badCallArgs
  | .noEquationEnd => .extraToken
  | .noTerminator => .missingTerminator
  | .tooDeep => .nestingTooDeep

/-- The fault in words. -/
def message (f : Fault) : String :=
  match f.complaint with
  | .emptyEquation => "empty equation"
  | .noOperand =>
    match f.found.kind with
    | .eof | .semi => "unexpected end of equation"
    | _ => "unexpected token " ++ f.found.display
  | .noCloseParen => "expected ')', got " ++ f.found.display
  | .noCloseBracket => "expected ']', got " ++ f.found.display
  | .badArgument => "call: expected expression argument, got " ++ f.found.display
  | .noArgumentEnd => "call: expected ',' or ')', got " ++ f.found.display
  | .noEquationEnd => "expected end-of-equation, got " ++ f.found.display
  | .noTerminator => "expected end-of-equation"
  | .tooDeep => "expression nested more than " ++ toString maxNesting ++ " levels deep"

/-- The fault as a diagnostic, where `resolve` finds the position of an offset. -/
def diagnose (resolve : Nat → Position) (f : Fault) : Diagnostic where
  code := f.code
  message := f.message
  pos := resolve f.found.pos

end Fault

/-- The first of the tokens that are left. -/
def lookahead (ts : List Token) : Token := ts.headD (.endOfText 0)

/-- Why the reading of an equation stopped. -/
structure Failure where
  /-- The fault that stopped the reading. -/
  cause : Fault
  /-- What the constructs around the fault add, the innermost first. -/
  contexts : List Fault := []
  /-- The tokens that are left. -/
  rest : List Token
deriving DecidableEq

namespace Failure

/-- All faults, in the order in which they were found. -/
def faults (f : Failure) : List Fault := f.cause :: f.contexts

/-- The failure inside a construct that adds a complaint of its own. -/
def within (complaint : Complaint) (f : Failure) : Failure :=
  { f with contexts := f.contexts ++ [⟨complaint, lookahead f.rest⟩] }

end Failure

/-- Stop at the tokens `ts` with a complaint about the first of them. -/
def refuse {α : Type} (complaint : Complaint) (ts : List Token) : Except Failure α :=
  .error ⟨⟨complaint, lookahead ts⟩, [], ts⟩

end EquationLang
