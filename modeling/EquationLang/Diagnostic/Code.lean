/-!
# Codes of diagnostics

Each way in which an equation can be refused has a code.
-/

namespace EquationLang

/-- The kinds of faults. -/
inductive Diagnostic.Code where
  | unrecognizedChar
  | unclosedStringLiteral
  | unexpectedToken
  | unexpectedEof
  | expectedRParen
  | expectedRBracket
  | badCallArgs
  | extraToken
  | emptyEquation
  | missingTerminator
  | nestingTooDeep
deriving DecidableEq

namespace Diagnostic.Code

/-- All codes: lexical ones first, then those about the structure of an equation. -/
def all : List Diagnostic.Code := [
  unrecognizedChar, unclosedStringLiteral, unexpectedToken, unexpectedEof, expectedRParen,
  expectedRBracket, badCallArgs, extraToken, emptyEquation, missingTerminator, nestingTooDeep]

/-- The name of a code in data. -/
def name : Diagnostic.Code → String
  | unrecognizedChar => "UnrecognizedChar"
  | unclosedStringLiteral => "UnclosedStringLiteral"
  | unexpectedToken => "UnexpectedToken"
  | unexpectedEof => "UnexpectedEof"
  | expectedRParen => "ExpectedRParen"
  | expectedRBracket => "ExpectedRBracket"
  | badCallArgs => "BadCallArgs"
  | extraToken => "ExtraToken"
  | emptyEquation => "EmptyEquation"
  | missingTerminator => "MissingTerminator"
  | nestingTooDeep => "NestingTooDeep"

/-- The name of a code in text. -/
def text : Diagnostic.Code → String
  | unrecognizedChar => "unrecognized_char"
  | unclosedStringLiteral => "unclosed_string_literal"
  | unexpectedToken => "unexpected_token"
  | unexpectedEof => "unexpected_eof"
  | expectedRParen => "expected_rparen"
  | expectedRBracket => "expected_rbracket"
  | badCallArgs => "bad_call_args"
  | extraToken => "extra_token"
  | emptyEquation => "empty_equation"
  | missingTerminator => "missing_terminator"
  | nestingTooDeep => "nesting_too_deep"

/-- Whether the fault lies in the characters of the text and not in the order of its tokens. -/
def isLexical : Diagnostic.Code → Bool
  | unrecognizedChar | unclosedStringLiteral => true
  | _ => false

end Diagnostic.Code

end EquationLang
