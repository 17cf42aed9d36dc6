/-!
# Tokens

A token is a piece of an equation that the grammar speaks about, with the byte offset where it
starts.  The text of a string literal leaves out its quotes, and its offset is that of the first
character inside them.
-/

namespace EquationLang

/-- The kinds of tokens. -/
inductive Token.Kind where
  /-- The end of the text. -/
  | eof
  | ident
  | num
  | str
  /-- The end of a statement, written as `;` or inserted. -/
  | semi
  | operator
  | lbrace
  | rbrace
  | lparen
  | rparen
  | lbracket
  | rbracket
deriving DecidableEq

namespace Token.Kind

/-- All kinds. -/
def all : List Token.Kind :=
  [eof, ident, num, str, semi, operator, lbrace, rbrace, lparen, rparen, lbracket, rbracket]

/-- The name of a kind in data. -/
def name : Token.Kind → String
  | eof => "Eof"
  | ident => "Ident"
  | num => "Num"
  | str => "Str"
  | semi => "Semi"
  | operator => "Operator"
  | lbrace => "LBrace"
  | rbrace => "RBrace"
  | lparen => "LParen"
  | rparen => "RParen"
  | lbracket => "LBracket"
  | rbracket => "RBracket"

/-- The name of a kind in messages. -/
def text : Token.Kind → String
  | eof => "eof"
  | ident => "ident"
  | num => "num"
  | str => "lit"
  | semi => "semi"
  | operator => "op"
  | lbrace => "lbrace"
  | rbrace => "rbrace"
  | lparen => "lparen"
  | rparen => "rparen"
  | lbracket => "lbracket"
  | rbracket => "rbracket"

/-- Whether a statement can end with a token of this kind, so that a line break after it ends the
statement. -/
def canEndStatement : Token.Kind → Bool
  | ident | num | str | rparen | rbracket | rbrace => true
  | _ => false

theorem canEndStatement_iff {kind : Token.Kind} :
  kind.canEndStatement ↔ kind ∈ [ident, num, str, rparen, rbracket, rbrace]
  := by cases kind <;> decide

end Token.Kind

/-- A token of an equation. -/
structure Token where
  kind : Token.Kind
  /-- The byte offset of the text. -/
  pos : Nat
  text : String
deriving DecidableEq

namespace Token

/-- The token that marks the end of the text, at `offset`. -/
def endOfText (offset : Nat) : Token := ⟨.eof, offset, ""⟩

/-- The offset just past the text of the token. -/
def stop (t : Token) : Nat := t.pos + t.text.utf8ByteSize

/-- Whether the token is the operator written `symbol`. -/
def isOp (t : Token) (symbol : String) : Bool := t.kind = .operator && t.text = symbol

/-- The token as messages show it: its kind, and its text where the kind does not determine it. -/
def display (t : Token) : String :=
  match t.kind with
  | .semi => "(" ++ t.kind.text ++ " ;)"
  | .eof => "(" ++ t.kind.text ++ ")"
  | _ => "(" ++ t.kind.text ++ " " ++ t.text ++ ")"

end Token

end EquationLang
