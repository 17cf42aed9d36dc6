import EquationLang.Grammar.Equation
import EquationLang.Proofs.Grammar.Levels
import EquationLang.Proofs.Token.Answers

/-!
# Reading on demand

An equation can be read without taking all of its tokens first: a token is looked at when it is
needed, and taken when it fits (`OnDemand.parse`).  A session keeps count of the tokens that have
been taken and of what has been reported.  The loops are bounded by `fuel`; a reading that needs
more of it has no result.
-/

namespace EquationLang

/-- A reading in progress. -/
structure Session where
  lexer : Lexer
  /-- The tokens that have been taken from the lexer. -/
  taken : List Token := []
  /-- What the grammar has had to say. -/
  reported : List Diagnostic := []

/-- A part of a reading, which ends with a value or with the diagnostic of a fault, unless it runs
out of fuel. -/
abbrev Action (α : Type) := ExceptT Diagnostic (StateT Session Option) α

namespace OnDemand

variable {α β : Type}

theorem bind_of_none {part : Action α} {f : α → Action β} {s : Session} (h : part s = none) :
  (part >>= f) s = none
  := by
  change (part s).bind _ = _
  rw [h]
  rfl

theorem bind_of_ok {part : Action α} {f : α → Action β} {s s' : Session} {a : α}
    (h : part s = some (.ok a, s')) :
  (part >>= f) s = f a s'
  := by
  change (part s).bind _ = _
  rw [h]
  rfl

theorem bind_of_error {part : Action α} {f : α → Action β} {s s' : Session} {d : Diagnostic}
    (h : part s = some (.error d, s')) :
  (part >>= f) s = some (.error d, s')
  := by
  change (part s).bind _ = _
  rw [h]
  rfl

/-- Look at the next token. -/
def peek : Action Token := fun s =>
  some (.ok s.lexer.peek.1, { s with lexer := s.lexer.peek.2 })

/-- Take the next token. -/
def advance : Action Token := fun s =>
  some (.ok s.lexer.next.1,
    { s with lexer := s.lexer.next.2, taken := s.taken ++ [s.lexer.next.1] })

/-- Whether a lexical fault has been found. -/
def hasErrors : Action Bool := fun s => some (.ok s.lexer.hasErrors, s)

/-- Stop with a complaint about the next token. -/
def complain (complaint : Complaint) : Action α := do
  let t ← peek
  fun s => some (.error ((⟨complaint, t⟩ : Fault).diagnose s.lexer.resolve), s)

/-- Report a diagnostic and go on. -/
def report (d : Diagnostic) : Action Unit := fun s =>
  some (.ok (), { s with reported := s.reported ++ [d] })

/-- There is no fuel left. -/
def exhausted : Action α := fun _ => none

/-- A part inside a construct that adds a complaint of its own. -/
def within (complaint : Complaint) (part : Action α) : Action α :=
  tryCatch part fun d => do
    report d
    complain complaint

/-- Take the next token if it is of the given kind. -/
def consume (kind : Token.Kind) : Action (Option Token) := do
  let t ← peek
  if t.kind = kind then
    let t ← advance
    return some t
  else return none

/-- Take the next token if it is one of the operators. -/
def consumeAnyOf (ops : List Operator) : Action (Option (Operator × Nat)) := do
  let t ← peek
  match Parser.operatorOf? ops t with
  | some op =>
    let _ ← advance
    return some (op, t.pos)
  | none => return none

/-- Take a token of the given kind. -/
def expect (kind : Token.Kind) (complaint : Complaint) : Action Token := do
  match ← consume kind with
  | some t => return t
  | none => complain complaint

/-! ### Expressions -/

/-- If one of `ops` follows, join `left` with the operand after it, and go on with `more`. -/
def chainRound (ops : List Operator) (operand : Action Expr) (more : Expr → Action Expr)
    (left : Expr) : Action Expr := do
  match ← consumeAnyOf ops with
  | some (op, opPos) =>
    let right ← operand
    more (.binary left opPos op right)
  | none => return left

/-- Read on after `left`: as long as one of `ops` follows, join it with the operand after it. -/
def chainFrom (ops : List Operator) (operand : Action Expr) : Nat → Expr → Action Expr
  | 0, _ => exhausted
  | fuel + 1, left => chainRound ops operand (chainFrom ops operand fuel) left

/-- Operands joined by the operators `ops`, from left to right. -/
def chain (fuel : Nat) (ops : List Operator) (operand : Action Expr) : Action Expr := do
  let left ← operand
  chainFrom ops operand fuel left

/-- Operands joined by the operators of levels, the loosest outermost. -/
def levels (fuel : Nat) (table : PrecedenceTable) (operand : Action Expr) : Action Expr :=
  table.foldr (chain fuel) operand

/-- An expression. -/
def expression (fuel : Nat) (operand : Action Expr) : Action Expr :=
  levels fuel PrecedenceTable.standard operand

/-- What a sign applies to. -/
def signed (fuel : Nat) (operand : Action Expr) : Action Expr :=
  chain fuel PrecedenceTable.standard.tightest operand

/-- An expression and the token that closes it, made into an operand by `node`. -/
def enclosed (fuel : Nat) (kind : Token.Kind) (complaint : Complaint) (node : Expr → Token → Expr)
    (operand : Action Expr) : Action Expr := do
  let body ← expression fuel operand
  let closing ← expect kind complaint
  return node body closing

/-- An argument, and either a comma, after which `more` reads the other ones, or the closing
paren. -/
def argumentsRound (arg : Action Expr) (more : Action (List Expr × Token)) :
    Action (List Expr × Token) := do
  let e ← within .badArgument arg
  let t ← peek
  if t.isOp "," then
    let _ ← advance
    let (es, closing) ← more
    return (e :: es, closing)
  else
    let closing ← expect .rparen .noArgumentEnd
    return ([e], closing)

/-- Arguments separated by commas, and the closing paren after them. -/
def arguments (arg : Action Expr) : Nat → Action (List Expr × Token)
  | 0 => exhausted
  | fuel + 1 => argumentsRound arg (arguments arg fuel)

/-- A call of `callee`, after the opening paren `opening`. -/
def called (fuel : Nat) (operand : Action Expr) (callee : Expr) (opening : Token) :
    Action Expr := do
  match ← consume .rparen with
  | some closing => return .call callee opening.pos [] closing.pos
  | none =>
    let (args, closing) ← arguments (expression fuel operand) fuel
    return .call callee opening.pos args closing.pos

/-- A variable, or a call or an index of it, after its name. -/
def named (fuel : Nat) (operand : Action Expr) (name : Token) : Action Expr := do
  let ident := Expr.ident name.pos name.text
  match ← consume .lparen with
  | some opening => called fuel operand ident opening
  | none =>
    match ← consume .lbracket with
    | some opening =>
      enclosed fuel .rbracket .noCloseBracket
        (fun subscript closing => .index ident opening.pos subscript closing.pos) operand
    | none => return ident

/-- An operand, where `operand` reads the operands inside it. -/
def operandOver (fuel : Nat) (operand : Action Expr) : Action Expr := do
  let t ← peek
  match t.kind with
  | .lparen =>
    let _ ← advance
    enclosed fuel .rparen .noCloseParen (fun body closing => .paren t.pos body closing.pos) operand
  | .num =>
    let _ ← advance
    return .literal t.pos t.text
  | .ident =>
    let _ ← advance
    named fuel operand t
  | .operator =>
    match Sign.ofSymbol? t.text with
    | some sign =>
      let _ ← advance
      let e ← signed fuel operand
      return .unary t.pos sign e
    | none => complain .noOperand
  | _ => complain .noOperand

/-- An operand, inside of which no more than `n` operands are open at once, itself included. -/
def factor (fuel : Nat) : Nat → Action Expr
  | 0 => complain .tooDeep
  | n + 1 => operandOver fuel (factor fuel n)

/-! ### Equations -/

/-- If a terminator follows, take it and go on with `more`. -/
def terminatorRound (more : Action Unit) : Action Unit := do
  match ← consume .semi with
  | some _ => more
  | none => return ()

/-- Take all terminators that follow. -/
def skipTerminators : Nat → Action Unit
  | 0 => exhausted
  | fuel + 1 => terminatorRound (skipTerminators fuel)

/-- An expression and the terminators after it, which have to be the whole equation. -/
def statement (fuel : Nat) : Action Expr := do
  let e ← expression fuel (factor fuel maxNesting)
  let t ← peek
  match t.kind with
  | .semi =>
    skipTerminators fuel
    let trailing ← peek
    if trailing.kind = .eof then return e else complain .noEquationEnd
  | .eof => complain .noTerminator
  | _ => complain .noEquationEnd

/-- An equation.  It is not called empty if only a lexical fault keeps it from having an
expression. -/
def equation (fuel : Nat) : Action Expr := do
  let first ← peek
  let faulty ← hasErrors
  if (first.kind = .semi ∨ first.kind = .eof) ∧ faulty = false then complain .emptyEquation
  else statement fuel

/-- The answer of a reading that has come to its end: its expression if nothing has been reported,
and otherwise what has been, the lexical faults first. -/
def finish (name text : String) (result : Except Diagnostic Expr) (s : Session) :
    Except ParseError Expr :=
  match result with
  | .ok e =>
    let faults := s.lexer.errors.toList ++ s.reported
    if faults = [] then .ok e else .error ⟨name, text, Diagnostics.sorted ⟨faults⟩⟩
  | .error d =>
    .error ⟨name, text, Diagnostics.sorted ⟨s.lexer.errors.toList ++ (s.reported ++ [d])⟩⟩

/-- Read the text `eqn` of an equation; its faults are reported under `name`.  The session is that
at the end of the reading. -/
def parse (fuel : Nat) (name eqn : String) : Option (Except ParseError Expr × Session) :=
  let text := normalize eqn
  (equation fuel { lexer := Lexer.ofText text }).map fun (result, s) =>
    (finish name text result s, s)

/-! ### The mark of the end is no operator -/

theorem kind_ne_of_isOp {t : Token} {symbol : String} (h : t.isOp symbol) :
  t.kind ≠ .eof
  := by
  intro hend
  simp [Token.isOp, hend] at h

theorem kind_ne_of_operatorOf? {ops : List Operator} {t : Token} {op : Operator}
    (h : Parser.operatorOf? ops t = some op) :
  t.kind ≠ .eof
  := by
  rw [(Parser.operatorOf?_eq_some_iff.mp h).1]
  simp

end OnDemand

end EquationLang
