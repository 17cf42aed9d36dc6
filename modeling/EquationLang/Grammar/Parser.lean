import EquationLang.Grammar.Fault
import EquationLang.Grammar.Precedence
import EquationLang.Expr.Basic

/-!
# Parsers of expressions

A parser takes a value off the front of a list of tokens, or fails; when it succeeds it has taken at
least one token.  `Parser.chain` reads operands joined by the operators of one level;
`Parser.expression` piles up the levels over a parser of operands; and `Parser.factor` reads an
operand: a number, a variable, a call, an index, an expression in parens, or an operand with a sign.
Operands contain expressions, so `Parser.factor` is bounded by the number of operands that may still
be opened.
-/

namespace EquationLang

/-- A way of taking a value off the front of a list of tokens. -/
structure Parser (α : Type) where
  /-- The value taken off the front, and the tokens that are left. -/
  run : List Token → Except Failure (α × List Token)
  /-- At least one token is taken. -/
  progress : ∀ {ts rest : List Token} {a : α}, run ts = .ok (a, rest) → rest.length < ts.length

namespace Parser

private theorem bind_eq_ok {ε α β : Type} {x : Except ε α} {f : α → Except ε β} {b : β} :
  x >>= f = .ok b ↔ ∃ a, x = .ok a ∧ f a = .ok b
  := by
  cases x <;> simp [bind, Except.bind]

/-- Take a token of the given kind. -/
def expect (kind : Token.Kind) (complaint : Complaint) :
    List Token → Except Failure (Token × List Token)
  | [] => refuse complaint []
  | t :: ts => if t.kind = kind then .ok (t, ts) else refuse complaint (t :: ts)

theorem expect_eq_ok_iff {kind : Token.Kind} {complaint : Complaint} {ts rest : List Token}
    {t : Token} :
  expect kind complaint ts = .ok (t, rest) ↔ ts = t :: rest ∧ t.kind = kind
  := by
  cases ts with
  | nil => simp [expect, refuse]
  | cons u us =>
    by_cases h : u.kind = kind
    · simp only [expect, h, if_true, Except.ok.injEq, Prod.mk.injEq, List.cons.injEq]
      constructor
      · rintro ⟨rfl, rfl⟩
        exact ⟨⟨rfl, rfl⟩, h⟩
      · exact And.left
    · simp only [expect, h, if_false, refuse, reduceCtorEq, false_iff]
      rintro ⟨⟨⟩, rfl⟩
      exact h rfl

/-! ### Binary operators -/

/-- The operator among `ops` that the token is. -/
def operatorOf? (ops : List Operator) (t : Token) : Option Operator :=
  if t.kind = .operator then (Operator.ofSymbol? t.text).filter (· ∈ ops) else none

/-- Read on after `left`: as long as one of `ops` follows, join it with the operand after it. -/
def chainFrom (ops : List Operator) (operand : Parser Expr) (left : Expr) :
    List Token → Except Failure (Expr × List Token)
  | [] => .ok (left, [])
  | t :: ts =>
    match operatorOf? ops t with
    | none => .ok (left, t :: ts)
    | some op =>
      match read : operand.run ts with
      | .error e => .error e
      | .ok (right, rest) =>
        have := operand.progress read
        chainFrom ops operand (.binary left t.pos op right) rest
termination_by ts => ts.length

theorem length_le_of_chainFrom {ops : List Operator} {operand : Parser Expr} {left e : Expr}
    {ts rest : List Token} (h : chainFrom ops operand left ts = .ok (e, rest)) :
  rest.length ≤ ts.length
  := by
  fun_induction chainFrom ops operand left ts with
  | case1 | case2 =>
    cases h
    exact Nat.le_refl _
  | case3 => cases h
  | case4 _ _ _ _ _ _ _ _ shorter ih =>
    have := ih h
    simp only [List.length_cons]
    omega

/-- Operands joined by the operators `ops`, from left to right. -/
def chain (ops : List Operator) (operand : Parser Expr) : Parser Expr where
  run ts := do
    let (left, rest) ← operand.run ts
    chainFrom ops operand left rest
  progress h := by
    obtain ⟨⟨left, rest⟩, first, more⟩ := bind_eq_ok.1 h
    exact Nat.lt_of_le_of_lt (length_le_of_chainFrom more) (operand.progress first)

/-- An expression whose operands are read by `operand`: all levels of operators, the loosest
outermost. -/
def expression (operand : Parser Expr) : Parser Expr := PrecedenceTable.standard.foldr chain operand

/-- What a sign applies to: operands joined by the operators of the tightest level. -/
def signed (operand : Parser Expr) : Parser Expr := chain PrecedenceTable.standard.tightest operand

/-! ### Operands -/

/-- An expression in parens, after the opening paren `opening`. -/
def parenthesized (operand : Parser Expr) (opening : Token) (ts : List Token) :
    Except Failure (Expr × List Token) := do
  let (body, rest) ← (expression operand).run ts
  let (closing, rest) ← expect .rparen .noCloseParen rest
  return (.paren opening.pos body closing.pos, rest)

/-- An index of `base`, after the opening bracket `opening`. -/
def subscripted (operand : Parser Expr) (base : Expr) (opening : Token) (ts : List Token) :
    Except Failure (Expr × List Token) := do
  let (subscript, rest) ← (expression operand).run ts
  let (closing, rest) ← expect .rbracket .noCloseBracket rest
  return (.index base opening.pos subscript closing.pos, rest)

/-- Arguments separated by commas, and the closing paren after them. -/
def arguments (arg : Parser Expr) (ts : List Token) :
    Except Failure ((List Expr × Token) × List Token) :=
  match read : arg.run ts with
  | .error failure => .error (failure.within .badArgument)
  | .ok (_, []) => refuse .noArgumentEnd []
  | .ok (e, t :: rest) =>
    have := arg.progress read
    if t.isOp "," then do
      let ((es, closing), rest) ← arguments arg rest
      return ((e :: es, closing), rest)
    else if t.kind = .rparen then .ok (([e], t), rest)
    else refuse .noArgumentEnd (t :: rest)
termination_by ts.length
decreasing_by
  simp only [List.length_cons] at this
  omega

/-- A call of `callee`, after the opening paren `opening`. -/
def called (operand : Parser Expr) (callee : Expr) (opening : Token) (ts : List Token) :
    Except Failure (Expr × List Token) :=
  if (lookahead ts).kind = .rparen then
    .ok (.call callee opening.pos [] (lookahead ts).pos, ts.tail)
  else do
    let ((args, closing), rest) ← arguments (expression operand) ts
    return (.call callee opening.pos args closing.pos, rest)

/-- A variable, or a call or an index of it, after its name. -/
def named (operand : Parser Expr) (name : Token) (ts : List Token) :
    Except Failure (Expr × List Token) :=
  let ident := Expr.ident name.pos name.text
  match ts with
  | [] => .ok (ident, [])
  | t :: rest =>
    match t.kind with
    | .lparen => called operand ident t rest
    | .lbracket => subscripted operand ident t rest
    | _ => .ok (ident, t :: rest)

/-- An operand, where `operand` reads the operands inside it. -/
def operandOver (operand : Parser Expr) : List Token → Except Failure (Expr × List Token)
  | [] => refuse .noOperand []
  | t :: ts =>
    match t.kind with
    | .lparen => parenthesized operand t ts
    | .num => .ok (.literal t.pos t.text, ts)
    | .ident => named operand t ts
    | .operator =>
      match Sign.ofSymbol? t.text with
      | some sign => do
        let (e, rest) ← (signed operand).run ts
        return (.unary t.pos sign e, rest)
      | none => refuse .noOperand (t :: ts)
    | _ => refuse .noOperand (t :: ts)

/-! ### Operands make progress -/

theorem length_lt_of_expect {kind : Token.Kind} {complaint : Complaint} {ts rest : List Token}
    {t : Token} (h : expect kind complaint ts = .ok (t, rest)) :
  rest.length < ts.length
  := by
  simp [(expect_eq_ok_iff.1 h).1]

theorem length_lt_of_parenthesized {operand : Parser Expr} {opening : Token} {e : Expr}
    {ts rest : List Token} (h : parenthesized operand opening ts = .ok (e, rest)) :
  rest.length < ts.length
  := by
  obtain ⟨⟨body, rest'⟩, first, h⟩ := bind_eq_ok.1 h
  obtain ⟨⟨closing, rest''⟩, last, h⟩ := bind_eq_ok.1 h
  cases h
  exact Nat.lt_trans (length_lt_of_expect last) ((expression operand).progress first)

theorem length_lt_of_subscripted {operand : Parser Expr} {base e : Expr} {opening : Token}
    {ts rest : List Token} (h : subscripted operand base opening ts = .ok (e, rest)) :
  rest.length < ts.length
  := by
  obtain ⟨⟨subscript, rest'⟩, first, h⟩ := bind_eq_ok.1 h
  obtain ⟨⟨closing, rest''⟩, last, h⟩ := bind_eq_ok.1 h
  cases h
  exact Nat.lt_trans (length_lt_of_expect last) ((expression operand).progress first)

theorem length_lt_of_arguments {arg : Parser Expr} {ts rest : List Token} {es : List Expr}
    {closing : Token} (h : arguments arg ts = .ok ((es, closing), rest)) :
  rest.length < ts.length
  := by
  fun_induction arguments arg ts generalizing es closing rest with
  | case1 | case2 | case5 => cases h
  | case3 ts e t rest' read shorter comma ih =>
    obtain ⟨⟨⟨es', closing'⟩, rest''⟩, more, h⟩ := bind_eq_ok.1 h
    cases h
    have := ih more
    simp only [List.length_cons] at shorter
    omega
  | case4 ts e t rest' read shorter comma isEnd =>
    cases h
    simp only [List.length_cons] at shorter
    omega

theorem length_lt_of_called {operand : Parser Expr} {callee e : Expr} {opening : Token}
    {ts rest : List Token} (h : called operand callee opening ts = .ok (e, rest)) :
  rest.length < ts.length
  := by
  unfold called at h
  split at h
  · next isEnd =>
    cases h
    cases ts with
    | nil => cases isEnd
    | cons => simp
  · obtain ⟨⟨⟨args, closing⟩, rest'⟩, more, h⟩ := bind_eq_ok.1 h
    cases h
    exact length_lt_of_arguments more

theorem length_le_of_named {operand : Parser Expr} {name : Token} {e : Expr} {ts rest : List Token}
    (h : named operand name ts = .ok (e, rest)) :
  rest.length ≤ ts.length
  := by
  unfold named at h
  split at h
  · cases h
    exact Nat.le_refl _
  · split at h
    · exact Nat.le_succ_of_le (Nat.le_of_lt (length_lt_of_called h))
    · exact Nat.le_succ_of_le (Nat.le_of_lt (length_lt_of_subscripted h))
    · cases h
      exact Nat.le_refl _

theorem length_lt_of_operandOver {operand : Parser Expr} {e : Expr} {ts rest : List Token}
    (h : operandOver operand ts = .ok (e, rest)) :
  rest.length < ts.length
  := by
  unfold operandOver at h
  split at h
  · cases h
  · rw [List.length_cons]
    split at h
    · exact Nat.lt_succ_of_lt (length_lt_of_parenthesized h)
    · cases h
      exact Nat.lt_succ_self _
    · exact Nat.lt_succ_of_le (length_le_of_named h)
    · split at h
      · obtain ⟨⟨e', rest'⟩, more, h⟩ := bind_eq_ok.1 h
        cases h
        exact Nat.lt_succ_of_lt ((signed operand).progress more)
      · cases h
    · cases h

/-- An operand, inside of which no more than `n` operands are open at once, itself included. -/
def factor : Nat → Parser Expr
  | 0 => ⟨refuse .tooDeep, fun h => nomatch h⟩
  | n + 1 => ⟨operandOver (factor n), length_lt_of_operandOver⟩

end Parser

end EquationLang
