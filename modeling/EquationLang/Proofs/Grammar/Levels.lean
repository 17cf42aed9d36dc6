import EquationLang.Grammar.Parser
import EquationLang.Proofs.Expr.Canonical

/-!
# Levels of the grammar

`Parser.joined n operand` reads operands joined by operators of the level `n` and of tighter levels.
`Parser.Stops n e t` says when the reading of `e` at that level ends before the token `t`, and
`Parser.Reading` puts together what is known about an expression that has been read.
-/

namespace EquationLang

theorem Operator.symbol_injective {op op' : Operator} (h : op.symbol = op'.symbol) :
  op = op'
  := by
  have hop := ofSymbol?_eq_some_iff.mpr h
  rw [ofSymbol?_eq_some_iff.mpr rfl] at hop
  apply Option.some.inj hop.symm

namespace Parser

/-- The operators of a level. -/
def operators (n : Nat) : List Operator := PrecedenceTable.standard.getD n []

theorem mem_operators_iff {n : Nat} {op : Operator} :
  op ∈ operators n ↔ op.level = n
  := by
  obtain rfl | rfl | rfl | ⟨n, rfl⟩ : n = 0 ∨ n = 1 ∨ n = 2 ∨ ∃ m, n = m + 3 := by
    obtain _ | _ | _ | n := n <;> simp
  · cases op <;> decide
  · cases op <;> decide
  · cases op <;> decide
  · have := op.level_lt
    simp [operators, operandLevel, PrecedenceTable.standard] at this ⊢
    omega

/-- Operands joined by operators of the level `n` and of tighter levels. -/
def joined (n : Nat) (operand : Parser Expr) : Parser Expr :=
  (PrecedenceTable.standard.drop n).foldr chain operand

theorem expression_eq_joined (operand : Parser Expr) :
  expression operand = joined 0 operand
  := rfl

theorem signed_eq_joined (operand : Parser Expr) :
  signed operand = joined Operator.exp.level operand
  := rfl

theorem joined_of_lt {n : Nat} (h : n < operandLevel) (operand : Parser Expr) :
  joined n operand = chain (operators n) (joined (n + 1) operand)
  := by
  obtain rfl | rfl | rfl : n = 0 ∨ n = 1 ∨ n = 2 := by
    simp [operandLevel, PrecedenceTable.standard] at h
    omega
  · rfl
  · rfl
  · rfl

/-- An expression and the token that closes it, made into an operand by `node`. -/
def enclosed (kind : Token.Kind) (complaint : Complaint) (node : Expr → Token → Expr)
    (operand : Parser Expr) (ts : List Token) : Except Failure (Expr × List Token) := do
  let (body, rest) ← (expression operand).run ts
  let (closing, rest) ← expect kind complaint rest
  return (node body closing, rest)

theorem parenthesized_eq_enclosed (operand : Parser Expr) (opening : Token) :
  parenthesized operand opening
    = enclosed .rparen .noCloseParen (fun body closing => .paren opening.pos body closing.pos)
        operand
  := rfl

theorem subscripted_eq_enclosed (operand : Parser Expr) (base : Expr) (opening : Token) :
  subscripted operand base opening
    = enclosed .rbracket .noCloseBracket
        (fun subscript closing => .index base opening.pos subscript closing.pos) operand
  := rfl

theorem operatorOf?_eq_some_iff {ops : List Operator} {t : Token} {op : Operator} :
  operatorOf? ops t = some op ↔ t.kind = .operator ∧ t.text = op.symbol ∧ op ∈ ops
  := by
  rw [operatorOf?]
  split
  · next h =>
    rw [Option.filter_eq_some_iff, Operator.ofSymbol?_eq_some_iff, eq_comm, decide_eq_true_iff]
    simp [h]
  · next h => simp [h]

theorem operatorOf?_symbol (pos : Nat) (op : Operator) :
  operatorOf? (operators op.level) ⟨.operator, pos, op.symbol⟩ = some op
  := operatorOf?_eq_some_iff.mpr ⟨rfl, rfl, mem_operators_iff.mpr rfl⟩

/-- The reading of `e` at the level `n` ends before the token `t`: a name at the end of `e` is not
called or indexed by it, it is no operator of the level or of a tighter one, and no power of an
operand with a sign. -/
structure Stops (n : Nat) (e : Expr) (t : Token) : Prop where
  name : e.EndsInName → t.kind ≠ .lparen ∧ t.kind ≠ .lbracket
  operator : ∀ op : Operator, t.kind = .operator → t.text = op.symbol →
    op.level < n ∧ (op = .exp → ¬ e.EndsInSigned)

theorem Stops.mono {n m : Nat} {e : Expr} {t : Token} (h : Stops n e t) (hnm : n ≤ m) :
  Stops m e t
  := by
  constructor
  · apply h.name
  · intro op hkind htext
    obtain ⟨hlt, hsigned⟩ := h.operator op hkind htext
    exact ⟨Nat.lt_of_lt_of_le hlt hnm, hsigned⟩

/-- A token that is no operator of the level `n` ends the reading at this level if it ends that at
the next one. -/
theorem Stops.of_succ {n : Nat} {e : Expr} {t : Token} (h : Stops (n + 1) e t)
    (hnone : operatorOf? (operators n) t = none) :
  Stops n e t
  := by
  constructor
  · apply h.name
  · intro op hkind htext
    obtain ⟨hlt, hsigned⟩ := h.operator op hkind htext
    constructor
    · apply Nat.lt_of_le_of_ne (Nat.le_of_lt_succ hlt)
      intro hlevel
      have hsome := operatorOf?_eq_some_iff.mpr ⟨hkind, htext, mem_operators_iff.mpr hlevel⟩
      rw [hsome] at hnone
      cases hnone
    · exact hsigned

/-- A token that ends the reading at a level is no operator of it. -/
theorem Stops.operatorOf?_eq_none {n : Nat} {e : Expr} {t : Token} (h : Stops n e t) :
  operatorOf? (operators n) t = none
  := by
  cases hop : operatorOf? (operators n) t with
  | none => rfl
  | some op =>
    obtain ⟨hkind, htext, hmem⟩ := operatorOf?_eq_some_iff.mp hop
    have hlt := (h.operator op hkind htext).1
    rw [mem_operators_iff.mp hmem] at hlt
    exact absurd hlt (Nat.lt_irrefl n)

/-- What is known about an expression `e` whose operators are of the level `n` or tighter ones, in
which at most `k` operands are open at once, and which is written with the tokens `us` and read at
the level `m` before the tokens `rest`. -/
structure Reading (n m k : Nat) (e : Expr) (us rest : List Token) : Prop where
  spelled : e.Spelled us
  canonical : e.Canonical
  level : n ≤ e.level
  nest : e.nest ≤ k
  stops : Stops m e (lookahead rest)

theorem chainFrom_of_stops {n : Nat} {e : Expr} {rest : List Token}
    (h : Stops n e (lookahead rest)) (operand : Parser Expr) :
  chainFrom (operators n) operand e rest = .ok (e, rest)
  := by
  cases rest with
  | nil => rw [chainFrom]
  | cons t rest =>
    have hnone : operatorOf? (operators n) t = none := h.operatorOf?_eq_none
    rw [chainFrom, hnone]

theorem chainFrom_of_ok {ops : List Operator} {operand : Parser Expr} {left right : Expr}
    {t : Token} {op : Operator} {ts rest : List Token} (hop : operatorOf? ops t = some op)
    (hright : operand.run ts = .ok (right, rest)) :
  chainFrom ops operand left (t :: ts)
    = chainFrom ops operand (.binary left t.pos op right) rest
  := by
  rw [chainFrom.eq_def]
  simp only [hop]
  split
  · next read =>
    rw [hright] at read
    cases read
  · next read =>
    rw [hright] at read
    cases read
    rfl

theorem chainFrom_of_error {ops : List Operator} {operand : Parser Expr} (left : Expr) {t : Token}
    {op : Operator} {ts : List Token} {failure : Failure} (hop : operatorOf? ops t = some op)
    (hright : operand.run ts = .error failure) :
  chainFrom ops operand left (t :: ts) = .error failure
  := by
  rw [chainFrom.eq_def]
  simp only [hop]
  split
  · next read =>
    rw [hright] at read
    cases read
    rfl
  · next read =>
    rw [hright] at read
    cases read

/-- The first operator of a level, and what comes after its right operand. -/
theorem chainFrom_cons {ops : List Operator} {t : Token} {op : Operator}
    (hop : operatorOf? ops t = some op) (operand : Parser Expr) (left : Expr) (ts : List Token) :
  chainFrom ops operand left (t :: ts)
    = operand.run ts >>= fun (right, rest) =>
      chainFrom ops operand (.binary left t.pos op right) rest
  := by
  cases hread : operand.run ts with
  | ok p => exact chainFrom_of_ok hop hread
  | error failure => exact chainFrom_of_error left hop hread

theorem run_chain {ops : List Operator} {operand : Parser Expr} {ts rest : List Token} {e : Expr}
    (h : operand.run ts = .ok (e, rest)) :
  (chain ops operand).run ts = chainFrom ops operand e rest
  := by
  simp only [chain, h]
  rfl

/-- What is read at a level is also read at a looser one, if the reading ends there too. -/
theorem run_joined_of_le {n m : Nat} (hnm : n ≤ m) (hm : m ≤ operandLevel)
    {operand : Parser Expr} {ts rest : List Token} {e : Expr}
    (h : (joined m operand).run ts = .ok (e, rest)) (hstops : Stops n e (lookahead rest)) :
  (joined n operand).run ts = .ok (e, rest)
  := by
  induction hnm using Nat.decreasingInduction with
  | self => exact h
  | of_succ n hlt ih =>
    rw [joined_of_lt (Nat.lt_of_lt_of_le hlt hm), run_chain (ih (hstops.mono (Nat.le_succ n)))]
    apply chainFrom_of_stops hstops

end Parser

end EquationLang
