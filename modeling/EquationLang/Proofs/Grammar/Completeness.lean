import EquationLang.Proofs.Grammar.Levels

/-!
# Canonical expressions are read

The tokens of a canonical expression are read as this expression wherever its reading ends after
them (`Parser.run_joined_of_reading`).  The induction has to know also how reading goes on at the
level of an operator when the expression is only the first of several operands
(`Parser.ReadsOn`).
-/

namespace EquationLang

theorem Operator.level_lt_of_ne_exp {op : Operator} (h : op ≠ .exp) :
  op.level < Operator.exp.level
  := by
  cases op with
  | exp => exact absurd rfl h
  | add | sub | mul | div => decide

namespace Parser

/-- The tokens of `e` are read as `e` where the reading of `e` ends after them. -/
def ReadsBack (e : Expr) : Prop :=
  ∀ n k us rest, n ≤ operandLevel → Reading n n k e us rest →
    (joined n (factor k)).run (us ++ rest) = .ok (e, rest)

/-- Where the operators of a level follow the tokens of `e`, they are read with `e` as the first
operand. -/
def ReadsOn (e : Expr) : Prop :=
  ∀ n k us rest, n < operandLevel → Reading n (n + 1) k e us rest →
    (joined n (factor k)).run (us ++ rest)
      = chainFrom (operators n) (joined (n + 1) (factor k)) e rest

/-! ### Binary operators -/

/-- An expression of a tighter level is an operand. -/
theorem run_of_readsBack {n k : Nat} {e : Expr} {us rest : List Token} (h : ReadsBack e)
    (hn : n < operandLevel) (hlevel : n < e.level) (he : Reading n (n + 1) k e us rest) :
  (joined n (factor k)).run (us ++ rest)
    = chainFrom (operators n) (joined (n + 1) (factor k)) e rest
  := by
  rw [joined_of_lt hn]
  apply run_chain
  apply h (n + 1) k us rest hn
  exact { he with level := hlevel }

theorem stops_operator {op : Operator} {left : Expr} (h : op = .exp → ¬ left.EndsInSigned)
    (pos : Nat) :
  Stops (op.level + 1) left ⟨.operator, pos, op.symbol⟩
  := by
  constructor
  · simp
  · intro op' _ htext
    obtain rfl := Operator.symbol_injective htext
    exact ⟨Nat.lt_succ_self _, h⟩

/-- The reading of the right operand ends where that of the whole expression does. -/
theorem Stops.right {n : Nat} {left right : Expr} {pos : Nat} {op : Operator} {t : Token}
    (h : Stops n (.binary left pos op right) t) (hn : n ≤ op.level + 1)
    (hright : op.level < right.level) :
  Stops (op.level + 1) right t
  := by
  constructor
  · apply h.name
  · intro op' hkind htext
    obtain ⟨hlt, hsigned⟩ := h.operator op' hkind htext
    use Nat.lt_of_lt_of_le hlt hn
    rintro rfl hends
    -- a power can follow only a power, whose right operand is an operand
    have hop : op = .exp := by
      by_contra hne
      have := Operator.level_lt_of_ne_exp hne
      omega
    apply hsigned rfl
    apply (Expr.endsInSigned_binary_iff hright).mpr ⟨hop, hends⟩

theorem run_binary {left right : Expr} {pos : Nat} {op : Operator} (hleft : ReadsOn left)
    (hright : ReadsBack right) {k : Nat} {us rest : List Token}
    (h : Reading op.level (op.level + 1) k (.binary left pos op right) us rest) :
  (joined op.level (factor k)).run (us ++ rest)
    = chainFrom (operators op.level) (joined (op.level + 1) (factor k))
        (.binary left pos op right) rest
  := by
  obtain ⟨⟨ls, rs, hls, hrs, rfl⟩, hcanonical, -, hnest, hstops⟩ := h
  cases hcanonical with
  | binary hl hr hle hlt hsigned =>
    have hnests := Nat.max_le.mp hnest
    rw [List.append_assoc, List.cons_append, hleft op.level k ls (_ :: (rs ++ rest)) op.level_lt
      ⟨hls, hl, hle, hnests.1, stops_operator hsigned pos⟩]
    apply chainFrom_of_ok (operatorOf?_symbol pos op)
    apply hright (op.level + 1) k rs rest op.level_lt
    exact ⟨hrs, hr, hlt, hnests.2, hstops.right (Nat.le_refl _) hlt⟩

theorem reads_binary {left right : Expr} {pos : Nat} {op : Operator} (hleft : ReadsOn left)
    (hright : ReadsBack right) :
  ReadsBack (.binary left pos op right) ∧ ReadsOn (.binary left pos op right)
  := by
  have hback : ReadsBack (.binary left pos op right) := by
    intro n k us rest hn he
    apply run_joined_of_le (m := op.level) he.level (Nat.le_of_lt op.level_lt) _ he.stops
    rw [run_binary hleft hright { he with
      level := Nat.le_refl _
      stops := he.stops.mono (Nat.le_succ_of_le he.level) }]
    apply chainFrom_of_stops (he.stops.mono he.level)
  use hback
  intro n k us rest hn he
  obtain rfl | hlt := Nat.eq_or_lt_of_le he.level
  · apply run_binary hleft hright he
  · apply run_of_readsBack hback hn hlt he

/-! ### Operands -/

/-- A token that does not call or index and is no operator ends every reading. -/
theorem stops_of_closes {t : Token} (hkind : t.kind ≠ .lparen ∧ t.kind ≠ .lbracket)
    (hop : ∀ op : Operator, t.kind = .operator → t.text ≠ op.symbol) (n : Nat) (e : Expr) :
  Stops n e t
  := by
  constructor
  · apply fun _ => hkind
  · intro op hoperator htext
    exact absurd htext (hop op hoperator)

theorem stops_comma (n : Nat) (e : Expr) (pos : Nat) :
  Stops n e ⟨.operator, pos, ","⟩
  := by
  apply stops_of_closes
  · exact ⟨Token.Kind.noConfusion, Token.Kind.noConfusion⟩
  · intro op _
    cases op <;> simp [Operator.symbol]

/-- An operand that is read by `factor` is read at every level. -/
theorem reads_of_factor {e : Expr} (hlevel : e.level = operandLevel)
    (h : ∀ k us rest, Reading operandLevel operandLevel k e us rest →
      (factor k).run (us ++ rest) = .ok (e, rest)) :
  ReadsBack e ∧ ReadsOn e
  := by
  have hback : ReadsBack e := by
    intro n k us rest hn he
    apply run_joined_of_le hn (Nat.le_refl _)
    · apply h
      exact { he with level := Nat.le_of_eq hlevel.symm, stops := he.stops.mono hn }
    · apply he.stops
  use hback
  intro n k us rest hn he
  apply run_of_readsBack hback hn _ he
  rw [hlevel]
  exact hn

theorem run_body {k : Nat} {body : Expr} {us rest : List Token} {closing : Token}
    (h : ReadsBack body) (hspelled : body.Spelled us) (hcanonical : body.Canonical)
    (hnest : body.nest ≤ k) (hclosing : ∀ n e, Stops n e closing) :
  (expression (factor k)).run (us ++ closing :: rest) = .ok (body, closing :: rest)
  := by
  apply h 0 k us _ (Nat.zero_le _)
  exact ⟨hspelled, hcanonical, Nat.zero_le _, hnest, hclosing 0 body⟩

theorem arguments_of_ok {arg : Parser Expr} {ts rest : List Token} {e : Expr} {t : Token}
    (hrun : arg.run ts = .ok (e, t :: rest)) :
  arguments arg ts =
    if t.isOp "," then do
      let ((es, closing), rest) ← arguments arg rest
      return ((e :: es, closing), rest)
    else if t.kind = .rparen then .ok (([e], t), rest)
    else refuse .noArgumentEnd (t :: rest)
  := by
  rw [arguments.eq_def]
  split
  · simp_all
  · simp_all
  · next read =>
    rw [hrun] at read
    cases read
    rfl

theorem arguments_of_closing {arg : Parser Expr} {ts rest : List Token} {e : Expr} {t : Token}
    (hrun : arg.run ts = .ok (e, t :: rest)) (ht : t.kind = .rparen) :
  arguments arg ts = .ok (([e], t), rest)
  := by
  have hcomma : ¬ t.isOp "," := by simp [Token.isOp, ht]
  rw [arguments_of_ok hrun, if_neg hcomma, if_pos ht]

theorem arguments_of_comma {arg : Parser Expr} {ts rest rest' : List Token} {e : Expr}
    {es : List Expr} {pos : Nat} {closing : Token}
    (hrun : arg.run ts = .ok (e, ⟨.operator, pos, ","⟩ :: rest))
    (hmore : arguments arg rest = .ok ((es, closing), rest')) :
  arguments arg ts = .ok ((e :: es, closing), rest')
  := by
  have hcomma : (⟨.operator, pos, ","⟩ : Token).isOp "," := rfl
  rw [arguments_of_ok hrun, if_pos hcomma, hmore]
  rfl

theorem arguments_of_spelled {k : Nat} {args : List Expr} (hne : args ≠ [])
    (h : ∀ arg ∈ args, ReadsBack arg) (hcanonical : ∀ arg ∈ args, arg.Canonical)
    (hnest : Expr.nestAll args ≤ k) {us rest : List Token} {closing : Token}
    (hspelled : Expr.SpelledArgs args us) (hclosing : closing.kind = .rparen) :
  arguments (expression (factor k)) (us ++ closing :: rest) = .ok ((args, closing), rest)
  := by
  have hstops : ∀ n e, Stops n e closing := by
    apply stops_of_closes <;> simp [hclosing]
  induction args generalizing us with
  | nil => exact absurd rfl hne
  | cons arg args ih =>
    have hfirst := h arg List.mem_cons_self
    have hfirst' := hcanonical arg List.mem_cons_self
    obtain ⟨hdepth, hdepths⟩ := Nat.max_le.mp hnest
    cases args with
    | nil =>
      apply arguments_of_closing _ hclosing
      apply run_body hfirst hspelled hfirst' hdepth hstops
    | cons next args =>
      obtain ⟨us, pos, vs, harg, hargs, rfl⟩ := hspelled
      rw [List.append_assoc]
      apply arguments_of_comma
      · apply run_body hfirst harg hfirst' hdepth (stops_comma · · pos)
      · apply ih (List.cons_ne_nil next args) _ _ hdepths hargs
        · apply fun arg harg => h arg (List.mem_cons_of_mem _ harg)
        · apply fun arg harg => hcanonical arg (List.mem_cons_of_mem _ harg)

theorem stops_rparen (n : Nat) (e : Expr) (pos : Nat) :
  Stops n e ⟨.rparen, pos, ")"⟩
  := by
  apply stops_of_closes <;> simp

theorem stops_rbracket (n : Nat) (e : Expr) (pos : Nat) :
  Stops n e ⟨.rbracket, pos, "]"⟩
  := by
  apply stops_of_closes <;> simp

section

variable {k : Nat} {us rest : List Token}

theorem factor_ident {pos : Nat} {name : String}
    (h : Reading operandLevel operandLevel k (.ident pos name) us rest) :
  (factor k).run (us ++ rest) = .ok (.ident pos name, rest)
  := by
  obtain ⟨hspelled, -, -, hnest, hstops⟩ := h
  obtain ⟨k, rfl⟩ := Nat.exists_eq_succ_of_ne_zero (Nat.ne_of_gt hnest)
  obtain rfl : us = [⟨.ident, pos, name⟩] := hspelled
  change named (factor k) ⟨.ident, pos, name⟩ rest = _
  rw [named.eq_def]
  cases rest with
  | nil => rfl
  | cons t rest =>
    obtain ⟨hlparen, hlbracket⟩ := hstops.name trivial
    rw [lookahead, List.headD_cons] at hlparen hlbracket
    dsimp only
    split
    · contradiction
    · contradiction
    · rfl

theorem factor_literal {pos : Nat} {value : String}
    (h : Reading operandLevel operandLevel k (.literal pos value) us rest) :
  (factor k).run (us ++ rest) = .ok (.literal pos value, rest)
  := by
  obtain ⟨hspelled, -, -, hnest, -⟩ := h
  obtain ⟨k, rfl⟩ := Nat.exists_eq_succ_of_ne_zero (Nat.ne_of_gt hnest)
  obtain rfl : us = [⟨.num, pos, value⟩] := hspelled
  rfl

theorem factor_paren {lparen rparen : Nat} {body : Expr} (hbody : ReadsBack body)
    (h : Reading operandLevel operandLevel k (.paren lparen body rparen) us rest) :
  (factor k).run (us ++ rest) = .ok (.paren lparen body rparen, rest)
  := by
  obtain ⟨⟨us, hus, rfl⟩, hcanonical, -, hnest, -⟩ := h
  obtain ⟨k, rfl⟩ := Nat.exists_eq_succ_of_ne_zero (Nat.ne_zero_of_lt hnest)
  cases hcanonical with
  | paren hcanonical =>
    change parenthesized (factor k) ⟨.lparen, lparen, "("⟩ (us ++ [_] ++ rest) = _
    rw [parenthesized, List.append_assoc, List.singleton_append, run_body hbody hus hcanonical
      (Nat.le_of_succ_le_succ hnest) (stops_rparen · · rparen)]
    rfl

theorem factor_index {pos lbrack rbrack : Nat} {name : String} {subscript : Expr}
    (hsubscript : ReadsBack subscript)
    (h : Reading operandLevel operandLevel k (.index (.ident pos name) lbrack subscript rbrack) us
      rest) :
  (factor k).run (us ++ rest) = .ok (.index (.ident pos name) lbrack subscript rbrack, rest)
  := by
  obtain ⟨⟨_, us, rfl, hus, rfl⟩, hcanonical, -, hnest, -⟩ := h
  obtain ⟨k, rfl⟩ := Nat.exists_eq_succ_of_ne_zero (Nat.ne_zero_of_lt hnest)
  cases hcanonical with
  | index _ hcanonical =>
    change subscripted (factor k) (.ident pos name) ⟨.lbracket, lbrack, "["⟩ (us ++ [_] ++ rest) = _
    rw [subscripted, List.append_assoc, List.singleton_append, run_body hsubscript hus hcanonical
      (Nat.le_of_succ_le_succ hnest) (stops_rbracket · · rbrack)]
    rfl

theorem factor_call {pos lparen rparen : Nat} {name : String} {args : List Expr}
    (hargs : ∀ arg ∈ args, ReadsBack arg)
    (h : Reading operandLevel operandLevel k (.call (.ident pos name) lparen args rparen) us rest) :
  (factor k).run (us ++ rest) = .ok (.call (.ident pos name) lparen args rparen, rest)
  := by
  obtain ⟨⟨_, us, rfl, hus, rfl⟩, hcanonical, -, hnest, -⟩ := h
  obtain ⟨k, rfl⟩ := Nat.exists_eq_succ_of_ne_zero (Nat.ne_zero_of_lt hnest)
  cases hcanonical with
  | call _ hcanonical =>
    change called (factor k) (.ident pos name) ⟨.lparen, lparen, "("⟩ (us ++ [_] ++ rest) = _
    rw [called, List.append_assoc, List.singleton_append]
    cases args with
    | nil =>
      obtain rfl : us = [] := hus
      rfl
    | cons arg args =>
      have hfirst : (lookahead (us ++ ⟨.rparen, rparen, ")"⟩ :: rest)).kind ≠ .rparen := by
        obtain ⟨t, us, rfl, hstart⟩ := Expr.SpelledArgs.exists_first hus
        apply hstart.kind_ne (.inl rfl)
      rw [if_neg hfirst, arguments_of_spelled (List.cons_ne_nil arg args) hargs hcanonical
        (Nat.le_of_succ_le_succ hnest) hus rfl]
      rfl

theorem factor_unary {opPos : Nat} {sign : Sign} {operand : Expr} (hoperand : ReadsBack operand)
    (h : Reading operandLevel operandLevel k (.unary opPos sign operand) us rest) :
  (factor k).run (us ++ rest) = .ok (.unary opPos sign operand, rest)
  := by
  obtain ⟨⟨us, hus, rfl⟩, hcanonical, -, hnest, hstops⟩ := h
  obtain ⟨k, rfl⟩ := Nat.exists_eq_succ_of_ne_zero (Nat.ne_zero_of_lt hnest)
  cases hcanonical with
  | unary hcanonical hlevel =>
    have hinner : Stops Operator.exp.level operand (lookahead rest) := by
      constructor
      · apply hstops.name
      · intro op hkind htext
        have hne : op ≠ .exp := fun hexp => (hstops.operator op hkind htext).2 hexp trivial
        exact ⟨Operator.level_lt_of_ne_exp hne, fun hexp => absurd hexp hne⟩
    have hrun := hoperand Operator.exp.level k us rest (Nat.le_of_lt (Operator.level_lt .exp))
      ⟨hus, hcanonical, hlevel, Nat.le_of_succ_le_succ hnest, hinner⟩
    change operandOver (factor k) (⟨.operator, opPos, sign.symbol⟩ :: (us ++ rest)) = _
    rw [operandOver]
    simp only [Sign.ofSymbol?_eq_some_iff.mpr (rfl : sign.symbol = sign.symbol), signed_eq_joined,
      hrun]
    rfl

end

/-- The tokens of a canonical expression are read back, and they are read on after. -/
theorem readsBack_and_readsOn {e : Expr} (h : e.Canonical) :
  ReadsBack e ∧ ReadsOn e
  := by
  induction h with
  | ident => exact reads_of_factor rfl fun _ _ _ => factor_ident
  | literal => exact reads_of_factor rfl fun _ _ _ => factor_literal
  | paren _ ih => exact reads_of_factor rfl fun _ _ _ => factor_paren ih.1
  | index _ _ ih => exact reads_of_factor rfl fun _ _ _ => factor_index ih.1
  | call _ _ ih =>
    apply reads_of_factor rfl
    intro _ _ _
    apply factor_call
    intro arg harg
    apply (ih arg harg).1
  | unary _ _ ih => exact reads_of_factor rfl fun _ _ _ => factor_unary ih.1
  | binary _ _ _ _ _ ihl ihr => exact reads_binary ihl.2 ihr.1

/-- The tokens of a canonical expression are read back at every level that its operators have. -/
theorem run_joined_of_reading {n k : Nat} {e : Expr} {us rest : List Token}
    (hn : n ≤ operandLevel) (h : Reading n n k e us rest) :
  (joined n (factor k)).run (us ++ rest) = .ok (e, rest)
  := (readsBack_and_readsOn h.canonical).1 n k us rest hn h

end Parser

end EquationLang
