import EquationLang.Proofs.Grammar.FirstMisfit
import EquationLang.Proofs.Grammar.Placement

/-!
# The limit on the depth

An expression with at most `maxNesting` operands open at once is read, and otherwise the first
operand with `maxNesting` operands around it is refused, however many operands stand beside it
(`parse_depth_limit`).  The reading of an expression carries the depth that is left as a bound, so
the induction is on the expression, for all bounds and for all tokens after it.
-/

namespace EquationLang

/-- The first element of two lists is that of the first list, or of the second one if the first is
empty. -/
theorem head?_append_cases {α : Type} {as bs : List α} {a : α} (h : (as ++ bs).head? = some a) :
  as.head? = some a ∨ as = [] ∧ bs.head? = some a
  := by
  cases as with
  | nil => exact .inr ⟨rfl, h⟩
  | cons => exact .inl h

namespace Parser

/-- The reading is refused for depth, at the offset `pos`. -/
def StopsTooDeep {α : Type} (result : Except Failure α) (pos : Nat) : Prop :=
  ∃ failure, result = .error failure ∧ failure.cause.complaint = .tooDeep
    ∧ failure.cause.found.pos = pos

theorem StopsTooDeep.bind {α β : Type} {result : Except Failure α} {pos : Nat}
    (h : StopsTooDeep result pos) (f : α → Except Failure β) :
  StopsTooDeep (result >>= f) pos
  := by
  obtain ⟨failure, rfl, hcause⟩ := h
  exact ⟨failure, rfl, hcause⟩

/-- What is refused for depth at a level is so at a looser one. -/
theorem StopsTooDeep.of_le {n m : Nat} (hnm : n ≤ m) (hm : m ≤ operandLevel)
    {operand : Parser Expr} {ts : List Token} {pos : Nat}
    (h : StopsTooDeep ((joined m operand).run ts) pos) :
  StopsTooDeep ((joined n operand).run ts) pos
  := by
  induction hnm using Nat.decreasingInduction with
  | self => exact h
  | of_succ n hlt ih =>
    rw [joined_of_lt (Nat.lt_of_lt_of_le hlt hm)]
    apply ih.bind

/-- Where the first operand with `k` operands around it is, the reading is refused if no more than
`k` operands may be open. -/
def RefusesTooDeep (e : Expr) : Prop :=
  ∀ k s us rest, (e.operandsAt k).head? = some s → e.Spelled us →
    StopsTooDeep ((joined e.level (factor k)).run (us ++ rest)) s.pos

/-- No operand may be open. -/
theorem stopsTooDeep_factor_zero {e : Expr} {us : List Token} (h : e.Spelled us)
    (rest : List Token) :
  StopsTooDeep ((factor 0).run (us ++ rest)) e.pos
  := by
  obtain ⟨t, us, rfl, -, hpos⟩ := h.exists_first
  exact ⟨_, rfl, rfl, hpos⟩

/-- An operand is refused if its inside is. -/
theorem refusesTooDeep_of_inside {e : Expr} (hlevel : e.level = operandLevel)
    (hzero : e.operandsAt 0 = [e])
    (h : ∀ k s us rest, (e.operandsAt (k + 1)).head? = some s → e.Spelled us →
      StopsTooDeep (operandOver (factor k) (us ++ rest)) s.pos) :
  RefusesTooDeep e
  := by
  intro k s us rest hs hus
  rw [hlevel]
  cases k with
  | zero =>
    rw [hzero] at hs
    obtain rfl := Option.some.inj hs
    apply stopsTooDeep_factor_zero hus
  | succ k => exact h k s us rest hs hus

section

variable {e : Expr} {k : Nat} {s : Expr} {us rest : List Token}

/-- An expression is refused at every level that its operators have. -/
theorem RefusesTooDeep.joined {n : Nat} (h : RefusesTooDeep e) (hn : n ≤ e.level)
    (hs : (e.operandsAt k).head? = some s) (hus : e.Spelled us) (rest : List Token) :
  StopsTooDeep ((joined n (factor k)).run (us ++ rest)) s.pos
  := (h k s us rest hs hus).of_le hn e.level_le

/-- An operator is refused if one of its operands is. -/
theorem refusesTooDeep_binary {left right : Expr} {opPos : Nat} {op : Operator}
    (hl : left.Canonical) (hle : op.level ≤ left.level) (hlt : op.level < right.level)
    (hsigned : op = .exp → ¬ left.EndsInSigned) (hleft : RefusesTooDeep left)
    (hright : RefusesTooDeep right) :
  RefusesTooDeep (.binary left opPos op right)
  := by
  intro k s us rest hs hus
  obtain ⟨ls, rs, hls, hrs, rfl⟩ := hus
  rw [List.append_assoc, List.cons_append]
  rw [Expr.operandsAt] at hs
  obtain hs | ⟨hnil, hs⟩ := head?_append_cases hs
  · apply hleft.joined hle hs hls
  · obtain ⟨failure, hrun, hcause⟩ := hright.joined hlt hs hrs rest
    refine ⟨failure, ?_, hcause⟩
    -- no operand of the left side is too deep, so it is read up to the operator
    have hnest : left.nest ≤ k := (left.nest_le_iff k).mpr hnil
    have hreading : Reading op.level (op.level + 1) k left ls
        (⟨.operator, opPos, op.symbol⟩ :: (rs ++ rest)) :=
      ⟨hls, hl, hle, hnest, stops_operator hsigned opPos⟩
    rw [Expr.level, (readsBack_and_readsOn hl).2 op.level k ls _ op.level_lt hreading]
    apply chainFrom_of_error left (operatorOf?_symbol opPos op) hrun

/-- What stands in parens or brackets is refused if the expression inside is. -/
theorem stopsTooDeep_enclosed {kind : Token.Kind} {complaint : Complaint}
    {node : Expr → Token → Expr} (h : RefusesTooDeep e) (hs : (e.operandsAt k).head? = some s)
    (hus : e.Spelled us) (rest : List Token) :
  StopsTooDeep (enclosed kind complaint node (factor k) (us ++ rest)) s.pos
  := (h.joined (Nat.zero_le _) hs hus rest).bind _

theorem refusesTooDeep_paren {lparen rparen : Nat} {body : Expr} (h : RefusesTooDeep body) :
  RefusesTooDeep (.paren lparen body rparen)
  := by
  apply refusesTooDeep_of_inside rfl rfl
  intro k s us rest hs hus
  obtain ⟨us, hus, rfl⟩ := hus
  change StopsTooDeep (parenthesized (factor k) ⟨.lparen, lparen, "("⟩ (us ++ [_] ++ rest)) s.pos
  rw [List.append_assoc, parenthesized_eq_enclosed]
  apply stopsTooDeep_enclosed h hs hus

theorem refusesTooDeep_index {pos lbrack rbrack : Nat} {name : String} {subscript : Expr}
    (h : RefusesTooDeep subscript) :
  RefusesTooDeep (.index (.ident pos name) lbrack subscript rbrack)
  := by
  apply refusesTooDeep_of_inside rfl rfl
  intro k s us rest hs hus
  obtain ⟨_, us, rfl, hus, rfl⟩ := hus
  change StopsTooDeep (subscripted (factor k) (.ident pos name) ⟨.lbracket, lbrack, "["⟩
    (us ++ [_] ++ rest)) s.pos
  rw [List.append_assoc, subscripted_eq_enclosed]
  apply stopsTooDeep_enclosed h hs hus

/-- Arguments are refused if one of them is; those before it are read. -/
theorem stopsTooDeep_arguments {args : List Expr} (h : ∀ arg ∈ args, RefusesTooDeep arg)
    (hcanonical : ∀ arg ∈ args, arg.Canonical) (hs : (Expr.operandsAtAll args k).head? = some s)
    (hspelled : Expr.SpelledArgs args us) (rest : List Token) :
  StopsTooDeep (arguments (expression (factor k)) (us ++ rest)) s.pos
  := by
  induction args generalizing us with
  | nil => cases hs
  | cons arg args ih =>
    obtain ⟨hfirst, hlater⟩ := List.forall_mem_cons.mp h
    obtain ⟨hfirst', hlater'⟩ := List.forall_mem_cons.mp hcanonical
    rw [Expr.operandsAtAll] at hs
    obtain hs | ⟨hnil, hs⟩ := head?_append_cases hs
    · obtain ⟨vs, behind, rfl, hvs⟩ := hspelled.exists_head
      rw [List.append_assoc]
      obtain ⟨failure, hrun, hcause⟩ := hfirst.joined (Nat.zero_le _) hs hvs (behind ++ rest)
      exact ⟨_, arguments_of_error hrun, hcause⟩
    · -- no operand of the first argument is too deep, so it is read up to the comma
      have hnest : arg.nest ≤ k := (arg.nest_le_iff k).mpr hnil
      cases args with
      | nil => cases hs
      | cons next args =>
        obtain ⟨us, pos, vs, hus, hvs, rfl⟩ := hspelled
        have hrun : (expression (factor k)).run (us ++ ⟨.operator, pos, ","⟩ :: (vs ++ rest))
            = .ok (arg, ⟨.operator, pos, ","⟩ :: (vs ++ rest)) :=
          run_body (readsBack_and_readsOn hfirst').1 hus hfirst' hnest (stops_comma · · pos)
        have hcomma : (⟨.operator, pos, ","⟩ : Token).isOp "," := rfl
        rw [List.append_assoc, List.cons_append, arguments_of_ok hrun, if_pos hcomma]
        exact (ih hlater hlater' hs hvs).bind _

theorem refusesTooDeep_call {pos lparen rparen : Nat} {name : String} {args : List Expr}
    (h : ∀ arg ∈ args, RefusesTooDeep arg) (hcanonical : ∀ arg ∈ args, arg.Canonical) :
  RefusesTooDeep (.call (.ident pos name) lparen args rparen)
  := by
  apply refusesTooDeep_of_inside rfl rfl
  intro k s us rest hs hus
  obtain ⟨_, us, rfl, hus, rfl⟩ := hus
  rw [Expr.operandsAt] at hs
  change StopsTooDeep (called (factor k) (.ident pos name) ⟨.lparen, lparen, "("⟩
    (us ++ [_] ++ rest)) s.pos
  rw [called, List.append_assoc, if_neg]
  · apply (stopsTooDeep_arguments h hcanonical hs hus _).bind
  · cases args with
    | nil => cases hs
    | cons arg args =>
      obtain ⟨t, us, rfl, hstart⟩ := hus.exists_first
      apply hstart.kind_ne (.inl rfl)

theorem refusesTooDeep_unary {opPos : Nat} {sign : Sign} {operand : Expr}
    (h : RefusesTooDeep operand) (hlevel : Operator.exp.level ≤ operand.level) :
  RefusesTooDeep (.unary opPos sign operand)
  := by
  apply refusesTooDeep_of_inside rfl rfl
  intro k s us rest hs hus
  obtain ⟨us, hus, rfl⟩ := hus
  change StopsTooDeep (operandOver (factor k) (⟨.operator, opPos, sign.symbol⟩ :: (us ++ rest)))
    s.pos
  rw [operandOver]
  simp only [Sign.ofSymbol?_eq_some_iff.mpr (rfl : sign.symbol = sign.symbol), signed_eq_joined]
  apply (h.joined hlevel hs hus rest).bind

end

/-- Every canonical expression is refused where it becomes too deep. -/
theorem refusesTooDeep {e : Expr} (h : e.Canonical) :
  RefusesTooDeep e
  := by
  induction h with
  | ident | literal =>
    apply refusesTooDeep_of_inside rfl rfl
    intro k s us rest hs
    cases hs
  | paren hbody ih => exact refusesTooDeep_paren ih
  | index hname hsubscript ih => exact refusesTooDeep_index ih
  | call hname hargs ih => exact refusesTooDeep_call ih hargs
  | unary hoperand hlevel ih => exact refusesTooDeep_unary ih hlevel
  | binary hl hr hle hlt hsigned ihl ihr => exact refusesTooDeep_binary hl hle hlt hsigned ihl ihr

end Parser

open EquationLang.Parser

/-- If the expression of an equation cannot be read, then neither can the equation. -/
theorem equation_of_error {e : Expr} {ts : List Token} {failure : Failure} (h : IsEquation e ts)
    (hrun : (expression (factor maxNesting)).run ts = .error failure) :
  equation ts = .error failure
  := by
  obtain ⟨t, us, rfl, hstart⟩ := h.exists_first
  have hopen : ¬ (lookahead (t :: us)).Closes := hstart.not_closes
  rw [equation_of_not_closes hopen, hrun]
  rfl

/-- An equation without a lexical fault whose expression is too deep has one diagnostic, which is at
the first operand that is too deep. -/
theorem parse_of_tooDeep (name : String) {eqn : String} {e s : Expr}
    (hfaultless : IsFaultless eqn) (hcanonical : e.Canonical)
    (he : IsEquation e (equationTokens eqn))
    (hs : (e.operandsAt maxNesting).head? = some s) :
  ∃ err d, parse name eqn = .error err ∧ err.diagnostics = [d] ∧ d.code = .nestingTooDeep
    ∧ d.pos.offset = s.pos
  := by
  obtain ⟨failure, hequation, hcause, hpos⟩ :
      ∃ failure, equation (equationTokens eqn) = .error failure
        ∧ failure.cause.complaint = .tooDeep ∧ failure.cause.found.pos = s.pos := by
    have ⟨us, semis, last, htokens, hspelled, _⟩ := he
    obtain ⟨failure, hrun, hfound⟩ :=
      (refusesTooDeep hcanonical).joined (Nat.zero_le _) hs hspelled (semis ++ [last])
    rw [← htokens] at hrun
    exact ⟨failure, equation_of_error he hrun, hfound⟩
  obtain ⟨before, t, behind, -, -, hmisfit⟩ := exists_misfit_of_text hequation
  obtain ⟨d, hsorted, hoffset, hd⟩ := hmisfit.sorted eqn (.inl rfl)
  rw [parse_of_error hequation, hfaultless, ite_self]
  refine ⟨_, d, rfl, hsorted, ?_, ?_⟩
  · obtain hd | ⟨-, rfl⟩ := hd
    · cases hd
    · apply Fault.code_of_tooDeep hcause
  · rw [hoffset, ← hmisfit.found failure.cause List.mem_cons_self, hpos]

/-- An equation without a lexical fault is accepted if no operand of its expression has `maxNesting`
operands around it, or more.  Otherwise it has one diagnostic, which is about depth and is placed at
the first token of the first operand that has exactly `maxNesting` operands around it. -/
theorem parse_depth_limit (name : String) {eqn : String} {e : Expr}
    (hfaultless : IsFaultless eqn) (hcanonical : e.Canonical)
    (he : IsEquation e (equationTokens eqn)) :
  ((∀ k, maxNesting ≤ k → e.operandsAt k = []) → parse name eqn = .ok e)
    ∧ ((∃ k, maxNesting ≤ k ∧ e.operandsAt k ≠ []) →
      ∃ err s t us, parse name eqn = .error err ∧ err.codes = [.nestingTooDeep]
        ∧ (∀ d ∈ err.diagnostics, d.pos.offset = t.pos)
        ∧ t :: us <:+: equationTokens eqn ∧ s.Spelled (t :: us)
        ∧ s ∈ e.operandsAt maxNesting
        ∧ ∀ s' ∈ e.operandsAt maxNesting, s' ≠ s → s.stop ≤ s'.pos)
  := by
  constructor
  · intro hnone
    apply parse_eq_ok_iff.mpr
    exact ⟨hfaultless, he, hcanonical, (e.nest_le_iff _).mpr (hnone maxNesting (Nat.le_refl _))⟩
  · rintro ⟨k, hk, hne⟩
    have hdeep : e.operandsAt maxNesting ≠ [] := by
      intro hnil
      apply hne
      apply (e.nest_le_iff k).mp
      apply ((e.nest_le_iff maxNesting).mpr hnil).trans hk
    obtain ⟨s, others, hs⟩ := List.exists_cons_of_ne_nil hdeep
    obtain ⟨err, d, hparse, hd, hcode, hoffset⟩ :=
      parse_of_tooDeep name hfaultless hcanonical he (by rw [hs, List.head?_cons])
    have hmem : s ∈ e.operandsAt maxNesting := by simp [hs]
    obtain ⟨us, semis, last, htokens, hspelled, -⟩ := he
    obtain ⟨before, vs, behind, rfl, hvs⟩ :=
      hspelled.exists_node (Expr.nodeOf_of_mem_operandsAt hmem)
    obtain ⟨t, vs, rfl, -, hpos⟩ := hvs.exists_first
    have hplace := inPlace_equationTokens eqn
    rw [htokens] at hplace
    have hordered := hspelled.ordered hplace.left
    refine ⟨err, s, t, vs, hparse, ?_, ?_, ?_, hvs, hmem, ?_⟩
    · rw [ParseError.codes, hd, List.map_singleton, hcode]
    · intro d' hd'
      rw [hd] at hd'
      rw [List.mem_singleton.mp hd', hoffset, hpos]
    · rw [htokens]
      exact ⟨before, behind ++ (semis ++ [last]), by simp⟩
    · intro s' hs' hne'
      have hpairwise := hordered.pairwise_operandsAt maxNesting
      rw [hs] at hpairwise hs'
      obtain rfl | hs' := List.mem_cons.mp hs'
      · exact absurd rfl hne'
      · exact (List.pairwise_cons.mp hpairwise).1 s' hs'

/-- The operand after as many signs as may be open is refused. -/
theorem parse_depth_limit_signs :
  ∃ eqn err, eqn = String.ofList (List.replicate 100 '-' ++ ['a'])
    ∧ parse "y" eqn = .error err ∧ err.codes = [.nestingTooDeep]
    ∧ ∀ d ∈ err.diagnostics, d.pos.offset = 100
  := by
  generalize heqn : String.ofList (List.replicate 100 '-' ++ ['a']) = eqn
  generalize he : (List.range 100).foldr (fun opPos e => .unary opPos .negative e)
    (Expr.ident 100 "a") = e
  have hfaultless : IsFaultless eqn := by
    rw [← heqn, IsFaultless]
    decide +kernel
  have hrun : (expression (factor 101)).run (equationTokens eqn)
      = .ok (e, [⟨.semi, 101, ";"⟩, .endOfText 102]) := by
    rw [← heqn, ← he]
    decide +kernel
  have hdeep : e.operandsAt maxNesting = [.ident 100 "a"] := by
    rw [← he]
    decide +kernel
  obtain ⟨us, hus, hreading⟩ :=
    sound_joined (Nat.zero_le _) 101 _ _ _ isProper_of_mem_equationTokens hrun
  have hequation : IsEquation e (equationTokens eqn) := by
    use us, [⟨.semi, 101, ";"⟩], .endOfText 102, hus, hreading.spelled
    simp [Token.endOfText]
  obtain ⟨err, s, t, vs, hparse, hcodes, hoffset, -, hspelled, hs, -⟩ :=
    (parse_depth_limit "y" hfaultless hreading.canonical hequation).2
      ⟨maxNesting, Nat.le_refl _, by simp [hdeep]⟩
  rw [hdeep] at hs
  obtain rfl := List.mem_singleton.mp hs
  obtain ⟨rfl, -⟩ := List.cons.inj hspelled
  exact ⟨eqn, err, rfl, hparse, hcodes, hoffset⟩

end EquationLang
