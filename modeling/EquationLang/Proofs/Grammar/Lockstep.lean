import EquationLang.Proofs.Grammar.Acceptance
import EquationLang.Proofs.Grammar.Failure

/-!
# Tokens that are read in step

A reading looks at kinds and texts, stores positions, and never goes on with a token that ends a
statement or the text.  So two lists of tokens that have the same kinds and texts up to such a token
are read in step: both readings succeed, with the same result but for positions, or both fail with
the same complaint, and what is left of the lists is again related in this way
(`Parser.SameEnding`).  This holds for each relation between lists of tokens that is kept when their
first tokens are taken (`Parser.InStep`).
-/

namespace EquationLang

namespace Parser

/-- Lists of tokens that are related by `r` both have a token that closes in front, or their first
tokens are the same but for the position, which is moved by `f`, and the tokens after these are
related too. -/
def InStep (f : Nat → Nat) (r : List Token → List Token → Prop) : Prop :=
  ∀ ts ts', r ts ts' → (lookahead ts).Closes ∧ (lookahead ts').Closes
    ∨ ∃ t us us', ts = t :: us ∧ ts' = t.mapPos f :: us' ∧ r us us'

/-- Two readings end in the same way: `g` takes the result of the first one to that of the second
one, or they have the same complaint about the first of the tokens that are left.  The tokens that
are left are related by `r`. -/
inductive SameEnding {α : Type} (g : α → α) (r : List Token → List Token → Prop) :
    Except Failure (α × List Token) → Except Failure (α × List Token) → Prop where
  | ok {a : α} {rest rest' : List Token} (h : r rest rest') :
    SameEnding g r (.ok (a, rest)) (.ok (g a, rest'))
  | error {complaint : Complaint} {contexts contexts' : List Fault} {rest rest' : List Token}
      (h : r rest rest') :
    SameEnding g r (.error ⟨⟨complaint, lookahead rest⟩, contexts, rest⟩)
      (.error ⟨⟨complaint, lookahead rest'⟩, contexts', rest'⟩)

section

variable {α β : Type} {f : Nat → Nat} {r : List Token → List Token → Prop} {ts ts' : List Token}

/-- What is done after readings that end in the same way. -/
theorem SameEnding.bind {g : α → α} {g' : β → β} {x x' : Except Failure (α × List Token)}
    {k k' : α × List Token → Except Failure (β × List Token)} (h : SameEnding g r x x')
    (hk : ∀ a rest rest', x = .ok (a, rest) → r rest rest' →
      SameEnding g' r (k (a, rest)) (k' (g a, rest'))) :
  SameEnding g' r (x >>= k) (x' >>= k')
  := by
  cases h with
  | ok hrest => exact hk _ _ _ rfl hrest
  | error hrest => exact .error hrest

/-- What the constructs around a failure add makes no difference. -/
theorem SameEnding.within {g : α → α} {x x' : Except Failure (α × List Token)}
    (h : SameEnding g r x x') (complaint : Complaint) :
  SameEnding g r (x.mapError (·.within complaint)) (x'.mapError (·.within complaint))
  := by
  cases h with
  | ok hrest => exact .ok hrest
  | error hrest => exact .error hrest

/-! ### Tokens that close -/

theorem expect_of_closes {kind : Token.Kind} (hkind : kind ≠ .semi ∧ kind ≠ .eof)
    (complaint : Complaint) (h : (lookahead ts).Closes) :
  expect kind complaint ts = refuse complaint ts
  := by
  cases ts with
  | nil => rfl
  | cons t ts => exact if_neg (h.kind_ne hkind)

theorem chainFrom_of_closes (ops : List Operator) (operand : Parser Expr) (left : Expr)
    (h : (lookahead ts).Closes) :
  chainFrom ops operand left ts = .ok (left, ts)
  := by
  cases ts with
  | nil => rw [chainFrom]
  | cons t ts =>
    have hop : operatorOf? ops t = none := if_neg (h.kind_ne (by simp))
    rw [chainFrom, hop]

theorem named_of_closes (operand : Parser Expr) (name : Token) (h : (lookahead ts).Closes) :
  named operand name ts = .ok (.ident name.pos name.text, ts)
  := by
  cases ts with
  | nil => rfl
  | cons t ts =>
    rw [named]
    split
    · next hkind => exact absurd hkind (h.kind_ne (by simp))
    · next hkind => exact absurd hkind (h.kind_ne (by simp))
    · rfl

theorem operandOver_of_closes (operand : Parser Expr) (h : (lookahead ts).Closes) :
  operandOver operand ts = refuse .noOperand ts
  := by
  cases ts with
  | nil => rfl
  | cons t ts =>
    rw [operandOver]
    split
    · next hkind => exact absurd hkind (h.kind_ne (by simp))
    · next hkind => exact absurd hkind (h.kind_ne (by simp))
    · next hkind => exact absurd hkind (h.kind_ne (by simp))
    · next hkind => exact absurd hkind (h.kind_ne (by simp))
    · rfl

/-! ### Operators -/

/-- Related tokens are read in step. -/
def ReadsInStep (f : Nat → Nat) (r : List Token → List Token → Prop) (operand : Parser Expr) :
    Prop :=
  ∀ ts ts', r ts ts' → SameEnding (Expr.mapPos f) r (operand.run ts) (operand.run ts')

variable (hr : InStep f r)

include hr

theorem sameEnding_expect {kind : Token.Kind} (hkind : kind ≠ .semi ∧ kind ≠ .eof)
    (complaint : Complaint) (h : r ts ts') :
  SameEnding (Token.mapPos f) r (expect kind complaint ts) (expect kind complaint ts')
  := by
  obtain ⟨hts, hts'⟩ | ⟨t, us, us', rfl, rfl, hus⟩ := hr ts ts' h
  · rw [expect_of_closes hkind complaint hts, expect_of_closes hkind complaint hts']
    exact .error h
  · rw [expect, expect, Token.mapPos]
    split
    · exact .ok hus
    · exact .error h

theorem ReadsInStep.chainFrom {operand : Parser Expr} (hoperand : ReadsInStep f r operand)
    (ops : List Operator) (left : Expr) (h : r ts ts') :
  SameEnding (Expr.mapPos f) r (chainFrom ops operand left ts)
    (chainFrom ops operand (left.mapPos f) ts')
  := by
  induction hn : ts.length using Nat.strong_induction_on generalizing left ts ts' with
  | h n ih =>
    subst hn
    obtain ⟨hts, hts'⟩ | ⟨t, us, us', rfl, rfl, hus⟩ := hr ts ts' h
    · rw [chainFrom_of_closes ops operand left hts, chainFrom_of_closes ops operand _ hts']
      exact .ok h
    have hsame : operatorOf? ops (t.mapPos f) = operatorOf? ops t := rfl
    cases hop : operatorOf? ops t with
    | none =>
      rw [Parser.chainFrom, Parser.chainFrom, hsame, hop]
      exact .ok h
    | some op =>
      rw [chainFrom_cons hop, chainFrom_cons (hsame.trans hop)]
      apply (hoperand us us' hus).bind
      intro right rest rest' hright hrest
      have hlength := operand.progress hright
      exact ih rest.length (by simp only [List.length_cons]; omega) _ hrest rfl

theorem ReadsInStep.levels {operand : Parser Expr} (hoperand : ReadsInStep f r operand)
    (levels : List (List Operator)) :
  ReadsInStep f r (levels.foldr chain operand)
  := by
  induction levels with
  | nil => exact hoperand
  | cons ops levels ih =>
    intro ts ts' h
    apply (ih ts ts' h).bind
    intro left rest rest' _ hrest
    exact ReadsInStep.chainFrom hr ih ops left hrest

/-! ### Operands -/

variable {operand : Parser Expr} (hoperand : ReadsInStep f r operand)

include hoperand

theorem ReadsInStep.enclosed {kind : Token.Kind} (hkind : kind ≠ .semi ∧ kind ≠ .eof)
    (complaint : Complaint) {node node' : Expr → Token → Expr}
    (hnode : ∀ body closing,
      node' (body.mapPos f) (closing.mapPos f) = (node body closing).mapPos f)
    (h : r ts ts') :
  SameEnding (Expr.mapPos f) r (enclosed kind complaint node operand ts)
    (enclosed kind complaint node' operand ts')
  := by
  apply (hoperand.levels hr _ ts ts' h).bind
  intro body rest rest' _ hrest
  apply (sameEnding_expect hr hkind complaint hrest).bind
  intro closing rest rest' _ hrest
  change SameEnding _ r (.ok (node body closing, rest)) (.ok (node' _ _, rest'))
  rw [hnode]
  exact .ok hrest

theorem ReadsInStep.arguments (h : r ts ts') :
  SameEnding (Prod.map (Expr.mapPosAll f) (Token.mapPos f)) r (arguments operand ts)
    (arguments operand ts')
  := by
  induction hn : ts.length using Nat.strong_induction_on generalizing ts ts' with
  | h n ih =>
    subst hn
    rw [arguments_eq, arguments_eq]
    apply ((hoperand ts ts' h).within .badArgument).bind
    intro e rest rest' hread hrest
    have hlength : rest.length < ts.length := by
      apply operand.progress (a := e)
      cases hrun : operand.run ts <;> simp_all [Except.mapError]
    have hcomma : (lookahead rest').isOp "," = (lookahead rest).isOp ","
        ∧ ((lookahead rest).isOp "," → r rest.tail rest'.tail) := by
      obtain ⟨hclosed, hclosed'⟩ | ⟨t, us, us', rfl, rfl, hus⟩ := hr rest rest' hrest
      · simp [Token.isOp, hclosed.kind_ne, hclosed'.kind_ne]
      · exact ⟨rfl, fun _ => hus⟩
    dsimp only
    rw [hcomma.1]
    split
    · next hop =>
      have htail : rest.tail.length < ts.length := by
        rw [List.length_tail]
        omega
      apply (ih _ htail (hcomma.2 hop) rfl).bind
      rintro ⟨es, closing⟩ rest rest' - hrest
      exact .ok hrest
    · apply (sameEnding_expect hr (by simp) .noArgumentEnd hrest).bind
      intro closing rest rest' _ hrest
      exact .ok hrest

theorem ReadsInStep.called (callee : Expr) (opening : Token) (h : r ts ts') :
  SameEnding (Expr.mapPos f) r (called operand callee opening ts)
    (called operand (callee.mapPos f) (opening.mapPos f) ts')
  := by
  have hargs := ReadsInStep.arguments hr (hoperand.levels hr PrecedenceTable.standard) h
  rw [Parser.called, Parser.called]
  obtain ⟨hclosed, hclosed'⟩ | ⟨t, us, us', rfl, rfl, hus⟩ := hr ts ts' h
  · rw [if_neg (hclosed.kind_ne (by simp)), if_neg (hclosed'.kind_ne (by simp))]
    apply hargs.bind
    rintro ⟨args, closing⟩ rest rest' - hrest
    exact .ok hrest
  · have hkind : (lookahead (t.mapPos f :: us')).kind = (lookahead (t :: us)).kind := rfl
    rw [hkind]
    split
    · exact .ok hus
    · apply hargs.bind
      rintro ⟨args, closing⟩ rest rest' - hrest
      exact .ok hrest

theorem ReadsInStep.named (name : Token) (h : r ts ts') :
  SameEnding (Expr.mapPos f) r (named operand name ts) (named operand (name.mapPos f) ts')
  := by
  obtain ⟨hclosed, hclosed'⟩ | ⟨t, us, us', rfl, rfl, hus⟩ := hr ts ts' h
  · rw [named_of_closes operand name hclosed, named_of_closes operand _ hclosed']
    exact .ok h
  · rw [Parser.named, Parser.named, Token.mapPos]
    dsimp only
    split
    · apply ReadsInStep.called hr hoperand (.ident name.pos name.text) t hus
    · rw [subscripted_eq_enclosed, subscripted_eq_enclosed]
      apply ReadsInStep.enclosed hr hoperand (by simp) _ _ hus
      intro subscript closing
      rfl
    · exact .ok h

theorem ReadsInStep.operandOver (h : r ts ts') :
  SameEnding (Expr.mapPos f) r (operandOver operand ts) (operandOver operand ts')
  := by
  obtain ⟨hclosed, hclosed'⟩ | ⟨t, us, us', rfl, rfl, hus⟩ := hr ts ts' h
  · rw [operandOver_of_closes operand hclosed, operandOver_of_closes operand hclosed']
    exact .error h
  · rw [Parser.operandOver, Parser.operandOver, Token.mapPos]
    dsimp only
    split
    · rw [parenthesized_eq_enclosed, parenthesized_eq_enclosed]
      apply ReadsInStep.enclosed hr hoperand (by simp) _ _ hus
      intro body closing
      rfl
    · exact .ok hus
    · apply ReadsInStep.named hr hoperand t hus
    · split
      · apply (hoperand.levels hr [PrecedenceTable.standard.tightest] us us' hus).bind
        intro e rest rest' _ hrest
        exact .ok hrest
      · exact .error h
    · exact .error h

end

/-- Operands are read in step. -/
theorem readsInStep_factor {f : Nat → Nat} {r : List Token → List Token → Prop}
    (hr : InStep f r) :
  ∀ n : Nat, ReadsInStep f r (factor n)
  | 0 => fun _ _ h => .error h
  | n + 1 => fun _ _ h => (readsInStep_factor hr n).operandOver hr h

/-- Expressions are read in step. -/
theorem readsInStep_expression {f : Nat → Nat} {r : List Token → List Token → Prop}
    (hr : InStep f r) (n : Nat) :
  ReadsInStep f r (expression (factor n))
  := (readsInStep_factor hr n).levels hr PrecedenceTable.standard

end Parser

open EquationLang.Parser

/-! ### Equations -/

/-- Two readings of equations end in the same way: the expressions are the same but for positions,
which `f` takes to each other, or they have the same complaint about the first of the tokens that
are left, which are related by `r`. -/
inductive SameVerdict (f : Nat → Nat) (r : List Token → List Token → Prop) :
    Except Failure Expr → Except Failure Expr → Prop where
  | ok (e : Expr) : SameVerdict f r (.ok e) (.ok (e.mapPos f))
  | error {complaint : Complaint} {contexts contexts' : List Fault} {rest rest' : List Token}
      (h : r rest rest') :
    SameVerdict f r (.error ⟨⟨complaint, lookahead rest⟩, contexts, rest⟩)
      (.error ⟨⟨complaint, lookahead rest'⟩, contexts', rest'⟩)

section

variable {f : Nat → Nat} {r : List Token → List Token → Prop}

theorem SameVerdict.eq_of_ok {e : Expr} {x : Except Failure Expr}
    (h : SameVerdict f r (.ok e) x) :
  x = .ok (e.mapPos f)
  := by
  cases h with
  | ok => rfl

theorem SameVerdict.exists_of_ok {e : Expr} {x : Except Failure Expr}
    (h : SameVerdict f r x (.ok e)) :
  ∃ e', x = .ok e' ∧ e = e'.mapPos f
  := by
  generalize hy : Except.ok e = y at h
  cases h with
  | ok e' => exact ⟨e', rfl, Except.ok.inj hy⟩
  | error => cases hy

/-- Both readings fail or none. -/
theorem SameVerdict.exists_error_iff {x x' : Except Failure Expr} (h : SameVerdict f r x x') :
  (∃ failure, x = .error failure) ↔ ∃ failure, x' = .error failure
  := by
  cases h with
  | ok => simp
  | error => simp

end

/-- Equations are read in step if the kinds of all tokens are the same and terminators are skipped
in step. -/
theorem equation_inStep {f : Nat → Nat} {r : List Token → List Token → Prop} (hr : InStep f r)
    (hkind : ∀ ts ts', r ts ts' → (lookahead ts').kind = (lookahead ts).kind)
    (hdrop : ∀ ts ts', r ts ts' →
      r (ts.dropWhile (·.kind = .semi)) (ts'.dropWhile (·.kind = .semi)))
    {ts ts' : List Token} (h : r ts ts') :
  SameVerdict f r (equation ts) (equation ts')
  := by
  have hcloses : (lookahead ts').Closes ↔ (lookahead ts).Closes := by
    rw [Token.Closes, hkind ts ts' h, Token.Closes]
  by_cases hclosed : (lookahead ts).Closes
  · rw [equation_of_closes hclosed, equation_of_closes (hcloses.mpr hclosed)]
    exact .error h
  rw [equation_of_not_closes hclosed, equation_of_not_closes (mt hcloses.mp hclosed)]
  have hexpression := readsInStep_expression hr maxNesting ts ts' h
  generalize (expression (factor maxNesting)).run ts = x,
    (expression (factor maxNesting)).run ts' = x' at hexpression
  cases hexpression with
  | error hrest => exact .error hrest
  | @ok e rest rest' hrest =>
    change SameVerdict f r (ending e rest) (ending (e.mapPos f) rest')
    rw [ending, ending, hkind _ _ hrest, hkind _ _ (hdrop _ _ hrest)]
    split
    · split
      · exact .ok e
      · exact .error (hdrop _ _ hrest)
    · exact .error hrest
    · exact .error hrest

/-- Reading an equation commutes with a map of the tokens that keeps their kinds and, unless they
end a statement or the text, changes nothing but positions. -/
theorem equation_map {f : Nat → Nat} {g : Token → Token} (hkind : ∀ t, (g t).kind = t.kind)
    (hpos : ∀ t, ¬ t.Closes → g t = t.mapPos f) (ts : List Token) :
  SameVerdict f (fun us us' => us' = us.map g) (equation ts) (equation (ts.map g))
  := by
  apply equation_inStep (r := fun us us' => us' = us.map g) _ _ _ rfl
  · rintro us _ rfl
    cases us with
    | nil => exact .inl ⟨.inr rfl, .inr rfl⟩
    | cons t us =>
      by_cases hclosed : t.Closes
      · left
        use hclosed
        change (g t).kind = .semi ∨ (g t).kind = .eof
        rw [hkind]
        exact hclosed
      · right
        use t, us, us.map g, rfl
        rw [← hpos t hclosed]
        exact ⟨rfl, rfl⟩
  · rintro us _ rfl
    cases us with
    | nil => rfl
    | cons t us => exact hkind t
  · rintro us _ rfl
    rw [List.dropWhile_map]
    simp only [Function.comp_def, hkind]

end EquationLang
