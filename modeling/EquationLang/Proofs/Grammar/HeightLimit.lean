import EquationLang.Proofs.Expr.Height
import EquationLang.Proofs.Grammar.TokenRoundTrip

/-!
# The height of what is read

The limit on open operands bounds the height of the expression of an accepted equation only together
with the operators of the equation (`parse_height_le`).  A chain of operators is read in a loop and
joined from the left, so it opens no operands, and there are accepted equations with expressions of
any height (`height_unbounded`).
-/

namespace EquationLang

/-- Tokens have as many operators as their words. -/
theorem countOperators_significant (ts : List Token) :
  Expr.countOperators (significant ts) = ts.countP (·.kind = .operator)
  := by
  rw [Expr.countOperators, significant, List.countP_map, List.countP_filter]
  apply List.countP_congr
  intro t ht
  cases hkind : t.kind <;> simp [Token.lexeme, hkind]

/-- The operands that are open at once and the operators of an accepted equation bound the height of
its expression. -/
theorem parse_height_le {name eqn : String} {e : Expr} (h : parse name eqn = .ok e) :
  e.height ≤ maxNesting + (equationTokens eqn).countP (·.kind = .operator) + 1
  := by
  obtain ⟨-, hequation, hcanonical, hnest⟩ := parse_eq_ok_iff.mp h
  have hheight := hcanonical.height_le
  have hoperators := e.operatorDepth_le
  rw [← hequation.significant_eq, countOperators_significant] at hoperators
  omega

/-- A call in a sum: the name of the call is below its operand. -/
theorem parse_height_le_in_call :
  ∃ e, parse "y" "a+f(-b)" = .ok e ∧ e.height = 4
    ∧ e.height ≤ maxNesting + (equationTokens "a+f(-b)").countP (·.kind = .operator) + 1
  := by
  have hparse : parse "y" "a+f(-b)" = .ok (.binary (.ident 0 "a") 1 .add
      (.call (.ident 2 "f") 3 [.unary 4 .negative (.ident 5 "b")] 6)) := by
    decide +kernel
  exact ⟨_, hparse, by decide, parse_height_le hparse⟩

/-- A sum is accepted, however long it is. -/
theorem exists_parse_sum (name : String) (n : Nat) :
  ∃ e, parse name (Expr.sum "a" n).print = .ok e ∧ e.height = n + 1
  := by
  have hname : IsName "a".toList := by
    have htext : "a".toList = ['a'] := by decide
    rw [htext]
    refine ⟨⟨'a', rfl, rfl, by simp⟩, ?_⟩
    intro c hc
    obtain rfl := List.mem_singleton.mp hc
    rfl
  obtain ⟨hcanonical, hnest⟩ := Expr.canonical_sum hname n
  have hdepth : (Expr.sum "a" n).nest ≤ maxNesting := by
    rw [hnest]
    decide
  obtain ⟨e, hparse, he⟩ := exists_parse_print hcanonical hdepth
  use e, hparse
  rw [Expr.height_eq_of_unplaced_eq he, Expr.height_sum]

/-- No bound holds of the heights of the expressions of all accepted equations. -/
theorem height_unbounded :
  ¬ ∃ bound, ∀ name eqn e, parse name eqn = .ok e → e.height ≤ bound
  := by
  rintro ⟨bound, hbound⟩
  obtain ⟨e, hparse, hheight⟩ := exists_parse_sum "y" bound
  have hle := hbound _ _ _ hparse
  omega

end EquationLang
