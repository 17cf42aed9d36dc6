import EquationLang.Proofs.Expr.Canonical
import EquationLang.Proofs.Expr.Lexemes

/-!
# The height of expressions

The height of an expression is the number of nodes on the longest path from its root to a leaf
(`Expr.height`), which is how deep a recursion on the expression goes.  The operands that are open
at once and the operators that stand inside one another account for all nodes of a path
(`Expr.Canonical.height_le`).  Operators that are chained stand inside one another, so there is no
bound on the height that depends on the open operands only (`Expr.height_sum`).
-/

namespace EquationLang.Expr

mutual

/-- The number of nodes on the longest path from the root to a leaf. -/
def height : Expr → Nat
  | bad .. | ident .. | literal .. => 1
  | paren _ body _ => body.height + 1
  | index base _ subscript _ => max base.height subscript.height + 1
  | call callee _ args _ => max callee.height (heightAll args) + 1
  | unary _ _ operand => operand.height + 1
  | binary left _ _ right => max left.height right.height + 1

/-- The height of the highest of the expressions. -/
def heightAll : List Expr → Nat
  | [] => 0
  | e :: es => max e.height (heightAll es)

end

mutual

/-- The greatest number of operators that stand one inside the other. -/
def operatorDepth : Expr → Nat
  | bad .. | ident .. | literal .. => 0
  | paren _ body _ => body.operatorDepth
  | index base _ subscript _ => max base.operatorDepth subscript.operatorDepth
  | call callee _ args _ => max callee.operatorDepth (operatorDepthAll args)
  | unary _ _ operand => operand.operatorDepth
  | binary left _ _ right => max left.operatorDepth right.operatorDepth + 1

/-- The greatest number of operators that stand one inside the other in one of the expressions. -/
def operatorDepthAll : List Expr → Nat
  | [] => 0
  | e :: es => max e.operatorDepth (operatorDepthAll es)

end

theorem heightAll_le {es : List Expr}
    (h : ∀ e ∈ es, e.height ≤ e.nest + e.operatorDepth + 1) :
  heightAll es ≤ nestAll es + operatorDepthAll es + 1
  := by
  induction es with
  | nil => exact Nat.zero_le _
  | cons e es ih =>
    obtain ⟨he, hes⟩ := List.forall_mem_cons.mp h
    have := ih hes
    rw [heightAll, nestAll, operatorDepthAll]
    omega

/-- A path goes through operands that are open at once, through operators that stand one inside the
other, and it may end with the name of a call or of an index. -/
theorem Canonical.height_le {e : Expr} (h : e.Canonical) :
  e.height ≤ e.nest + e.operatorDepth + 1
  := by
  induction h with
  | ident | literal => exact Nat.succ_le_succ (Nat.zero_le _)
  | paren _ ih =>
    rw [height, nest, operatorDepth]
    omega
  | index _ _ ih =>
    rw [height, nest, operatorDepth, height, operatorDepth]
    omega
  | call _ _ ih =>
    have := heightAll_le ih
    rw [height, nest, operatorDepth, height, operatorDepth]
    omega
  | unary _ _ ih =>
    rw [height, nest, operatorDepth]
    omega
  | binary _ _ _ _ _ ihl ihr =>
    rw [height, nest, operatorDepth]
    omega

/-! ### Operators as they are written -/

/-- How many of the words are operators or commas. -/
def countOperators (words : List (Token.Kind × String)) : Nat := words.countP (·.1 = .operator)

mutual

/-- An operator of an expression is one of its words. -/
theorem operatorDepth_le :
  (e : Expr) → e.operatorDepth ≤ countOperators e.lexemes
  | bad .. | ident .. | literal .. => Nat.zero_le _
  | paren _ body _ => by
      have := operatorDepth_le body
      rw [operatorDepth, lexemes, countOperators, List.countP_cons, List.countP_append]
      exact this.trans ((Nat.le_add_right _ _).trans (Nat.le_add_right _ _))
  | index base _ subscript _ => by
      have hbase := operatorDepth_le base
      have hsubscript := operatorDepth_le subscript
      rw [operatorDepth, lexemes, countOperators, List.countP_append, List.countP_cons,
        List.countP_append]
      rw [countOperators] at hbase hsubscript
      omega
  | call callee _ args _ => by
      have hcallee := operatorDepth_le callee
      have hargs := operatorDepthAll_le args
      rw [operatorDepth, lexemes, countOperators, List.countP_append, List.countP_cons,
        List.countP_append]
      rw [countOperators] at hcallee hargs
      omega
  | unary _ _ operand => by
      have := operatorDepth_le operand
      rw [operatorDepth, lexemes, countOperators, List.countP_cons]
      exact this.trans (Nat.le_add_right _ _)
  | binary left _ _ right => by
      have hleft := operatorDepth_le left
      have hright := operatorDepth_le right
      rw [operatorDepth, lexemes, countOperators, List.countP_append, List.countP_cons]
      rw [countOperators] at hleft hright
      simp only [decide_true, if_true]
      omega

theorem operatorDepthAll_le :
  (es : List Expr) → operatorDepthAll es ≤ countOperators (lexemesArgs es)
  | [] => Nat.zero_le _
  | [e] => by
      rw [operatorDepthAll, operatorDepthAll, Nat.max_zero]
      apply operatorDepth_le
  | e :: next :: es => by
      have he := operatorDepth_le e
      have hes := operatorDepthAll_le (next :: es)
      rw [operatorDepthAll, lexemesArgs, countOperators, List.countP_append, List.countP_cons]
      rw [countOperators] at he hes
      omega

end

/-! ### Positions -/

mutual

theorem height_mapPos (f : Nat → Nat) :
  (e : Expr) → (e.mapPos f).height = e.height
  | bad .. | ident .. | literal .. => rfl
  | paren _ body _ => by rw [mapPos, height, height, height_mapPos f body]
  | index base _ subscript _ => by
      rw [mapPos, height, height, height_mapPos f base, height_mapPos f subscript]
  | call callee _ args _ => by
      rw [mapPos, height, height, height_mapPos f callee, heightAll_mapPosAll f args]
  | unary _ _ operand => by rw [mapPos, height, height, height_mapPos f operand]
  | binary left _ _ right => by
      rw [mapPos, height, height, height_mapPos f left, height_mapPos f right]

theorem heightAll_mapPosAll (f : Nat → Nat) :
  (es : List Expr) → heightAll (mapPosAll f es) = heightAll es
  | [] => rfl
  | e :: es => by
      rw [mapPosAll, heightAll, heightAll, height_mapPos f e, heightAll_mapPosAll f es]

end

theorem height_eq_of_unplaced_eq {e e' : Expr} (h : e'.unplaced = e.unplaced) :
  e'.height = e.height
  := by
  rw [← height_mapPos (fun _ => 0) e', ← height_mapPos (fun _ => 0) e]
  apply congrArg height h

/-! ### Chains of operators -/

/-- The sum of the variable `name` and of `n` more of them. -/
def sum (name : String) : Nat → Expr
  | 0 => ident 0 name
  | n + 1 => binary (sum name n) 0 .add (ident 0 name)

/-- A sum is canonical, and no operand in it has another one around it. -/
theorem canonical_sum {name : String} (h : IsName name.toList) (n : Nat) :
  (sum name n).Canonical ∧ (sum name n).nest = 1
  := by
  induction n with
  | zero => exact ⟨.ident h, rfl⟩
  | succ n ih =>
    have hlevel : Operator.add.level = 0 := by decide
    constructor
    · apply Canonical.binary ih.1 (.ident h)
      · rw [hlevel]
        exact Nat.zero_le _
      · exact Operator.level_lt .add
      · intro hexp
        cases hexp
    · rw [sum, nest, ih.2, nest, Nat.max_self]

/-- Each summand makes a sum higher. -/
theorem height_sum (name : String) (n : Nat) :
  (sum name n).height = n + 1
  := by
  induction n with
  | zero => rfl
  | succ n ih =>
    rw [sum, height, ih, height]
    omega

end EquationLang.Expr
