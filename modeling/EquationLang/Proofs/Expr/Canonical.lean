import EquationLang.Grammar.Precedence
import EquationLang.Proofs.Expr.Spelling
import EquationLang.Proofs.Token.PieceShape

/-!
# Canonical expressions

The expressions that the grammar prescribes: names and numbers are written as such, callees and
indexed expressions are names, and operators bind as tightly as their levels say (`Expr.Canonical`).
Their depth is the number of operands that are open at once (`Expr.nest`).
-/

namespace EquationLang

/-- The number of the level of an operator in the precedence table. -/
def Operator.level (op : Operator) : Nat := PrecedenceTable.standard.findIdx (op ∈ ·)

/-- The level of operands, which is past the tightest level of operators. -/
abbrev operandLevel : Nat := PrecedenceTable.standard.length

theorem Operator.level_lt (op : Operator) :
  op.level < operandLevel
  := by
  cases op <;> decide

namespace Expr

/-- The level of an expression: that of its operator, or that of operands. -/
def level : Expr → Nat
  | binary _ _ op _ => op.level
  | _ => operandLevel

theorem level_le (e : Expr) :
  e.level ≤ operandLevel
  := by
  cases e with
  | binary _ _ op _ => exact Nat.le_of_lt op.level_lt
  | bad | ident | literal | paren | index | call | unary => exact Nat.le_refl _

/-- Whether the expression is an operand with a sign, or a power of one. -/
def EndsInSigned : Expr → Prop
  | unary .. => True
  | binary _ _ .exp (unary ..) => True
  | _ => False

/-- A power ends in an operand with a sign if that is its right operand. -/
theorem endsInSigned_binary_iff {left right : Expr} {opPos : Nat} {op : Operator}
    (h : op.level < right.level) :
  (binary left opPos op right).EndsInSigned ↔ op = .exp ∧ right.EndsInSigned
  := by
  cases op with
  | exp =>
    cases right with
    | binary _ _ op _ => exact absurd op.level_lt (Nat.not_lt.mpr h)
    | bad | ident | literal | paren | index | call | unary => simp [EndsInSigned]
  | add | sub | mul | div => simp [EndsInSigned]

/-- Whether the last token of the expression is a name. -/
def EndsInName : Expr → Prop
  | ident .. => True
  | unary _ _ operand => operand.EndsInName
  | binary _ _ _ right => right.EndsInName
  | _ => False

/-- The expressions that the grammar prescribes.  The operands of an operator are of a tighter
level, except that the left one may be of the same level; the sign of an operand takes all powers
that follow it. -/
inductive Canonical : Expr → Prop where
  | ident {pos : Nat} {name : String} (hname : IsName name.toList) : Canonical (ident pos name)
  | literal {pos : Nat} {value : String} (hvalue : IsNumeral value.toList) :
    Canonical (literal pos value)
  | paren {lparen rparen : Nat} {body : Expr} (hbody : Canonical body) :
    Canonical (paren lparen body rparen)
  | index {pos lbrack rbrack : Nat} {name : String} {subscript : Expr}
      (hname : IsName name.toList) (hsubscript : Canonical subscript) :
    Canonical (index (.ident pos name) lbrack subscript rbrack)
  | call {pos lparen rparen : Nat} {name : String} {args : List Expr}
      (hname : IsName name.toList) (hargs : ∀ arg ∈ args, Canonical arg) :
    Canonical (call (.ident pos name) lparen args rparen)
  | unary {opPos : Nat} {sign : Sign} {operand : Expr} (hoperand : Canonical operand)
      (hlevel : Operator.exp.level ≤ operand.level) :
    Canonical (unary opPos sign operand)
  | binary {opPos : Nat} {op : Operator} {left right : Expr} (hleft : Canonical left)
      (hright : Canonical right) (hle : op.level ≤ left.level) (hlt : op.level < right.level)
      (hsigned : op = .exp → ¬ left.EndsInSigned) :
    Canonical (binary left opPos op right)

mutual

/-- How many operands are open at once, one inside the other.  The name of a call or of an index is
no operand of its own. -/
def nest : Expr → Nat
  | bad .. | ident .. | literal .. => 1
  | paren _ body _ => body.nest + 1
  | index _ _ subscript _ => subscript.nest + 1
  | call _ _ args _ => nestAll args + 1
  | unary _ _ operand => operand.nest + 1
  | binary left _ _ right => max left.nest right.nest

/-- The depth of the deepest of the expressions. -/
def nestAll : List Expr → Nat
  | [] => 0
  | e :: es => max e.nest (nestAll es)

end

theorem nest_le_nestAll {es : List Expr} {e : Expr} (h : e ∈ es) :
  e.nest ≤ nestAll es
  := by
  induction es with
  | nil => cases h
  | cons first es ih =>
    rw [nestAll]
    obtain rfl | h := List.mem_cons.mp h
    · apply Nat.le_max_left
    · apply (ih h).trans (Nat.le_max_right _ _)

/-! ### Nodes -/

/-- The children of a canonical expression are canonical and no deeper than it. -/
theorem Canonical.child {e c : Expr} (h : e.Canonical) (hc : c ∈ e.children) :
  c.Canonical ∧ c.nest ≤ e.nest
  := by
  cases h with
  | ident | literal => cases hc
  | paren hbody =>
    obtain rfl := List.mem_singleton.mp hc
    exact ⟨hbody, Nat.le_succ _⟩
  | index hname hsubscript =>
    obtain rfl | hc := List.mem_cons.mp hc
    · exact ⟨.ident hname, Nat.succ_le_succ (Nat.zero_le _)⟩
    · obtain rfl := List.mem_singleton.mp hc
      exact ⟨hsubscript, Nat.le_succ _⟩
  | call hname hargs =>
    obtain rfl | hc := List.mem_cons.mp hc
    · exact ⟨.ident hname, Nat.succ_le_succ (Nat.zero_le _)⟩
    · exact ⟨hargs c hc, Nat.le_succ_of_le (nest_le_nestAll hc)⟩
  | unary hoperand =>
    obtain rfl := List.mem_singleton.mp hc
    exact ⟨hoperand, Nat.le_succ _⟩
  | binary hleft hright =>
    obtain rfl | hc := List.mem_cons.mp hc
    · exact ⟨hleft, Nat.le_max_left _ _⟩
    · obtain rfl := List.mem_singleton.mp hc
      exact ⟨hright, Nat.le_max_right _ _⟩

/-- The nodes of a canonical expression are canonical and no deeper than it. -/
theorem Canonical.node {e s : Expr} (h : e.Canonical) (hs : s.NodeOf e) :
  s.Canonical ∧ s.nest ≤ e.nest
  := by
  induction hs with
  | root => exact ⟨h, Nat.le_refl _⟩
  | inside hc _ ih =>
    obtain ⟨hcanonical, hnest⟩ := h.child hc
    obtain ⟨hs, hle⟩ := ih hcanonical
    exact ⟨hs, hle.trans hnest⟩

/-! ### Positions -/

variable (f : Nat → Nat)

theorem level_mapPos (e : Expr) :
  (e.mapPos f).level = e.level
  := by
  cases e <;> rfl

theorem endsInSigned_mapPos (e : Expr) :
  (e.mapPos f).EndsInSigned ↔ e.EndsInSigned
  := by
  cases e with
  | binary left opPos op right => cases op <;> cases right <;> rfl
  | bad | ident | literal | paren | index | call | unary => rfl

mutual

theorem nest_mapPos :
  (e : Expr) → (e.mapPos f).nest = e.nest
  | bad .. | ident .. | literal .. => rfl
  | paren _ body _ => by rw [mapPos, nest, nest, nest_mapPos body]
  | index _ _ subscript _ => by rw [mapPos, nest, nest, nest_mapPos subscript]
  | call _ _ args _ => by rw [mapPos, nest, nest, nestAll_mapPosAll args]
  | unary _ _ operand => by rw [mapPos, nest, nest, nest_mapPos operand]
  | binary left _ _ right => by rw [mapPos, nest, nest, nest_mapPos left, nest_mapPos right]

theorem nestAll_mapPosAll :
  (es : List Expr) → nestAll (mapPosAll f es) = nestAll es
  | [] => rfl
  | e :: es => by rw [mapPosAll, nestAll, nestAll, nest_mapPos e, nestAll_mapPosAll es]

end

theorem level_eq_of_unplaced_eq {e e' : Expr} (h : e'.unplaced = e.unplaced) :
  e'.level = e.level
  := by
  rw [← level_mapPos (fun _ => 0) e', ← level_mapPos (fun _ => 0) e]
  apply congrArg level h

theorem nest_eq_of_unplaced_eq {e e' : Expr} (h : e'.unplaced = e.unplaced) :
  e'.nest = e.nest
  := by
  rw [← nest_mapPos (fun _ => 0) e', ← nest_mapPos (fun _ => 0) e]
  apply congrArg nest h

/-- Whether an expression is canonical does not depend on positions. -/
theorem Canonical.of_unplaced_eq {e e' : Expr} (h : e.Canonical)
    (heq : e'.unplaced = e.unplaced) :
  e'.Canonical
  := by
  induction h generalizing e' with
  | ident hname =>
    cases e' <;> cases heq
    exact .ident hname
  | literal hvalue =>
    cases e' <;> cases heq
    exact .literal hvalue
  | paren _ ih =>
    cases e' <;> injection heq
    next hbody _ => exact .paren (ih hbody)
  | index hname _ ih =>
    cases e' <;> injection heq
    next base _ _ _ hbase _ hsubscript _ =>
    cases base <;> cases hbase
    exact .index hname (ih hsubscript)
  | call hname _ ih =>
    cases e' <;> injection heq
    next callee _ _ _ hcallee _ hargs _ =>
    cases callee <;> cases hcallee
    apply Canonical.call hname
    intro arg harg
    rw [mapPosAll_eq_map, mapPosAll_eq_map] at hargs
    obtain ⟨arg', harg', heq⟩ := List.mem_map.mp (hargs ▸ List.mem_map_of_mem harg)
    apply ih arg' harg' heq.symm
  | unary _ hlevel ih =>
    cases e' <;> injection heq
    next _ hsign hoperand =>
    apply Canonical.unary (ih hoperand)
    rw [level_eq_of_unplaced_eq hoperand]
    exact hlevel
  | binary _ _ hle hlt hsigned ihl ihr =>
    cases e' <;> injection heq
    next hleft _ hop hright =>
    subst hop
    apply Canonical.binary (ihl hleft) (ihr hright)
    · rw [level_eq_of_unplaced_eq hleft]
      exact hle
    · rw [level_eq_of_unplaced_eq hright]
      exact hlt
    · intro hexp
      rw [← endsInSigned_mapPos (fun _ => 0), show _ = _ from hleft, endsInSigned_mapPos]
      apply hsigned hexp

end Expr

end EquationLang
