import EquationLang.Dependency.References
import Mathlib.Data.List.Pairwise
import Mathlib.Tactic.Common

/-!
# The variables of an expression

The walk for references keeps track of the calls it passes (`ReferenceWalk.visit`).  What it finds
can be told from the structure of the expression alone: all names but those that are called
(`Expr.variableNames`, `Expr.inspect_visit`).  Their canonical names are kept in increasing order,
each once.
-/

namespace EquationLang

namespace Expr

mutual

/-- The names in the expression that are not called, in the order in which they are written. -/
def variableNames : Expr → List String
  | bad .. | literal .. => []
  | ident _ name => [name]
  | paren _ body _ => body.variableNames
  | index base _ subscript _ => base.variableNames ++ subscript.variableNames
  | call callee _ args _ =>
    (match callee with
      | ident .. => []
      | _ => callee.variableNames) ++ variableNamesAll args
  | unary _ _ operand => operand.variableNames
  | binary left _ _ right => left.variableNames ++ right.variableNames

/-- The names in the expressions that are not called. -/
def variableNamesAll : List Expr → List String
  | [] => []
  | e :: es => e.variableNames ++ variableNamesAll es

end

/-- The names in a callee that are not called: a callee that is a name has none. -/
def calleeVariableNames : Expr → List String
  | ident .. => []
  | e => e.variableNames

theorem variableNames_call (callee : Expr) (lparen : Nat) (args : List Expr) (rparen : Nat) :
  (call callee lparen args rparen).variableNames
    = callee.calleeVariableNames ++ variableNamesAll args
  := by
  cases callee <;> rfl

mutual

/-- The walk finds the variables of an expression, and those of a callee if a call has just been
visited. -/
theorem inspect_visit :
  ∀ (w : ReferenceWalk) (e : Expr), e.inspect ReferenceWalk.visit w
    = ⟨false, (if w.calleeNext then e.calleeVariableNames else e.variableNames).reverse ++ w.found⟩
  | w, bad .. | w, literal .. => by
      simp only [calleeVariableNames, variableNames, ite_self]
      rfl
  | ⟨false, _⟩, ident .. | ⟨true, _⟩, ident .. => rfl
  | w, paren _ body _ => by
      change body.inspect ReferenceWalk.visit ⟨false, w.found⟩ = _
      simp [inspect_visit, calleeVariableNames, variableNames]
  | w, index base _ subscript _ => by
      change subscript.inspect ReferenceWalk.visit
        (base.inspect ReferenceWalk.visit ⟨false, w.found⟩) = _
      simp [inspect_visit, calleeVariableNames, variableNames]
  | w, call callee _ args _ => by
      change inspectAll ReferenceWalk.visit
        (callee.inspect ReferenceWalk.visit ⟨true, w.found⟩) args = _
      simp [inspect_visit, inspectAll_visit, calleeVariableNames, variableNames_call]
  | w, unary _ _ operand => by
      change operand.inspect ReferenceWalk.visit ⟨false, w.found⟩ = _
      simp [inspect_visit, calleeVariableNames, variableNames]
  | w, binary left _ _ right => by
      change right.inspect ReferenceWalk.visit
        (left.inspect ReferenceWalk.visit ⟨false, w.found⟩) = _
      simp [inspect_visit, calleeVariableNames, variableNames]

theorem inspectAll_visit :
  ∀ (found : List String) (es : List Expr),
    inspectAll ReferenceWalk.visit ⟨false, found⟩ es
      = ⟨false, (variableNamesAll es).reverse ++ found⟩
  | _, [] => rfl
  | found, e :: es => by
      rw [inspectAll, inspect_visit, inspectAll_visit]
      simp [variableNamesAll]

end

theorem references_eq_variableNames (e : Expr) :
  e.references = e.variableNames
  := by
  rw [references, inspect_visit]
  simp

theorem variableNamesAll_eq_flatMap (es : List Expr) :
  variableNamesAll es = es.flatMap references
  := by
  induction es with
  | nil => rfl
  | cons e es ih => rw [variableNamesAll, ih, List.flatMap_cons, references_eq_variableNames]

/-- The references of an expression are the names in it that are not called.  They are those of its
children one after the other, but for a callee that is a name, whatever else is called. -/
theorem references_follow_structure (e : Expr) :
  e.references = e.variableNames
    ∧ e.references = match e with
      | bad .. | literal .. => []
      | ident _ name => [name]
      | call (ident ..) _ args _ => args.flatMap references
      | call callee _ args _ => callee.references ++ args.flatMap references
      | e => e.children.flatMap references
  := by
  use references_eq_variableNames e
  rw [references_eq_variableNames]
  cases e with
  | bad | literal | ident => rfl
  | call callee lparen args rparen =>
    rw [variableNames_call, variableNamesAll_eq_flatMap]
    cases callee with
    | ident => rfl
    | bad | literal | paren | index | call | unary | binary =>
      exact congrArg (· ++ args.flatMap references) (references_eq_variableNames _).symm
  | paren | unary | index | binary =>
    simp [variableNames, children, references_eq_variableNames]

/-- A name behind a call without arguments is a reference, and so is a called name in parens. -/
example :
    (call (call (ident 0 "f") 1 [] 2) 3 [call (paren 4 (ident 5 "g") 6) 7 [] 8, ident 10 "x"] 11
      ).references = ["g", "x"]
  := rfl

end Expr

/-! ### Sets of names -/

theorem mem_insertName {name n : String} {names : List String} :
  n ∈ insertName name names ↔ n = name ∨ n ∈ names
  := by
  fun_induction insertName name names with
  | case1 | case2 => simp
  | case3 | case4 => simp_all [or_left_comm]

/-- Inserting a name keeps the names in increasing order, each once. -/
theorem pairwise_insertName {name : String} {names : List String}
    (h : names.Pairwise (· < ·)) :
  (insertName name names).Pairwise (· < ·)
  := by
  fun_induction insertName name names with
  | case1 => apply List.pairwise_singleton
  | case2 n ns hlt => apply List.Pairwise.cons_cons_of_trans hlt h
  | case3 => exact h
  | case4 n ns hle hne ih =>
    obtain ⟨hfirst, hrest⟩ := List.pairwise_cons.mp h
    apply List.pairwise_cons.mpr ⟨?_, ih hrest⟩
    intro m hm
    obtain rfl | hm := mem_insertName.mp hm
    · apply Std.lt_of_le_of_ne (Std.not_lt.mp hle) (Ne.symm hne)
    · apply hfirst m hm

/-- The set of identifiers has the canonical names of the references, each once and in increasing
order. -/
theorem Expr.identifierSet_spec (e : Expr) :
  (∀ name, name ∈ e.identifierSet ↔ ∃ r ∈ e.references, canonicalize r = name)
    ∧ e.identifierSet.Pairwise (· < ·)
  := by
  rw [identifierSet]
  constructor
  · intro name
    rw [← List.mem_map]
    induction e.references.map canonicalize with
    | nil => rfl
    | cons n ns ih => rw [List.foldr_cons, mem_insertName, ih, List.mem_cons]
  · induction e.references.map canonicalize with
    | nil => apply List.Pairwise.nil
    | cons n ns ih => apply pairwise_insertName ih

end EquationLang
