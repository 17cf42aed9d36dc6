import EquationLang.Dependency.Name
import EquationLang.Expr.Inspect

/-!
# References to variables

`Expr.references` lists the variables that an expression refers to as they are written, and
`Expr.identifierSet` the set of their canonical names.  The name of a called function is no
reference.
-/

namespace EquationLang

/-- What is known during the walk for references. -/
structure ReferenceWalk where
  /-- Whether the next node is the callee of the call visited last. -/
  calleeNext : Bool := false
  /-- The references found so far, the latest in front. -/
  found : List String := []

/-- Visit a node: an identifier is a reference unless it is a callee. -/
def ReferenceWalk.visit (w : ReferenceWalk) : Expr → ReferenceWalk × Bool
  | .ident _ name => (⟨false, if w.calleeNext then w.found else name :: w.found⟩, true)
  | .call .. => (⟨true, w.found⟩, true)
  | _ => (⟨false, w.found⟩, true)

/-- The names of the variables that an expression refers to, as they are written and in that
order. -/
def Expr.references (e : Expr) : List String := (e.inspect ReferenceWalk.visit {}).found.reverse

/-- Insert a name into a list in increasing order, unless it is there. -/
def insertName (name : String) : List String → List String
  | [] => [name]
  | n :: ns =>
    if name < n then name :: n :: ns
    else if name = n then n :: ns
    else n :: insertName name ns

/-- The canonical names of the variables that an expression refers to, in increasing order and each
once. -/
def Expr.identifierSet (e : Expr) : List String :=
  (e.references.map canonicalize).foldr insertName []

end EquationLang
