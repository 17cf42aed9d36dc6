import EquationLang.Dependency.References
import EquationLang.Grammar.Equation

/-!
# The dependencies of a model

A model is a list of variables with their equations.  Its dependency graph has a node for each
variable whose equation can be read, with the set of the variables it depends on; of variables with
the same canonical name, the last one whose equation can be read counts.
-/

namespace EquationLang

/-- A variable of a model. -/
structure Variable where
  name : String
  eqn : String

namespace Variable

/-- The name under which references find the variable. -/
def canonicalName (v : Variable) : String := canonicalize v.name

/-- The canonical names of the variables that the variable depends on. -/
def dependencies (v : Variable) : Except ParseError (List String) :=
  (parse v.name v.eqn).map Expr.identifierSet

end Variable

/-- Canonical names in increasing order, each with the names it depends on. -/
abbrev DependencyGraph := List (String × List String)

namespace DependencyGraph

/-- Let `name` depend on `names`, whatever it depended on before. -/
def insert (name : String) (names : List String) : DependencyGraph → DependencyGraph
  | [] => [(name, names)]
  | node :: nodes =>
    if name < node.1 then (name, names) :: node :: nodes
    else if name = node.1 then (name, names) :: nodes
    else node :: insert name names nodes

/-- The graph of a model.  An equation that cannot be read is passed over and does not spoil the
graph; a caller that wants no graph in this case has to look at the `dependencies` first. -/
def ofModel (model : List Variable) : DependencyGraph :=
  model.foldl
    (fun graph v =>
      match v.dependencies with
      | .ok names => insert v.canonicalName names graph
      | .error _ => graph)
    []

end DependencyGraph

end EquationLang
