import EquationLang.Dependency.Graph
import Mathlib.Data.List.Induction
import Mathlib.Data.List.Pairwise
import Mathlib.Tactic.Common

/-!
# The nodes of a dependency graph

A dependency graph maps the canonical name of a variable to what the variable depends on.  Of
several variables with one name, it is the last one whose equation can be read that counts
(`DependencyGraph.lookup_ofModel`).  The nodes are in the order of their names
(`DependencyGraph.pairwise_ofModel`).
-/

namespace EquationLang.DependencyGraph

variable {graph : DependencyGraph} {name : String} {names : List String}

/-! ### Inserting a node -/

theorem lookup_cons_eq_ite (node : String × List String) (nodes : DependencyGraph)
    (other : String) :
  List.lookup other (node :: nodes)
    = if other = node.1 then some node.2 else nodes.lookup other
  := by
  by_cases h : other = node.1
  · rw [if_pos h, h]
    apply List.lookup_cons_self
  · rw [if_neg h, List.lookup_cons, beq_false_of_ne h]

/-- Inserting a node changes what its name is mapped to, and nothing else. -/
theorem lookup_insert (graph : DependencyGraph) (name : String) (names : List String)
    (other : String) :
  (insert name names graph).lookup other
    = if other = name then some names else graph.lookup other
  := by
  fun_induction insert name names graph with
  | case1 | case2 => apply lookup_cons_eq_ite
  | case3 node nodes hle heq =>
    -- the node that is replaced has the same name
    rw [lookup_cons_eq_ite, lookup_cons_eq_ite, ← heq]
    split_ifs <;> rfl
  | case4 node nodes hle hne ih =>
    rw [lookup_cons_eq_ite, lookup_cons_eq_ite, ih]
    grind

theorem mem_insert {node : String × List String} (h : node ∈ insert name names graph) :
  node = (name, names) ∨ node ∈ graph
  := by
  fun_induction insert name names graph with
  | case1 | case2 => simpa using h
  | case3 first nodes hle heq =>
    obtain rfl | h := List.mem_cons.mp h
    · left
      rfl
    · right
      apply List.mem_cons_of_mem first h
  | case4 first nodes hle hne ih =>
    obtain rfl | h := List.mem_cons.mp h
    · right
      apply List.mem_cons_self
    · apply (ih h).imp_right (List.mem_cons_of_mem first)

/-- Inserting a node keeps the nodes in the order of their names. -/
theorem pairwise_insert (h : graph.Pairwise (·.1 < ·.1)) :
  (insert name names graph).Pairwise (·.1 < ·.1)
  := by
  fun_induction insert name names graph with
  | case1 => apply List.pairwise_singleton
  | case2 first nodes hlt =>
    apply List.Pairwise.cons_cons_of_trans _ h
    exact hlt
  | case3 first nodes hle heq =>
    obtain ⟨hfirst, hrest⟩ := List.pairwise_cons.mp h
    rw [← heq] at hfirst
    apply List.pairwise_cons.mpr ⟨hfirst, hrest⟩
  | case4 first nodes hle hne ih =>
    obtain ⟨hfirst, hrest⟩ := List.pairwise_cons.mp h
    apply List.pairwise_cons.mpr ⟨?_, ih hrest⟩
    intro node hnode
    obtain rfl | hnode := mem_insert hnode
    · apply Std.lt_of_le_of_ne (Std.not_lt.mp hle) (Ne.symm hne)
    · apply hfirst node hnode

/-! ### The graph of a model -/

theorem ofModel_concat (model : List Variable) (v : Variable) :
  ofModel (model ++ [v]) = match v.dependencies with
    | .ok names => insert v.canonicalName names (ofModel model)
    | .error _ => ofModel model
  := by
  rw [ofModel, List.foldl_append]
  rfl

/-- A name is mapped to what the last variable of this name depends on, among those whose equations
can be read. -/
theorem lookup_ofModel (model : List Variable) (name : String) :
  (ofModel model).lookup name
    = model.reverse.findSome? fun v =>
      if v.canonicalName = name then v.dependencies.toOption else none
  := by
  induction model using List.reverseRecOn with
  | nil => rfl
  | append_singleton model v ih =>
    rw [ofModel_concat, List.reverse_concat, List.findSome?_cons, ← ih]
    cases v.dependencies with
    | ok names =>
      dsimp only
      rw [lookup_insert]
      by_cases h : v.canonicalName = name
      · rw [if_pos h, if_pos h.symm]
        rfl
      · rw [if_neg h, if_neg (Ne.symm h)]
    | error err =>
      -- nothing is found for `v`, whatever its name
      simp only [Except.toOption, ite_self]

/-- The third equation cannot be read, and so it is the second one that counts. -/
example :
  (ofModel [⟨"Lynx Births", "Lynx"⟩, ⟨"lynx births", "MIN(Lynx, cap)"⟩, ⟨"lynx_births", "("⟩]
    ).lookup "lynx_births" = some ["cap", "lynx"]
  := by
  decide +kernel

/-- The nodes of a graph are in the order of their names, and there is one for each name. -/
theorem pairwise_ofModel (model : List Variable) :
  (ofModel model).Pairwise (·.1 < ·.1)
  := by
  induction model using List.reverseRecOn with
  | nil => apply List.Pairwise.nil
  | append_singleton model v ih =>
    rw [ofModel_concat]
    cases v.dependencies with
    | ok names => apply pairwise_insert ih
    | error err => apply ih

end EquationLang.DependencyGraph
