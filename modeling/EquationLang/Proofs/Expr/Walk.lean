import EquationLang.Expr.Inspect
import Mathlib.Tactic.Common

/-!
# The nodes that a walk visits

The same expression may stand at several places of an expression, so a node is known by its place:
the way from the root to it.  `Expr.places` lists the places in pre-order, which is their
lexicographic order.  A walk visits the nodes at these places one after the other, but for those
below a node from which the visitor did not want to go deeper (`Expr.IsTrace`), whatever the
visitor's answers depend on.
-/

namespace EquationLang.Expr

/-! ### Places -/

/-- A way from the root of an expression to a node: the number of the child to go to, at the root
and at each node passed. -/
abbrev Place := List Nat

/-- The node at a place, if the place is in the expression. -/
def at? (e : Expr) : Place → Option Expr
  | [] => some e
  | i :: p => e.children[i]?.bind (·.at? p)

mutual

/-- The places of the nodes in pre-order: the root, and then the places in the first child, in the
second one, and so on. -/
def places : Expr → List Place
  | bad .. | ident .. | literal .. => [[]]
  | paren _ body _ => [] :: body.places.map (0 :: ·)
  | index base _ subscript _ => [] :: (base.places.map (0 :: ·) ++ subscript.places.map (1 :: ·))
  | call callee _ args _ => [] :: (callee.places.map (0 :: ·) ++ placesFrom 1 args)
  | unary _ _ operand => [] :: operand.places.map (0 :: ·)
  | binary left _ _ right => [] :: (left.places.map (0 :: ·) ++ right.places.map (1 :: ·))

/-- The places of the nodes in children, the first of which has the number `i`. -/
def placesFrom (i : Nat) : List Expr → List Place
  | [] => []
  | e :: es => e.places.map (i :: ·) ++ placesFrom (i + 1) es

end

theorem places_eq (e : Expr) :
  e.places = [] :: placesFrom 0 e.children
  := by
  cases e <;> simp [places, placesFrom, children]

theorem sizeOf_lt_of_mem_children {c e : Expr} (h : c ∈ e.children) :
  sizeOf c < sizeOf e
  := by
  cases e with
  | bad | ident | literal => cases h
  | call callee lparen args rparen =>
    rw [call.sizeOf_spec]
    obtain rfl | h := List.mem_cons.mp h
    · omega
    · have := List.sizeOf_lt_of_mem h
      omega
  | paren lparen body rparen =>
    obtain rfl := List.mem_singleton.mp h
    rw [paren.sizeOf_spec]
    omega
  | unary opPos sign operand =>
    obtain rfl := List.mem_singleton.mp h
    rw [unary.sizeOf_spec]
    omega
  | index base lbrack subscript rbrack =>
    rw [index.sizeOf_spec]
    obtain rfl | h := List.mem_cons.mp h
    · omega
    · obtain rfl := List.mem_singleton.mp h
      omega
  | binary left opPos op right =>
    rw [binary.sizeOf_spec]
    obtain rfl | h := List.mem_cons.mp h
    · omega
    · obtain rfl := List.mem_singleton.mp h
      omega

/-- What holds of an expression if it holds of its children holds of all expressions. -/
theorem children_induction {P : Expr → Prop} (node : ∀ e, (∀ c ∈ e.children, P c) → P e)
    (e : Expr) :
  P e
  := node e fun c _ => children_induction node c
termination_by sizeOf e
decreasing_by
  apply sizeOf_lt_of_mem_children
  assumption

theorem mem_placesFrom {p : Place} {i : Nat} {es : List Expr} :
  p ∈ placesFrom i es ↔ ∃ j e q, es[j]? = some e ∧ q ∈ e.places ∧ p = (i + j) :: q
  := by
  induction es generalizing i with
  | nil => simp [placesFrom]
  | cons e es ih =>
    rw [placesFrom, List.mem_append, List.mem_map, ih]
    constructor
    · rintro (⟨q, hq, rfl⟩ | ⟨j, e', q, he', hq, rfl⟩)
      · exact ⟨0, e, q, rfl, hq, rfl⟩
      · exact ⟨j + 1, e', q, he', hq, by rw [Nat.add_right_comm, Nat.add_assoc]⟩
    · rintro ⟨_ | j, e', q, he', hq, rfl⟩
      · obtain rfl := Option.some.inj he'
        exact .inl ⟨q, hq, rfl⟩
      · exact .inr ⟨j, e', q, he', hq, by rw [Nat.add_right_comm, Nat.add_assoc]⟩

/-- The places are the ways that lead to a node. -/
theorem mem_places {p : Place} {e : Expr} :
  p ∈ e.places ↔ (e.at? p).isSome
  := by
  induction p generalizing e with
  | nil => simp [places_eq, at?]
  | cons i p ih =>
    rw [places_eq, List.mem_cons, mem_placesFrom, at?]
    cases hc : e.children[i]? with
    | none => simp_all
    | some c => simp_all

theorem pairwise_placesFrom {es : List Expr} (h : ∀ c ∈ es, c.places.Pairwise (· < ·)) (i : Nat) :
  (placesFrom i es).Pairwise (· < ·)
  := by
  induction es generalizing i with
  | nil => apply List.Pairwise.nil
  | cons c es ih =>
    obtain ⟨hc, hes⟩ := List.forall_mem_cons.mp h
    rw [placesFrom, List.pairwise_append]
    refine ⟨?_, ih hes (i + 1), ?_⟩
    · apply List.pairwise_map.mpr
      apply hc.imp
      intro p q hpq
      apply List.cons_lt_cons_iff.mpr (.inr ⟨rfl, hpq⟩)
    · intro p hp q hq
      obtain ⟨p, -, rfl⟩ := List.mem_map.mp hp
      obtain ⟨j, c', q, -, -, rfl⟩ := mem_placesFrom.mp hq
      apply List.cons_lt_cons_iff.mpr (.inl _)
      omega

/-- Each place is listed once, after the places above it and in the order of the children. -/
theorem pairwise_places (e : Expr) :
  e.places.Pairwise (· < ·)
  := by
  induction e using children_induction with
  | node e ih =>
    rw [places_eq, List.pairwise_cons]
    use fun p hp => ?_, pairwise_placesFrom ih 0
    obtain ⟨j, c, q, -, -, rfl⟩ := mem_placesFrom.mp hp
    apply List.nil_lt_cons

/-! ### Visits -/

/-- A node that a walk comes to, and whether the visitor wanted to go deeper. -/
structure Visit where
  place : Place
  node : Expr
  answer : Bool

variable {σ τ : Type}

/-- The place is below a node from which the visitor did not want to go deeper. -/
def IsSkipped (trace : List Visit) (p : Place) : Prop :=
  ∃ v ∈ trace, v.answer = false ∧ v.place <+: p ∧ v.place ≠ p

instance (trace : List Visit) : DecidablePred (IsSkipped trace) :=
  fun _ => inferInstanceAs (Decidable (∃ v ∈ trace, _))

/-- The visitor, called in the state `s` on the nodes of the visits one after the other, gives their
answers, and is in the state `s'` afterwards. -/
def Answers (visit : σ → Expr → σ × Bool) (s : σ) : List Visit → σ → Prop
  | [], s' => s = s'
  | v :: vs, s' => (visit s v.node).2 = v.answer ∧ Answers visit (visit s v.node).1 vs s'

theorem Answers.append {visit : σ → Expr → σ × Bool} {s s' s'' : σ} {vs ws : List Visit}
    (h : Answers visit s vs s') (h' : Answers visit s' ws s'') :
  Answers visit s (vs ++ ws) s''
  := by
  induction vs generalizing s with
  | nil =>
    obtain rfl := h
    exact h'
  | cons v vs ih => exact ⟨h.1, ih h.2⟩

theorem not_isSkipped_nil (trace : List Visit) :
  ¬ IsSkipped trace []
  := by
  rintro ⟨v, -, -, hle, hne⟩
  exact hne (List.prefix_nil.mp hle)

theorem isSkipped_append {vs ws : List Visit} {p : Place} :
  IsSkipped (vs ++ ws) p ↔ IsSkipped vs p ∨ IsSkipped ws p
  := by
  simp only [IsSkipped, List.mem_append, or_and_right, exists_or]

/-- The visit of a child's node as one in the expression around it. -/
def Visit.under (i : Nat) (v : Visit) : Visit := { v with place := i :: v.place }

theorem isSkipped_under {i : Nat} {vs : List Visit} {p : Place} :
  IsSkipped (vs.map (·.under i)) (i :: p) ↔ IsSkipped vs p
  := by
  simp [IsSkipped, Visit.under]

theorem answers_under {visit : σ → Expr → σ × Bool} {s s' : σ} {i : Nat} {vs : List Visit} :
  Answers visit s (vs.map (·.under i)) s' ↔ Answers visit s vs s'
  := by
  induction vs generalizing s with
  | nil => rfl
  | cons v vs ih => rw [List.map_cons, Answers, Answers, ih]; rfl

/-- Visits in other children do not make a place skipped. -/
theorem not_isSkipped_of_ne {i : Nat} {vs : List Visit} {p : Place}
    (h : ∀ v ∈ vs, ∃ j q, v.place = j :: q ∧ j ≠ i) :
  ¬ IsSkipped vs (i :: p)
  := by
  rintro ⟨v, hv, -, hle, -⟩
  obtain ⟨j, q, hplace, hne⟩ := h v hv
  rw [hplace] at hle
  exact hne (List.cons_prefix_cons.mp hle).1

/-! ### Traces of walks -/

section

variable {visit : σ → Expr → σ × Bool} {s : σ} {e : Expr} {es : List Expr} {i : Nat}
  {trace : List Visit}

/-- The visits are those of a walk through the expression that begins in the state `s`: at the
places in pre-order that are not skipped, each at the node that is there. -/
structure IsTrace (visit : σ → Expr → σ × Bool) (s : σ) (e : Expr) (trace : List Visit) : Prop where
  node : ∀ v ∈ trace, e.at? v.place = some v.node
  places : trace.map (·.place) = e.places.filter (¬ IsSkipped trace ·)
  answers : Answers visit s trace (e.inspect visit s)

/-- The visits are those of a walk through children, the first of which has the number `i`. -/
structure IsTraceFrom (visit : σ → Expr → σ × Bool) (s : σ) (i : Nat) (es : List Expr)
    (trace : List Visit) : Prop where
  node : ∀ v ∈ trace, ∃ j c q, es[j]? = some c ∧ v.place = (i + j) :: q ∧ c.at? q = some v.node
  places : trace.map (·.place) = (placesFrom i es).filter (¬ IsSkipped trace ·)
  answers : Answers visit s trace (inspectAll visit s es)

/-- The children of a node are visited if the visitor wants to. -/
theorem inspect_eq (visit : σ → Expr → σ × Bool) (s : σ) (e : Expr) :
  e.inspect visit s =
    if (visit s e).2 then inspectAll visit (visit s e).1 e.children else (visit s e).1
  := by
  cases e <;> rw [inspect] <;> cases visit s _ with | mk s' b => cases b <;> rfl

theorem isTraceFrom_nil (visit : σ → Expr → σ × Bool) (s : σ) (i : Nat) :
  IsTraceFrom visit s i [] []
  := ⟨by simp, rfl, rfl⟩

/-- Visits in the children after a child do not skip places in it. -/
theorem IsTraceFrom.isSkipped_first_iff (h : IsTraceFrom visit s (i + 1) es trace)
    (vs : List Visit) (p : Place) :
  IsSkipped (vs.map (·.under i) ++ trace) (i :: p) ↔ IsSkipped vs p
  := by
  rw [isSkipped_append, isSkipped_under, or_iff_left]
  apply not_isSkipped_of_ne
  intro v hv
  obtain ⟨j, c, q, -, hplace, -⟩ := h.node v hv
  exact ⟨_, q, hplace, by omega⟩

/-- Visits in a child do not skip places in the children after it. -/
theorem isSkipped_later_iff {p : Place} (h : p ∈ placesFrom (i + 1) es) (vs ws : List Visit) :
  IsSkipped (vs.map (·.under i) ++ ws) p ↔ IsSkipped ws p
  := by
  obtain ⟨j, c, q, -, -, rfl⟩ := mem_placesFrom.mp h
  rw [isSkipped_append, or_iff_right]
  apply not_isSkipped_of_ne
  intro v hv
  obtain ⟨w, -, rfl⟩ := List.mem_map.mp hv
  exact ⟨i, w.place, rfl, by omega⟩

/-- The visits in a child come before those in the children after it. -/
theorem IsTrace.cons {trace' : List Visit} (h : IsTrace visit s e trace)
    (h' : IsTraceFrom visit (e.inspect visit s) (i + 1) es trace') :
  IsTraceFrom visit s i (e :: es) (trace.map (·.under i) ++ trace')
  := by
  constructor
  · intro v hv
    obtain hv | hv := List.mem_append.mp hv
    · obtain ⟨w, hw, rfl⟩ := List.mem_map.mp hv
      exact ⟨0, e, w.place, rfl, rfl, h.node w hw⟩
    · obtain ⟨j, c, q, hc, hplace, hnode⟩ := h'.node v hv
      exact ⟨j + 1, c, q, hc, by rw [hplace, Nat.add_right_comm, Nat.add_assoc], hnode⟩
  · rw [List.map_append, List.map_map, placesFrom, List.filter_append, List.filter_map, h'.places]
    congr 1
    · calc trace.map (Visit.place ∘ (·.under i))
        _ = (trace.map (·.place)).map (i :: ·) := by
          rw [List.map_map]
          rfl
        _ = (e.places.filter (¬ IsSkipped trace ·)).map (i :: ·) := by rw [h.places]
        _ = _ := by simp only [Function.comp_def, h'.isSkipped_first_iff]
    · apply List.filter_congr
      intro p hp
      rw [decide_eq_decide, isSkipped_later_iff hp]
  · apply Answers.append (answers_under.mpr h.answers) h'.answers

/-- If the visitor does not want to go deeper, no other node is visited. -/
theorem isTrace_of_refused (h : (visit s e).2 = false) :
  IsTrace visit s e [⟨[], e, false⟩]
  := by
  constructor
  · simp [at?]
  · rw [places_eq, List.filter_cons_of_pos (by simpa using not_isSkipped_nil _), List.map_singleton,
      List.filter_eq_nil_iff.mpr]
    intro p hp
    obtain ⟨j, c, q, -, -, rfl⟩ := mem_placesFrom.mp hp
    simp [IsSkipped]
  · rw [inspect_eq, if_neg (by simp [h])]
    exact ⟨h, rfl⟩

/-- If the visitor wants to go deeper, the children are visited after the node. -/
theorem IsTraceFrom.root (h : IsTraceFrom visit (visit s e).1 0 e.children trace)
    (hanswer : (visit s e).2 = true) :
  IsTrace visit s e (⟨[], e, true⟩ :: trace)
  := by
  constructor
  · intro v hv
    obtain rfl | hv := List.mem_cons.mp hv
    · rfl
    · obtain ⟨j, c, q, hc, hplace, hnode⟩ := h.node v hv
      rw [hplace, at?, Nat.zero_add, hc]
      exact hnode
  · have hskipped : ∀ p, IsSkipped (⟨[], e, true⟩ :: trace) p ↔ IsSkipped trace p := by
      simp [IsSkipped]
    simp only [hskipped]
    rw [List.map_cons, h.places, places_eq,
      List.filter_cons_of_pos (by simpa using not_isSkipped_nil trace)]
  · rw [inspect_eq, if_pos hanswer]
    exact ⟨hanswer, h.answers⟩

theorem exists_isTraceFrom (h : ∀ c ∈ es, ∀ s, ∃ trace, IsTrace visit s c trace) (s : σ) (i : Nat) :
  ∃ trace, IsTraceFrom visit s i es trace
  := by
  induction es generalizing s i with
  | nil => exact ⟨[], isTraceFrom_nil visit s i⟩
  | cons c es ih =>
    obtain ⟨hc, hes⟩ := List.forall_mem_cons.mp h
    obtain ⟨trace, htrace⟩ := hc s
    obtain ⟨trace', htrace'⟩ := ih hes (c.inspect visit s) (i + 1)
    exact ⟨_, htrace.cons htrace'⟩

/-- Every walk has a trace. -/
theorem exists_isTrace (visit : σ → Expr → σ × Bool) (s : σ) (e : Expr) :
  ∃ trace, IsTrace visit s e trace
  := by
  induction e using children_induction generalizing s with
  | node e ih =>
    cases hanswer : (visit s e).2 with
    | false => exact ⟨_, isTrace_of_refused hanswer⟩
    | true =>
      obtain ⟨trace, htrace⟩ := exists_isTraceFrom ih (visit s e).1 0
      exact ⟨_, htrace.root hanswer⟩

end

/-! ### Visitors that keep a record -/

/-- The visitor, with a record of the nodes it is called on and of its answers. -/
def recording (visit : σ → Expr → σ × Bool) :
    σ × List (Expr × Bool) → Expr → (σ × List (Expr × Bool)) × Bool
  | (s, record), e => (((visit s e).1, record ++ [(e, (visit s e).2)]), (visit s e).2)

/-- The nodes that the visitor is called on during a walk, with its answers. -/
def visits (visit : σ → Expr → σ × Bool) (s : σ) (e : Expr) : List (Expr × Bool) :=
  (e.inspect (recording visit) (s, [])).2

section

variable {visit : σ → Expr → σ × Bool} {step : τ → Expr → τ × Bool} {f : τ → σ}

theorem inspectAll_map {es : List Expr}
    (h : ∀ c ∈ es, ∀ t, c.inspect visit (f t) = f (c.inspect step t)) (t : τ) :
  inspectAll visit (f t) es = f (inspectAll step t es)
  := by
  induction es generalizing t with
  | nil => rfl
  | cons c es ih =>
    obtain ⟨hc, hes⟩ := List.forall_mem_cons.mp h
    rw [inspectAll, inspectAll, hc, ih hes]

/-- If a visitor does to a part of the state what another one does to the whole, then so does a
walk. -/
theorem inspect_map (h : ∀ t e, visit (f t) e = (f (step t e).1, (step t e).2)) (t : τ) (e : Expr) :
  e.inspect visit (f t) = f (e.inspect step t)
  := by
  induction e using children_induction generalizing t with
  | node e ih => rw [inspect_eq, inspect_eq, h, inspectAll_map ih, apply_ite f]

end

/-- A visitor that keeps a record gives the same answers. -/
theorem answers_recording {visit : σ → Expr → σ × Bool} {s s' : σ}
    {record record' : List (Expr × Bool)} {trace : List Visit}
    (h : Answers (recording visit) (s, record) trace (s', record')) :
  Answers visit s trace s' ∧ record' = record ++ trace.map fun v => (v.node, v.answer)
  := by
  induction trace generalizing s record with
  | nil =>
    obtain ⟨rfl, rfl⟩ := Prod.mk.inj h
    exact ⟨rfl, (List.append_nil _).symm⟩
  | cons v trace ih =>
    obtain ⟨hanswer, hrest⟩ := h
    obtain ⟨hanswers, hrecord⟩ := ih hrest
    use ⟨hanswer, hanswers⟩
    rw [hrecord, List.append_assoc, List.map_cons]
    change (visit s v.node).2 = v.answer at hanswer
    rw [hanswer, List.singleton_append]

/-- A walk visits the nodes at the places in pre-order, each one once, but for those below a node
from which the visitor did not want to go deeper.  The visitor is called on them one after the
other, each time in the state of the call before, and the last call leaves the state in which the
walk ends. -/
theorem inspect_visits_preorder (visit : σ → Expr → σ × Bool) (s : σ) (e : Expr) :
  e.places.Pairwise (· < ·) ∧ (∀ p, p ∈ e.places ↔ (e.at? p).isSome)
    ∧ ∃ trace : List Visit, e.visits visit s = trace.map (fun v => (v.node, v.answer))
      ∧ trace.map (·.place) = e.places.filter (¬ IsSkipped trace ·)
      ∧ (∀ v ∈ trace, e.at? v.place = some v.node)
      ∧ Answers visit s trace (e.inspect visit s)
  := by
  refine ⟨pairwise_places e, fun p => mem_places, ?_⟩
  obtain ⟨trace, hnode, hplaces, hanswers⟩ := exists_isTrace (recording visit) (s, []) e
  obtain ⟨hanswers, hrecord⟩ := answers_recording hanswers
  have hstate : e.inspect visit s = (e.inspect (recording visit) (s, [])).1 :=
    inspect_map (f := Prod.fst) (fun _ _ => rfl) (s, []) e
  refine ⟨trace, hrecord, hplaces, hnode, ?_⟩
  rw [hstate]
  exact hanswers

/-- In `(a) + (a) * b`, a visitor that goes into parens only once does not see the second `a`. -/
example :
    ((binary (paren 0 (ident 1 "a") 2) 4 .add
        (binary (paren 6 (ident 7 "a") 8) 10 .mul (ident 12 "b"))).visits
      (fun seen e => if e.shape = "Paren" then (true, !seen) else (seen, true)) false).map
        (fun v => (v.1.pos, v.2))
      = [(0, true), (0, true), (1, true), (6, true), (6, false), (12, true)]
  := by decide

end EquationLang.Expr
