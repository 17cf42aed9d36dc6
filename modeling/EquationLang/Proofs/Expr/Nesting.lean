import EquationLang.Proofs.Expr.Canonical

/-!
# Parts of expressions, one after and one inside the other

An expression is ordered (`Expr.Ordered`) if the parts of each node stand one after the other; then
the places of the nodes are nested like the nodes.  `Expr.operandsAt e k` are the operands of `e`
that have exactly `k` operands around them, in the order in which they are written.  There are none
from the depth of `e` on (`Expr.nest_le_iff`).
-/

namespace EquationLang.Expr

/-- The parts of the node come in order and do not overlap. -/
def PartsInOrder : Expr → Prop
  | bad .. | ident .. | literal .. => True
  | paren lparen body rparen => lparen < body.pos ∧ body.stop ≤ rparen
  | index base lbrack subscript rbrack =>
    base.stop ≤ lbrack ∧ lbrack < subscript.pos ∧ subscript.stop ≤ rbrack
  | call callee lparen args rparen =>
    callee.stop ≤ lparen ∧ lparen < rparen ∧ (∀ arg ∈ args, lparen < arg.pos ∧ arg.stop ≤ rparen)
      ∧ args.Pairwise fun a b => a.stop ≤ b.pos
  | unary opPos _ operand => opPos < operand.pos
  | binary left opPos _ right => left.stop ≤ opPos ∧ opPos ≤ right.pos

/-- If the parts of a node come in order, its children lie inside of it. -/
theorem PartsInOrder.children_inside {s : Expr} (h : s.PartsInOrder)
    (hspan : ∀ c ∈ s.children, c.pos < c.stop) :
  ∀ c ∈ s.children, s.pos ≤ c.pos ∧ c.stop ≤ s.stop
  := by
  intro c hc
  have hc' := hspan c hc
  cases s with
  | bad | ident | literal => cases hc
  | paren lparen body rparen =>
    obtain rfl := List.mem_singleton.mp hc
    simp only [PartsInOrder, pos, stop] at h ⊢
    omega
  | index base lbrack subscript rbrack =>
    have hbase := hspan base List.mem_cons_self
    have hsubscript := hspan subscript (List.mem_cons_of_mem base List.mem_cons_self)
    simp only [PartsInOrder, pos, stop] at h ⊢
    obtain rfl | hc := List.mem_cons.mp hc
    · omega
    · obtain rfl := List.mem_singleton.mp hc
      omega
  | call callee lparen args rparen =>
    have hcallee := hspan callee List.mem_cons_self
    simp only [PartsInOrder, pos, stop] at h ⊢
    obtain rfl | hc := List.mem_cons.mp hc
    · omega
    · have := h.2.2.1 c hc
      omega
  | unary opPos sign operand =>
    obtain rfl := List.mem_singleton.mp hc
    simp only [PartsInOrder, pos, stop] at h ⊢
    omega
  | binary left opPos op right =>
    have hleft := hspan left List.mem_cons_self
    have hright := hspan right (List.mem_cons_of_mem left List.mem_cons_self)
    simp only [PartsInOrder, pos, stop] at h ⊢
    obtain rfl | hc := List.mem_cons.mp hc
    · omega
    · obtain rfl := List.mem_singleton.mp hc
      omega

/-- If the parts of a node come in order, its children do not overlap. -/
theorem PartsInOrder.children_pairwise {s : Expr} (h : s.PartsInOrder) :
  s.children.Pairwise fun a b => a.stop ≤ b.pos
  := by
  cases s with
  | bad | ident | literal => exact List.Pairwise.nil
  | paren | unary => exact List.pairwise_singleton _ _
  | index base lbrack subscript rbrack =>
    apply List.pairwise_pair.mpr
    exact h.1.trans (Nat.le_of_lt h.2.1)
  | call callee lparen args rparen =>
    obtain ⟨hcallee, -, hargs, hpairwise⟩ := h
    apply List.pairwise_cons.mpr
    exact ⟨fun arg harg => hcallee.trans (Nat.le_of_lt (hargs arg harg).1), hpairwise⟩
  | binary left opPos op right =>
    apply List.pairwise_pair.mpr
    exact h.1.trans h.2

/-- The parts of each node come in order, and each node takes up some text. -/
def Ordered (e : Expr) : Prop := ∀ s : Expr, s.NodeOf e → s.PartsInOrder ∧ s.pos < s.stop

theorem Ordered.child {e c : Expr} (h : e.Ordered) (hc : c ∈ e.children) :
  c.Ordered
  := fun s hs => h s (.inside hc hs)

theorem Ordered.children_inside {e : Expr} (h : e.Ordered) :
  ∀ c ∈ e.children, e.pos ≤ c.pos ∧ c.stop ≤ e.stop
  := (h e .root).1.children_inside fun c hc => (h.child hc c .root).2

/-- The nodes of an ordered expression stand inside of it. -/
theorem Ordered.inside {e s : Expr} (h : e.Ordered) (hs : s.NodeOf e) :
  e.pos ≤ s.pos ∧ s.stop ≤ e.stop
  := by
  induction hs with
  | root => exact ⟨Nat.le_refl _, Nat.le_refl _⟩
  | inside hc _ ih =>
    obtain ⟨hpos, hstop⟩ := h.children_inside _ hc
    obtain ⟨hpos', hstop'⟩ := ih (h.child hc)
    exact ⟨hpos.trans hpos', hstop'.trans hstop⟩

/-! ### Operands inside operands -/

mutual

/-- The operands with exactly `k` operands around them, in the order in which they are written.  The
name of a call or of an index is no operand of its own, and neither is what an operator joins. -/
def operandsAt : Expr → Nat → List Expr
  | binary left _ _ right, k => left.operandsAt k ++ right.operandsAt k
  | bad start stop, 0 => [bad start stop]
  | ident pos name, 0 => [ident pos name]
  | literal pos value, 0 => [literal pos value]
  | paren lparen body rparen, 0 => [paren lparen body rparen]
  | index base lbrack subscript rbrack, 0 => [index base lbrack subscript rbrack]
  | call callee lparen args rparen, 0 => [call callee lparen args rparen]
  | unary opPos sign operand, 0 => [unary opPos sign operand]
  | bad .., _ + 1 | ident .., _ + 1 | literal .., _ + 1 => []
  | paren _ body _, k + 1 => body.operandsAt k
  | index _ _ subscript _, k + 1 => subscript.operandsAt k
  | call _ _ args _, k + 1 => operandsAtAll args k
  | unary _ _ operand, k + 1 => operand.operandsAt k

/-- The operands in any of the expressions with exactly `k` operands around them. -/
def operandsAtAll : List Expr → Nat → List Expr
  | [], _ => []
  | e :: es, k => e.operandsAt k ++ operandsAtAll es k

end

mutual

/-- An expression is as deep as there are operands in it. -/
theorem nest_le_iff :
  (e : Expr) → (k : Nat) → (e.nest ≤ k ↔ e.operandsAt k = [])
  | binary left _ _ right, k => by
      rw [nest, operandsAt, List.append_eq_nil_iff, ← nest_le_iff left, ← nest_le_iff right,
        Nat.max_le]
  | bad .., 0 | ident .., 0 | literal .., 0 => by simp [nest, operandsAt]
  | paren .., 0 | index .., 0 | call .., 0 | unary .., 0 => by simp [nest, operandsAt]
  | bad .., k + 1 | ident .., k + 1 | literal .., k + 1 => by simp [nest, operandsAt]
  | paren _ body _, k + 1 => by rw [nest, operandsAt, Nat.add_le_add_iff_right, nest_le_iff body]
  | index _ _ subscript _, k + 1 => by
      rw [nest, operandsAt, Nat.add_le_add_iff_right, nest_le_iff subscript]
  | call _ _ args _, k + 1 => by
      rw [nest, operandsAt, Nat.add_le_add_iff_right, nestAll_le_iff args]
  | unary _ _ operand, k + 1 => by
      rw [nest, operandsAt, Nat.add_le_add_iff_right, nest_le_iff operand]

theorem nestAll_le_iff :
  (es : List Expr) → (k : Nat) → (nestAll es ≤ k ↔ operandsAtAll es k = [])
  | [], k => by simp [nestAll, operandsAtAll]
  | e :: es, k => by
      rw [nestAll, operandsAtAll, List.append_eq_nil_iff, ← nest_le_iff e, ← nestAll_le_iff es,
        Nat.max_le]

end

mutual

/-- The operands of an expression are nodes of it. -/
theorem nodeOf_of_mem_operandsAt {s : Expr} :
  ∀ {e : Expr} {k : Nat}, s ∈ e.operandsAt k → s.NodeOf e
  | binary left _ _ right, k, h => by
      obtain h | h := List.mem_append.mp h
      · exact .inside List.mem_cons_self (nodeOf_of_mem_operandsAt h)
      · exact .inside (List.mem_cons_of_mem left List.mem_cons_self) (nodeOf_of_mem_operandsAt h)
  | bad .., 0, h | ident .., 0, h | literal .., 0, h => by
      obtain rfl := List.mem_singleton.mp h
      exact .root
  | paren .., 0, h | index .., 0, h | call .., 0, h | unary .., 0, h => by
      obtain rfl := List.mem_singleton.mp h
      exact .root
  | paren _ body _, k + 1, h => .inside List.mem_cons_self (nodeOf_of_mem_operandsAt h)
  | index base _ subscript _, k + 1, h =>
    .inside (List.mem_cons_of_mem base List.mem_cons_self) (nodeOf_of_mem_operandsAt h)
  | call callee _ args _, k + 1, h => by
      obtain ⟨arg, harg, hs⟩ := nodeOf_of_mem_operandsAtAll h
      exact .inside (List.mem_cons_of_mem callee harg) hs
  | unary _ _ operand, k + 1, h => .inside List.mem_cons_self (nodeOf_of_mem_operandsAt h)

theorem nodeOf_of_mem_operandsAtAll {s : Expr} :
  ∀ {es : List Expr} {k : Nat}, s ∈ operandsAtAll es k → ∃ e ∈ es, s.NodeOf e
  | e :: es, k, h => by
      obtain h | h := List.mem_append.mp h
      · exact ⟨e, List.mem_cons_self, nodeOf_of_mem_operandsAt h⟩
      · obtain ⟨e', he', hs⟩ := nodeOf_of_mem_operandsAtAll h
        exact ⟨e', List.mem_cons_of_mem e he', hs⟩

end

/-- If an expression ends before another one begins, then so do their nodes. -/
theorem Ordered.stop_le_pos {e e' s s' : Expr} (h : e.Ordered) (h' : e'.Ordered)
    (hle : e.stop ≤ e'.pos) (hs : s.NodeOf e) (hs' : s'.NodeOf e') :
  s.stop ≤ s'.pos
  := (h.inside hs).2.trans (hle.trans (h'.inside hs').1)

mutual

/-- The operands of an ordered expression stand one after the other. -/
theorem Ordered.pairwise_operandsAt :
  ∀ {e : Expr}, e.Ordered → ∀ k : Nat, (e.operandsAt k).Pairwise fun a b => a.stop ≤ b.pos
  | binary left _ _ right, h, k => by
      have hleft : left.Ordered := h.child List.mem_cons_self
      have hright : right.Ordered := h.child (List.mem_cons_of_mem left List.mem_cons_self)
      obtain ⟨hstop, hpos⟩ := (h _ .root).1
      apply List.pairwise_append.mpr
      refine ⟨hleft.pairwise_operandsAt k, hright.pairwise_operandsAt k, ?_⟩
      intro a ha b hb
      apply hleft.stop_le_pos hright (hstop.trans hpos) (nodeOf_of_mem_operandsAt ha)
        (nodeOf_of_mem_operandsAt hb)
  | bad .., _, 0 | ident .., _, 0 | literal .., _, 0 => List.pairwise_singleton _ _
  | paren .., _, 0 | index .., _, 0 | call .., _, 0 | unary .., _, 0 =>
    List.pairwise_singleton _ _
  | bad .., _, _ + 1 | ident .., _, _ + 1 | literal .., _, _ + 1 => List.Pairwise.nil
  | paren .., h, k + 1 => (h.child List.mem_cons_self).pairwise_operandsAt k
  | index base _ _ _, h, k + 1 =>
    (h.child (List.mem_cons_of_mem base List.mem_cons_self)).pairwise_operandsAt k
  | call callee _ _ _, h, k + 1 =>
    pairwise_operandsAtAll (fun _ harg => h.child (List.mem_cons_of_mem callee harg))
      (h _ .root).1.2.2.2 k
  | unary .., h, k + 1 => (h.child List.mem_cons_self).pairwise_operandsAt k

theorem pairwise_operandsAtAll :
  ∀ {es : List Expr}, (∀ e ∈ es, e.Ordered) → (es.Pairwise fun a b => a.stop ≤ b.pos) →
    ∀ k : Nat, (operandsAtAll es k).Pairwise fun a b => a.stop ≤ b.pos
  | [], _, _, _ => List.Pairwise.nil
  | e :: es, h, horder, k => by
      obtain ⟨he, hes⟩ := List.forall_mem_cons.mp h
      obtain ⟨hlater, horder⟩ := List.pairwise_cons.mp horder
      apply List.pairwise_append.mpr
      refine ⟨he.pairwise_operandsAt k, pairwise_operandsAtAll hes horder k, ?_⟩
      intro a ha b hb
      obtain ⟨e', he', hb⟩ := nodeOf_of_mem_operandsAtAll hb
      apply he.stop_le_pos (hes e' he') (hlater e' he') (nodeOf_of_mem_operandsAt ha) hb

end

end EquationLang.Expr
