import EquationLang.Proofs.Expr.Nesting
import EquationLang.Proofs.Grammar.Subexpression
import EquationLang.Proofs.Token.Coverage

/-!
# The positions in an expression

The tokens of an expression stand in their places in the text (`InPlace`), so that each node of an
accepted equation stores the places of its parts, and these come in order (`parse_places_nodes`).
-/

namespace EquationLang

namespace Expr

/-- In the text `cs`, at each offset that the node stores stands what the node says.  The operator
of a product may be missing between a closing paren and an opening one, and is placed at the
latter. -/
def IsPlaced (cs : List Char) : Expr → Prop
  | bad .. => False
  | ident pos name => slice? cs pos (pos + name.utf8ByteSize) = some name.toList
  | literal pos value => slice? cs pos (pos + value.utf8ByteSize) = some value.toList
  | paren lparen _ rparen =>
    slice? cs lparen (lparen + 1) = some ['('] ∧ slice? cs rparen (rparen + 1) = some [')']
  | index _ lbrack _ rbrack =>
    slice? cs lbrack (lbrack + 1) = some ['['] ∧ slice? cs rbrack (rbrack + 1) = some [']']
  | call _ lparen _ rparen =>
    slice? cs lparen (lparen + 1) = some ['('] ∧ slice? cs rparen (rparen + 1) = some [')']
  | unary opPos sign _ => slice? cs opPos (opPos + 1) = some sign.symbol.toList
  | binary _ opPos op _ =>
    slice? cs opPos (opPos + 1) = some op.symbol.toList
      ∨ op = .mul ∧ ∃ closing, opPos = closing + 1
        ∧ slice? cs closing (closing + 2) = some [')', '(']

end Expr

/-! ### Tokens in their places -/

theorem Operator.utf8ByteSize_symbol (op : Operator) :
  op.symbol.utf8ByteSize = 1
  := by
  cases op <;> rfl

theorem Token.StartsOperand.isLexeme {t : Token} (h : t.StartsOperand) (hproper : t.IsProper) :
  IsLexeme t.kind t.text.toList
  := by
  rw [IsProper] at hproper
  split at hproper
  · next hkind => exact absurd hkind (h.kind_ne (by simp))
  · next hkind => exact absurd hkind (h.kind_ne (by simp))
  · next hkind => exact absurd hkind (h.kind_ne (by simp))
  · exact hproper

/-- The tokens are some of those that cover the text `cs`. -/
structure InPlace (cs : List Char) (ts : List Token) : Prop where
  proper : ∀ t ∈ ts, t.IsProper
  text : ∀ t ∈ ts, t.isInserted cs = false → slice? cs t.pos t.stop = some t.text.toList
  order : ts.Pairwise fun t u => t.sourceStop cs ≤ u.sourceStart
  inserted : ∀ m ∈ ts, m.isInserted cs →
    ∃ closing, m.pos = closing + 1 ∧ slice? cs closing (closing + 2) = some [')', '(']

theorem inPlace_equationTokens (eqn : String) :
  InPlace (normalize eqn).toList (equationTokens eqn)
  := by
  obtain ⟨body, stop, hread, hbody, hcovers, -⟩ := exists_covers (normalize eqn).toList
  rw [equationTokens_eq_read, hread]
  constructor
  · apply proper_of_append_endOfText hbody
  · apply hcovers.text
  · apply hcovers.order
  · intro m hm hinserted
    obtain ⟨t, u, -, -, -, hpos, hslice⟩ := hcovers.inserted m hm hinserted
    exact ⟨t.pos, hpos, hslice⟩

namespace InPlace

variable {cs : List Char} {ts us vs : List Token}

theorem sublist (h : InPlace cs ts) (hus : us.Sublist ts) :
  InPlace cs us
  := by
  constructor
  · exact fun t ht => h.proper t (hus.mem ht)
  · exact fun t ht => h.text t (hus.mem ht)
  · exact h.order.sublist hus
  · exact fun t ht => h.inserted t (hus.mem ht)

theorem left (h : InPlace cs (us ++ vs)) :
  InPlace cs us
  := h.sublist (List.sublist_append_left us vs)

theorem right (h : InPlace cs (us ++ vs)) :
  InPlace cs vs
  := h.sublist (List.sublist_append_right us vs)

theorem tail {t : Token} (h : InPlace cs (t :: ts)) :
  InPlace cs ts
  := h.sublist (List.sublist_cons_self t ts)

/-- The text of a token stands in its place, and the token takes up this text and no more, if it
could not have been inserted and has no quotes. -/
theorem written {t : Token} (h : InPlace cs ts) (ht : t ∈ ts) (hop : t.isOp "*" = false)
    (hkind : t.kind ≠ .str) :
  slice? cs t.pos t.stop = some t.text.toList ∧ t.sourceStop cs = t.stop
  := by
  have hinserted : t.isInserted cs = false := by simp [Token.isInserted, hop]
  have hslice := h.text t ht hinserted
  exact ⟨hslice, Laid.sourceStop_written hkind hslice⟩

/-- A token with one byte of text takes up one byte. -/
theorem single {t : Token} (h : InPlace cs ts) (ht : t ∈ ts) (hop : t.isOp "*" = false)
    (hkind : t.kind ≠ .str) (hsize : t.text.utf8ByteSize = 1) :
  slice? cs t.pos (t.pos + 1) = some t.text.toList ∧ t.sourceStop cs = t.pos + 1
  := by
  have hwritten := h.written ht hop hkind
  rw [Token.stop, hsize] at hwritten
  exact hwritten

/-- What opens or closes something takes up one byte. -/
theorem mark (h : InPlace cs ts) (kind : Token.Kind) (pos : Nat) (symbol : String)
    (ht : ⟨kind, pos, symbol⟩ ∈ ts)
    (hmark : kind ≠ .operator ∧ kind ≠ .str ∧ symbol.utf8ByteSize = 1) :
  slice? cs pos (pos + 1) = some symbol.toList
    ∧ Token.sourceStop cs ⟨kind, pos, symbol⟩ = pos + 1
  := by
  obtain ⟨hop, hkind, hsize⟩ := hmark
  exact h.single ht (by simp [Token.isOp, hop]) hkind hsize

/-- A sign takes up one byte. -/
theorem sign {sign : Sign} {pos : Nat} (h : InPlace cs ts)
    (ht : ⟨.operator, pos, sign.symbol⟩ ∈ ts) :
  slice? cs pos (pos + 1) = some sign.symbol.toList
    ∧ Token.sourceStop cs ⟨.operator, pos, sign.symbol⟩ = pos + 1
  := by
  apply h.single ht
  · cases sign <;> rfl
  · simp
  · cases sign <;> rfl

end InPlace

/-! ### Expressions in their places -/

namespace Expr

variable {cs : List Char} {us vs : List Token} {e : Expr}

theorem Spelled.exists_sourceStart (h : e.Spelled us) :
  ∃ t ∈ us, t.sourceStart = e.pos
  := by
  obtain ⟨t, us, rfl, hstart, hpos⟩ := h.exists_first
  use t, List.mem_cons_self
  rw [Token.sourceStart, if_neg (hstart.kind_ne (by simp)), hpos]

theorem Spelled.exists_sourceStop (h : e.Spelled us) (hplace : InPlace cs us) :
  ∃ t ∈ us, t.sourceStop cs = e.stop
  := by
  obtain ⟨us, t, rfl, hend, hstop⟩ := h.exists_last
  have ht : t ∈ us ++ [t] := by simp
  use t, ht
  have hop : t.isOp "*" = false := by
    obtain h | h | h | h := hend <;> simp [Token.isOp, h]
  rw [(hplace.written ht hop hend.canEndStatement.2).2, hstop]

/-- What comes after the tokens of an expression comes after the expression. -/
theorem Spelled.stop_le (h : e.Spelled us) (hplace : InPlace cs (us ++ vs)) :
  ∀ t ∈ vs, e.stop ≤ t.sourceStart
  := by
  intro t ht
  obtain ⟨u, hu, hstop⟩ := h.exists_sourceStop hplace.left
  rw [← hstop]
  apply (List.pairwise_append.mp hplace.order).2.2 u hu t ht

/-- What comes before the tokens of an expression comes before the expression. -/
theorem Spelled.le_pos {t : Token} (h : e.Spelled us) (hplace : InPlace cs (t :: us)) :
  t.sourceStop cs ≤ e.pos
  := by
  obtain ⟨u, hu, hstart⟩ := h.exists_sourceStart
  rw [← hstart]
  apply (List.pairwise_cons.mp hplace.order).1 u hu

/-- Expressions stand in the order of their tokens. -/
theorem Spelled.stop_le_pos {e' : Expr} {vs' : List Token} (h : e.Spelled us) (h' : e'.Spelled vs')
    (hsub : vs' ⊆ vs) (hplace : InPlace cs (us ++ vs)) :
  e.stop ≤ e'.pos
  := by
  obtain ⟨t, ht, hstart⟩ := h'.exists_sourceStart
  rw [← hstart]
  apply h.stop_le hplace t (hsub ht)

/-- An expression takes up some text. -/
theorem Spelled.pos_lt_stop (h : e.Spelled us) (hplace : InPlace cs us) :
  e.pos < e.stop
  := by
  obtain ⟨last, hlast, hstop⟩ := h.exists_sourceStop hplace
  obtain ⟨t, us, rfl, hstart, hpos⟩ := h.exists_first
  have ht : t ∈ t :: us := List.mem_cons_self
  have hstr : t.kind ≠ .str := hstart.kind_ne (by simp)
  have hsize : 0 < t.text.utf8ByteSize := by
    apply Nat.pos_of_ne_zero
    intro hzero
    apply (hstart.isLexeme (hplace.proper t ht)).ne_nil
    rw [String.utf8ByteSize_eq_zero_iff.mp hzero]
    rfl
  have hfirst : t.sourceStop cs = t.stop := (hplace.written ht hstart.ne_times hstr).2
  have hlt : t.pos < t.stop := Nat.lt_add_of_pos_right hsize
  rw [← hpos, ← hstop]
  apply Nat.lt_of_lt_of_le (hfirst ▸ hlt)
  obtain rfl | hlast := List.mem_cons.mp hlast
  · exact Nat.le_refl _
  · have hle := (List.pairwise_cons.mp hplace.order).1 last hlast
    exact hle.trans (last.sourceStart_le_pos.trans (last.pos_le_sourceStop cs))

/-- The arguments of a call stand in order. -/
theorem SpelledArgs.pairwise :
  ∀ {args : List Expr} {ts : List Token}, SpelledArgs args ts → InPlace cs ts →
    args.Pairwise fun a b => a.stop ≤ b.pos
  | [], _, _, _ => List.Pairwise.nil
  | [_], _, _, _ => List.pairwise_singleton _ _
  | arg :: next :: args, _, ⟨us, pos, vs, harg, hargs, h⟩, hplace => by
      subst h
      apply List.pairwise_cons.mpr
      constructor
      · intro b hb
        obtain ⟨before, vs', behind, rfl, hvs'⟩ := hargs.exists_arg hb
        apply harg.stop_le_pos hvs' _ hplace
        intro t ht
        simp [ht]
      · apply SpelledArgs.pairwise hargs hplace.right.tail

/-- If the tokens of an expression are in their places, then so is the expression. -/
theorem Spelled.isPlaced (h : e.Spelled us) (hplace : InPlace cs us) :
  e.IsPlaced cs
  := by
  cases e with
  | bad => cases h
  | ident | literal =>
    subst h
    exact (hplace.written List.mem_cons_self rfl (by simp)).1
  | paren lparen body rparen =>
    obtain ⟨us, -, rfl⟩ := h
    constructor
    · exact (hplace.mark .lparen lparen "(" (by simp) (by decide)).1
    · exact (hplace.mark .rparen rparen ")" (by simp) (by decide)).1
  | index base lbrack subscript rbrack =>
    obtain ⟨us, vs, -, -, rfl⟩ := h
    constructor
    · exact (hplace.mark .lbracket lbrack "[" (by simp) (by decide)).1
    · exact (hplace.mark .rbracket rbrack "]" (by simp) (by decide)).1
  | call callee lparen args rparen =>
    obtain ⟨us, vs, -, -, rfl⟩ := h
    constructor
    · exact (hplace.mark .lparen lparen "(" (by simp) (by decide)).1
    · exact (hplace.mark .rparen rparen ")" (by simp) (by decide)).1
  | unary opPos sign operand =>
    obtain ⟨us, -, rfl⟩ := h
    exact (hplace.sign List.mem_cons_self).1
  | binary left opPos op right =>
    obtain ⟨us, vs, -, -, rfl⟩ := h
    have hop : ⟨.operator, opPos, op.symbol⟩ ∈ us ++ ⟨.operator, opPos, op.symbol⟩ :: vs := by simp
    cases hinserted : Token.isInserted cs ⟨.operator, opPos, op.symbol⟩ with
    | false =>
      left
      have hslice := hplace.text _ hop hinserted
      rwa [Token.stop, op.utf8ByteSize_symbol] at hslice
    | true =>
      right
      obtain ⟨-, htext, -⟩ := Token.isInserted_iff.mp hinserted
      exact ⟨Operator.symbol_injective htext, hplace.inserted _ hop hinserted⟩

/-- An expression between what opens and what closes something stands between the two. -/
theorem Spelled.between {kind kind' : Token.Kind} {opening closing : Nat} {symbol symbol' : String}
    (h : e.Spelled us) (hsub : us.Sublist vs)
    (hplace : InPlace cs (⟨kind, opening, symbol⟩ :: (vs ++ [⟨kind', closing, symbol'⟩])))
    (hmark : kind ≠ .operator ∧ kind ≠ .str ∧ symbol.utf8ByteSize = 1) (hkind' : kind' ≠ .str) :
  opening < e.pos ∧ e.stop ≤ closing
  := by
  constructor
  · have hopening := (hplace.mark _ _ _ List.mem_cons_self hmark).2
    apply Nat.lt_of_succ_le
    rw [Nat.succ_eq_add_one, ← hopening]
    apply h.le_pos (hplace.sublist _)
    apply (hsub.trans (List.sublist_append_left vs _)).cons_cons
  · have hclosing := h.stop_le (hplace.tail.sublist (hsub.append_right _)) _ List.mem_cons_self
    rwa [Token.sourceStart, if_neg hkind'] at hclosing

/-- If the tokens of an expression are in their places, then its parts come in order. -/
theorem Spelled.partsInOrder (h : e.Spelled us) (hplace : InPlace cs us) :
  e.PartsInOrder
  := by
  cases e with
  | bad | ident | literal => trivial
  | paren lparen body rparen =>
    obtain ⟨us, hbody, rfl⟩ := h
    exact hbody.between (List.Sublist.refl us) hplace (by decide) (by decide)
  | index base lbrack subscript rbrack =>
    obtain ⟨us, vs, hbase, hsubscript, rfl⟩ := h
    constructor
    · apply hbase.stop_le hplace ⟨.lbracket, lbrack, "["⟩ List.mem_cons_self
    · exact hsubscript.between (List.Sublist.refl vs) hplace.right (by decide) (by decide)
  | call callee lparen args rparen =>
    obtain ⟨us, vs, hcallee, hargs, rfl⟩ := h
    refine ⟨?_, ?_, ?_, hargs.pairwise hplace.right.tail.left⟩
    · apply hcallee.stop_le hplace ⟨.lparen, lparen, "("⟩ List.mem_cons_self
    · have hlparen := hplace.right.mark .lparen lparen "(" List.mem_cons_self (by decide)
      apply Nat.lt_of_succ_le
      rw [Nat.succ_eq_add_one, ← hlparen.2]
      apply (List.pairwise_cons.mp hplace.right.order).1 ⟨.rparen, rparen, ")"⟩
      simp
    · intro arg harg
      obtain ⟨before, ws, behind, rfl, hws⟩ := hargs.exists_arg harg
      apply hws.between _ hplace.right (by decide) (by decide)
      apply List.IsInfix.sublist ⟨before, behind, List.append_assoc ..⟩
  | unary opPos sign operand =>
    obtain ⟨us, hoperand, rfl⟩ := h
    apply Nat.lt_of_succ_le
    rw [Nat.succ_eq_add_one, ← (hplace.sign List.mem_cons_self).2]
    apply hoperand.le_pos hplace
  | binary left opPos op right =>
    obtain ⟨us, vs, hleft, hright, rfl⟩ := h
    constructor
    · apply hleft.stop_le hplace ⟨.operator, opPos, op.symbol⟩ List.mem_cons_self
    · apply (Token.pos_le_sourceStop cs ⟨.operator, opPos, op.symbol⟩).trans
      apply hright.le_pos hplace.right

/-- If the tokens of an expression are in their places, then the expression is ordered. -/
theorem Spelled.ordered (h : e.Spelled us) (hplace : InPlace cs us) :
  e.Ordered
  := by
  intro s hs
  obtain ⟨before, vs, behind, rfl, hvs⟩ := h.exists_node hs
  exact ⟨hvs.partsInOrder hplace.right.left, hvs.pos_lt_stop hplace.right.left⟩

/-- A node that is placed in a longer text, but stops where the text `cs` does or earlier, is placed
in `cs`. -/
theorem IsPlaced.of_append {s : Expr} {behind : List Char} (h : s.IsPlaced (cs ++ behind))
    (hordered : s.Ordered) (hstop : s.stop ≤ byteLength cs) :
  s.IsPlaced cs
  := by
  have hparts := (hordered s .root).1
  have hspan : ∀ c ∈ s.children, c.pos < c.stop := fun c hc => (hordered.child hc c .root).2
  have hcut {start stop : Nat} {part : List Char} (hle : stop ≤ s.stop)
      (hslice : slice? (cs ++ behind) start stop = some part) : slice? cs start stop = some part :=
    slice?_of_append_right hslice (hle.trans hstop)
  cases s with
  | bad => cases h
  | ident | literal => exact hcut (Nat.le_refl _) h
  | paren lparen body rparen =>
    have hbody := hspan body List.mem_cons_self
    have hlt : lparen + 1 ≤ rparen + 1 := by
      simp only [PartsInOrder] at hparts
      omega
    exact ⟨hcut hlt h.1, hcut (Nat.le_refl _) h.2⟩
  | index base lbrack subscript rbrack =>
    have hsubscript := hspan subscript (List.mem_cons_of_mem base List.mem_cons_self)
    have hlt : lbrack + 1 ≤ rbrack + 1 := by
      simp only [PartsInOrder] at hparts
      omega
    exact ⟨hcut hlt h.1, hcut (Nat.le_refl _) h.2⟩
  | call callee lparen args rparen =>
    have hlt : lparen + 1 ≤ rparen + 1 := Nat.succ_le_succ (Nat.le_of_lt hparts.2.1)
    exact ⟨hcut hlt h.1, hcut (Nat.le_refl _) h.2⟩
  | unary opPos sign operand =>
    have hoperand := hspan operand List.mem_cons_self
    have hle : opPos + 1 ≤ operand.stop := by
      simp only [PartsInOrder] at hparts
      omega
    exact hcut hle h
  | binary left opPos op right =>
    have hright := hspan right (List.mem_cons_of_mem left List.mem_cons_self)
    have hle : opPos + 1 ≤ right.stop := Nat.succ_le_of_lt (Nat.lt_of_le_of_lt hparts.2 hright)
    obtain hslice | ⟨hop, closing, rfl, hslice⟩ := h
    · exact .inl (hcut hle hslice)
    · exact .inr ⟨hop, closing, rfl, hcut hle hslice⟩

end Expr

/-! ### Accepted equations -/

/-- An expression whose tokens are among those of an equation stops where the equation does or
earlier. -/
theorem stop_le_of_spelled {eqn : String} {e : Expr} {before us behind : List Token}
    (h : equationTokens eqn = before ++ (us ++ behind)) (hspelled : e.Spelled us) :
  e.stop ≤ byteLength eqn.toList
  := by
  rw [equationTokens_eq_read] at h
  obtain ⟨ahead, part, c, rest, -, htext, -, hstop, -, hterminator, -⟩ :=
    exists_part_of_spelled h hspelled
  rw [← List.append_assoc, ← List.append_assoc] at htext
  obtain ⟨rest, heqn⟩ := exists_of_normalize htext hterminator
  rw [heqn, ← hstop, ← byteLength_append, ← List.append_assoc, byteLength_append _ rest]
  apply Nat.le_add_right

/-- The nodes of an accepted equation store the places of their parts, which come in order, and they
are nested like their places. -/
theorem parse_places_nodes {name eqn : String} {e s : Expr} (h : parse name eqn = .ok e)
    (hs : s.NodeOf e) :
  s.IsPlaced eqn.toList ∧ s.PartsInOrder ∧ s.pos < s.stop ∧ s.stop ≤ eqn.utf8ByteSize
    ∧ (∀ c ∈ s.children, s.pos ≤ c.pos ∧ c.stop ≤ s.stop)
    ∧ s.children.Pairwise fun a b => a.stop ≤ b.pos
  := by
  obtain ⟨-, ⟨us, semis, last, htokens, hspelled, -⟩, -⟩ := parse_eq_ok_iff.mp h
  obtain ⟨before, vs, behind, rfl, hvs⟩ := hspelled.exists_node hs
  rw [List.append_assoc, List.append_assoc] at htokens
  have hplace := inPlace_equationTokens eqn
  rw [htokens] at hplace
  have hordered := hvs.ordered hplace.right.left
  have hplaced := hvs.isPlaced hplace.right.left
  have hstop := stop_le_of_spelled htokens hvs
  obtain ⟨more, hmore⟩ := exists_append_of_normalize eqn
  rw [hmore] at hplaced
  obtain ⟨hparts, hspan⟩ := hordered s .root
  refine ⟨hplaced.of_append hordered hstop, hparts, hspan, ?_, hordered.children_inside,
    hparts.children_pairwise⟩
  rw [utf8ByteSize_eq_byteLength]
  exact hstop

/-- Between parens that stand side by side, the operator is placed at the second one. -/
theorem parse_places_inserted_operator :
  ∃ left right, parse "y" "(α + // a\nb)(c)" = .ok (.binary left 13 .mul right)
    ∧ (Expr.binary left 13 .mul right).IsPlaced "(α + // a\nb)(c)".toList
    ∧ left.stop ≤ 13 ∧ 13 ≤ right.pos
  := by
  have h : parse "y" "(α + // a\nb)(c)" = .ok (.binary
      (.paren 0 (.binary (.ident 1 "α") 4 .add (.ident 11 "b")) 12) 13 .mul
      (.paren 13 (.ident 14 "c") 15)) := by
    decide +kernel
  obtain ⟨hplaced, hparts, -⟩ := parse_places_nodes h .root
  exact ⟨_, _, h, hplaced, hparts⟩

end EquationLang
