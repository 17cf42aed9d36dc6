import EquationLang.Expr.Basic
import EquationLang.Token.Basic
import Mathlib.Tactic.Common

/-!
# How expressions are written

`Expr.Spelled e ts` says that `ts` are the tokens of the expression `e`, in order and at the
positions that `e` stores; only the positions of the commas are not stored.  The first of these
tokens stands at `e.pos` and the last one ends at `e.stop`.  The tokens of a node of `e` are a
stretch of those of `e`, and moving all tokens moves the expression.
-/

namespace EquationLang

/-- The token with `f` applied to its position. -/
def Token.mapPos (f : Nat → Nat) (t : Token) : Token := { t with pos := f t.pos }

/-- The kind and the text of a token. -/
def Token.lexeme (t : Token) : Token.Kind × String := (t.kind, t.text)

/-- A token that an operand can start with: a name, a number, an opening paren or a sign. -/
def Token.StartsOperand (t : Token) : Prop :=
  t.kind = .ident ∨ t.kind = .num ∨ t.kind = .lparen
    ∨ ∃ sign : Sign, t.kind = .operator ∧ t.text = sign.symbol

theorem Token.StartsOperand.kind_ne {t : Token} (h : t.StartsOperand) {kind : Token.Kind}
    (hkind : kind = .rparen ∨ kind = .rbracket ∨ kind = .semi ∨ kind = .str ∨ kind = .eof) :
  t.kind ≠ kind
  := by
  obtain h | h | h | ⟨-, h, -⟩ := h <;> obtain rfl | rfl | rfl | rfl | rfl := hkind <;> simp [h]

theorem Token.StartsOperand.ne_times {t : Token} (h : t.StartsOperand) :
  t.isOp "*" = false
  := by
  obtain h | h | h | ⟨sign, h, htext⟩ := h
  · simp [isOp, h]
  · simp [isOp, h]
  · simp [isOp, h]
  · cases sign <;> simp [isOp, htext, Sign.symbol]

/-- A token that an operand can end with: a name, a number or something that closes. -/
def Token.EndsOperand (t : Token) : Prop :=
  t.kind = .ident ∨ t.kind = .num ∨ t.kind = .rparen ∨ t.kind = .rbracket

theorem Token.EndsOperand.canEndStatement {t : Token} (h : t.EndsOperand) :
  t.kind.canEndStatement ∧ t.kind ≠ .str
  := by
  obtain h | h | h | h := h <;> simp [h, Kind.canEndStatement_iff]

namespace Expr

mutual

/-- The expression with `f` applied to all positions it stores. -/
def mapPos (f : Nat → Nat) : Expr → Expr
  | bad start stop => bad (f start) (f stop)
  | ident pos name => ident (f pos) name
  | literal pos value => literal (f pos) value
  | paren lparen body rparen => paren (f lparen) (body.mapPos f) (f rparen)
  | index base lbrack subscript rbrack =>
    index (base.mapPos f) (f lbrack) (subscript.mapPos f) (f rbrack)
  | call callee lparen args rparen =>
    call (callee.mapPos f) (f lparen) (mapPosAll f args) (f rparen)
  | unary opPos sign operand => unary (f opPos) sign (operand.mapPos f)
  | binary left opPos op right => binary (left.mapPos f) (f opPos) op (right.mapPos f)

/-- The expressions with `f` applied to all positions they store. -/
def mapPosAll (f : Nat → Nat) : List Expr → List Expr
  | [] => []
  | e :: es => e.mapPos f :: mapPosAll f es

end

mutual

theorem mapPos_mapPos (f g : Nat → Nat) :
  (e : Expr) → (e.mapPos f).mapPos g = e.mapPos (g ∘ f)
  | bad .. | ident .. | literal .. => rfl
  | paren _ body _ => by
      rw [mapPos, mapPos, mapPos, mapPos_mapPos f g body]
      rfl
  | index base _ subscript _ => by
      rw [mapPos, mapPos, mapPos, mapPos_mapPos f g base, mapPos_mapPos f g subscript]
      rfl
  | call callee _ args _ => by
      rw [mapPos, mapPos, mapPos, mapPos_mapPos f g callee, mapPosAll_mapPosAll f g args]
      rfl
  | unary _ _ operand => by
      rw [mapPos, mapPos, mapPos, mapPos_mapPos f g operand]
      rfl
  | binary left _ _ right => by
      rw [mapPos, mapPos, mapPos, mapPos_mapPos f g left, mapPos_mapPos f g right]
      rfl

theorem mapPosAll_mapPosAll (f g : Nat → Nat) :
  (es : List Expr) → mapPosAll g (mapPosAll f es) = mapPosAll (g ∘ f) es
  | [] => rfl
  | e :: es => by
      rw [mapPosAll, mapPosAll, mapPosAll, mapPos_mapPos f g e, mapPosAll_mapPosAll f g es]

end

mutual

theorem mapPos_id :
  (e : Expr) → e.mapPos id = e
  | bad .. | ident .. | literal .. => rfl
  | paren _ body _ => by
      rw [mapPos, mapPos_id body]
      rfl
  | index base _ subscript _ => by
      rw [mapPos, mapPos_id base, mapPos_id subscript]
      rfl
  | call callee _ args _ => by
      rw [mapPos, mapPos_id callee, mapPosAll_id args]
      rfl
  | unary _ _ operand => by
      rw [mapPos, mapPos_id operand]
      rfl
  | binary left _ _ right => by
      rw [mapPos, mapPos_id left, mapPos_id right]
      rfl

theorem mapPosAll_id :
  (es : List Expr) → mapPosAll id es = es
  | [] => rfl
  | e :: es => by rw [mapPosAll, mapPos_id e, mapPosAll_id es]

end

theorem mapPosAll_eq_map (f : Nat → Nat) (es : List Expr) :
  mapPosAll f es = es.map (mapPos f)
  := by
  induction es with
  | nil => rfl
  | cons e es ih => rw [mapPosAll, ih, List.map_cons]

/-- The expression with all positions forgotten. -/
def unplaced (e : Expr) : Expr := e.mapPos fun _ => 0

theorem unplaced_mapPos (f : Nat → Nat) (e : Expr) :
  (e.mapPos f).unplaced = e.unplaced
  := mapPos_mapPos f (fun _ => 0) e

/-- The nodes of an expression: the expression itself, and the nodes of its children. -/
inductive NodeOf (s : Expr) : Expr → Prop where
  | root : NodeOf s s
  | inside {c e : Expr} (h : c ∈ e.children) (hs : NodeOf s c) : NodeOf s e

mutual

/-- The expression is written with the tokens `ts`. -/
def Spelled : Expr → List Token → Prop
  | bad .., _ => False
  | ident pos name, ts => ts = [⟨.ident, pos, name⟩]
  | literal pos value, ts => ts = [⟨.num, pos, value⟩]
  | paren lparen body rparen, ts =>
    ∃ us, body.Spelled us ∧ ts = ⟨.lparen, lparen, "("⟩ :: (us ++ [⟨.rparen, rparen, ")"⟩])
  | index base lbrack subscript rbrack, ts =>
    ∃ us vs, base.Spelled us ∧ subscript.Spelled vs
      ∧ ts = us ++ ⟨.lbracket, lbrack, "["⟩ :: (vs ++ [⟨.rbracket, rbrack, "]"⟩])
  | call callee lparen args rparen, ts =>
    ∃ us vs, callee.Spelled us ∧ SpelledArgs args vs
      ∧ ts = us ++ ⟨.lparen, lparen, "("⟩ :: (vs ++ [⟨.rparen, rparen, ")"⟩])
  | unary opPos sign operand, ts =>
    ∃ us, operand.Spelled us ∧ ts = ⟨.operator, opPos, sign.symbol⟩ :: us
  | binary left opPos op right, ts =>
    ∃ us vs, left.Spelled us ∧ right.Spelled vs
      ∧ ts = us ++ ⟨.operator, opPos, op.symbol⟩ :: vs

/-- The arguments are written with the tokens `ts`, separated by commas. -/
def SpelledArgs : List Expr → List Token → Prop
  | [], ts => ts = []
  | [arg], ts => arg.Spelled ts
  | arg :: next :: args, ts =>
    ∃ us pos vs, arg.Spelled us ∧ SpelledArgs (next :: args) vs
      ∧ ts = us ++ ⟨.operator, pos, ","⟩ :: vs

end

/-! ### The first and the last token -/

/-- The first token of an expression starts an operand, and stands where the expression starts. -/
theorem Spelled.exists_first :
  ∀ {e : Expr} {ts : List Token}, e.Spelled ts →
    ∃ t us, ts = t :: us ∧ t.StartsOperand ∧ t.pos = e.pos
  | ident .., _, h => ⟨_, [], h, .inl rfl, rfl⟩
  | literal .., _, h => ⟨_, [], h, .inr (.inl rfl), rfl⟩
  | paren .., _, ⟨_, _, h⟩ => ⟨_, _, h, .inr (.inr (.inl rfl)), rfl⟩
  | index .., _, ⟨_, _, hbase, _, h⟩ => by
      obtain ⟨t, us, rfl, hstart, hpos⟩ := hbase.exists_first
      exact ⟨t, _, h, hstart, hpos⟩
  | call .., _, ⟨_, _, hcallee, _, h⟩ => by
      obtain ⟨t, us, rfl, hstart, hpos⟩ := hcallee.exists_first
      exact ⟨t, _, h, hstart, hpos⟩
  | unary _ sign _, _, ⟨_, _, h⟩ => ⟨_, _, h, .inr (.inr (.inr ⟨sign, rfl, rfl⟩)), rfl⟩
  | binary .., _, ⟨_, _, hleft, _, h⟩ => by
      obtain ⟨t, us, rfl, hstart, hpos⟩ := hleft.exists_first
      exact ⟨t, _, h, hstart, hpos⟩

/-- Arguments are written with the tokens of the first one and then others. -/
theorem SpelledArgs.exists_head {arg : Expr} {args : List Expr} {ts : List Token}
    (h : SpelledArgs (arg :: args) ts) :
  ∃ us behind, ts = us ++ behind ∧ arg.Spelled us
  := by
  cases args with
  | nil => exact ⟨ts, [], (List.append_nil ts).symm, h⟩
  | cons next args =>
    obtain ⟨us, pos, vs, harg, -, rfl⟩ := h
    exact ⟨us, ⟨.operator, pos, ","⟩ :: vs, rfl, harg⟩

theorem SpelledArgs.exists_first {arg : Expr} {args : List Expr} {ts : List Token}
    (h : SpelledArgs (arg :: args) ts) :
  ∃ t us, ts = t :: us ∧ t.StartsOperand
  := by
  obtain ⟨_, behind, rfl, harg⟩ := h.exists_head
  obtain ⟨t, us, rfl, hstart, -⟩ := harg.exists_first
  exact ⟨t, us ++ behind, rfl, hstart⟩

/-- The last token of an expression ends an operand, and it ends where the expression ends. -/
theorem Spelled.exists_last :
  ∀ {e : Expr} {ts : List Token}, e.Spelled ts →
    ∃ us t, ts = us ++ [t] ∧ t.EndsOperand ∧ t.stop = e.stop
  | ident .., _, h => ⟨[], _, h, .inl rfl, rfl⟩
  | literal .., _, h => ⟨[], _, h, .inr (.inl rfl), rfl⟩
  | paren lparen _ rparen, _, ⟨us, _, h⟩ => by
      use ⟨.lparen, lparen, "("⟩ :: us, ⟨.rparen, rparen, ")"⟩, h, .inr (.inr (.inl rfl))
      rfl
  | index _ lbrack _ rbrack, _, ⟨us, vs, _, _, h⟩ => by
      use us ++ ⟨.lbracket, lbrack, "["⟩ :: vs, ⟨.rbracket, rbrack, "]"⟩
      exact ⟨by simpa using h, .inr (.inr (.inr rfl)), rfl⟩
  | call _ lparen _ rparen, _, ⟨us, vs, _, _, h⟩ => by
      use us ++ ⟨.lparen, lparen, "("⟩ :: vs, ⟨.rparen, rparen, ")"⟩
      exact ⟨by simpa using h, .inr (.inr (.inl rfl)), rfl⟩
  | unary .., _, ⟨_, hoperand, h⟩ => by
      obtain ⟨us, t, rfl, hend, hstop⟩ := hoperand.exists_last
      exact ⟨_ :: us, t, h, hend, hstop⟩
  | binary .., _, ⟨us, _, _, hright, h⟩ => by
      obtain ⟨vs, t, rfl, hend, hstop⟩ := hright.exists_last
      exact ⟨us ++ _ :: vs, t, by rw [h, List.append_assoc]; rfl, hend, hstop⟩

mutual

/-- No token of an expression marks the end of a text. -/
theorem Spelled.kind_ne_eof :
  ∀ {e : Expr} {ts : List Token}, e.Spelled ts → ∀ t ∈ ts, t.kind ≠ .eof
  | ident .., _, rfl => by simp
  | literal .., _, rfl => by simp
  | paren .., _, ⟨us, hbody, h⟩ => by
      rw [h, List.forall_mem_cons, List.forall_mem_append]
      exact ⟨by simp, hbody.kind_ne_eof, by simp⟩
  | index .., _, ⟨us, vs, hbase, hsubscript, h⟩ => by
      rw [h, List.forall_mem_append, List.forall_mem_cons, List.forall_mem_append]
      exact ⟨hbase.kind_ne_eof, by simp, hsubscript.kind_ne_eof, by simp⟩
  | call .., _, ⟨us, vs, hcallee, hargs, h⟩ => by
      rw [h, List.forall_mem_append, List.forall_mem_cons, List.forall_mem_append]
      exact ⟨hcallee.kind_ne_eof, by simp, spelledArgs_kind_ne_eof hargs, by simp⟩
  | unary .., _, ⟨us, hoperand, h⟩ => by
      rw [h, List.forall_mem_cons]
      exact ⟨by simp, hoperand.kind_ne_eof⟩
  | binary .., _, ⟨us, vs, hleft, hright, h⟩ => by
      rw [h, List.forall_mem_append, List.forall_mem_cons]
      exact ⟨hleft.kind_ne_eof, by simp, hright.kind_ne_eof⟩

theorem spelledArgs_kind_ne_eof :
  ∀ {args : List Expr} {ts : List Token}, SpelledArgs args ts → ∀ t ∈ ts, t.kind ≠ .eof
  | [], _, rfl => by simp
  | [_], _, h => Spelled.kind_ne_eof h
  | _ :: _ :: _, _, ⟨us, pos, vs, harg, hargs, h⟩ => by
      rw [h, List.forall_mem_append, List.forall_mem_cons]
      exact ⟨harg.kind_ne_eof, by simp, spelledArgs_kind_ne_eof hargs⟩

end

/-! ### Moving tokens -/

mutual

/-- Moving the tokens of an expression moves the expression. -/
theorem Spelled.mapPos (f : Nat → Nat) :
  ∀ {e : Expr} {ts : List Token}, e.Spelled ts → (e.mapPos f).Spelled (ts.map (Token.mapPos f))
  | ident .., _, rfl => rfl
  | literal .., _, rfl => rfl
  | paren .., _, ⟨us, hbody, h⟩ => by
      subst h
      use us.map (Token.mapPos f), hbody.mapPos f
      simp [Token.mapPos]
  | index .., _, ⟨us, vs, hbase, hsubscript, h⟩ => by
      subst h
      use us.map (Token.mapPos f), vs.map (Token.mapPos f), hbase.mapPos f, hsubscript.mapPos f
      simp [Token.mapPos]
  | call .., _, ⟨us, vs, hcallee, hargs, h⟩ => by
      subst h
      use us.map (Token.mapPos f), vs.map (Token.mapPos f), hcallee.mapPos f,
        spelledArgs_mapPos f hargs
      simp [Token.mapPos]
  | unary .., _, ⟨us, hoperand, h⟩ => by
      subst h
      use us.map (Token.mapPos f), hoperand.mapPos f
      rfl
  | binary .., _, ⟨us, vs, hleft, hright, h⟩ => by
      subst h
      use us.map (Token.mapPos f), vs.map (Token.mapPos f), hleft.mapPos f, hright.mapPos f
      simp [Token.mapPos]

theorem spelledArgs_mapPos (f : Nat → Nat) :
  ∀ {args : List Expr} {ts : List Token}, SpelledArgs args ts →
    SpelledArgs (mapPosAll f args) (ts.map (Token.mapPos f))
  | [], _, rfl => rfl
  | [_], _, h => Spelled.mapPos f h
  | _ :: _ :: _, _, ⟨us, pos, vs, harg, hargs, h⟩ => by
      subst h
      use us.map (Token.mapPos f), f pos, vs.map (Token.mapPos f), harg.mapPos f,
        spelledArgs_mapPos f hargs
      simp [Token.mapPos]

end

/-! ### Nodes -/

/-- The tokens of an argument are a stretch of those of all arguments. -/
theorem SpelledArgs.exists_arg :
  ∀ {args : List Expr} {ts : List Token} {arg : Expr}, SpelledArgs args ts → arg ∈ args →
    ∃ before us behind, ts = before ++ (us ++ behind) ∧ arg.Spelled us
  | [first], ts, arg, h, harg => by
      obtain rfl := List.mem_singleton.mp harg
      exact ⟨[], ts, [], by simp, h⟩
  | first :: next :: args, _, arg, ⟨us, pos, vs, hfirst, hargs, h⟩, harg => by
      subst h
      obtain rfl | harg := List.mem_cons.mp harg
      · exact ⟨[], us, ⟨.operator, pos, ","⟩ :: vs, rfl, hfirst⟩
      · obtain ⟨before, us', behind, rfl, hus'⟩ := SpelledArgs.exists_arg hargs harg
        use us ++ ⟨.operator, pos, ","⟩ :: before, us', behind
        exact ⟨by simp, hus'⟩

/-- The tokens of a child are a stretch of the tokens of its parent. -/
theorem Spelled.exists_child {e c : Expr} {ts : List Token} (h : e.Spelled ts)
    (hc : c ∈ e.children) :
  ∃ before us behind, ts = before ++ (us ++ behind) ∧ c.Spelled us
  := by
  cases e with
  | bad | ident | literal => cases hc
  | paren lparen body rparen =>
    obtain ⟨us, hbody, rfl⟩ := h
    obtain rfl := List.mem_singleton.mp hc
    exact ⟨[_], us, _, rfl, hbody⟩
  | index base lbrack subscript rbrack =>
    obtain ⟨us, vs, hbase, hsubscript, rfl⟩ := h
    obtain rfl | hc := List.mem_cons.mp hc
    · exact ⟨[], us, _, rfl, hbase⟩
    · obtain rfl := List.mem_singleton.mp hc
      exact ⟨us ++ [_], vs, _, List.append_cons us _ _, hsubscript⟩
  | call callee lparen args rparen =>
    obtain ⟨us, vs, hcallee, hargs, rfl⟩ := h
    obtain rfl | hc := List.mem_cons.mp hc
    · exact ⟨[], us, _, rfl, hcallee⟩
    · obtain ⟨before, us', behind, rfl, hc'⟩ := hargs.exists_arg hc
      use us ++ ⟨.lparen, lparen, "("⟩ :: before, us', behind ++ [⟨.rparen, rparen, ")"⟩]
      exact ⟨by simp, hc'⟩
  | unary opPos sign operand =>
    obtain ⟨us, hoperand, rfl⟩ := h
    obtain rfl := List.mem_singleton.mp hc
    exact ⟨[⟨.operator, opPos, sign.symbol⟩], us, [], by simp, hoperand⟩
  | binary left opPos op right =>
    obtain ⟨us, vs, hleft, hright, rfl⟩ := h
    obtain rfl | hc := List.mem_cons.mp hc
    · exact ⟨[], us, _, rfl, hleft⟩
    · obtain rfl := List.mem_singleton.mp hc
      exact ⟨us ++ [⟨.operator, opPos, op.symbol⟩], vs, [], by simp, hright⟩

/-- The tokens of a node are a stretch of the tokens of the expression. -/
theorem Spelled.exists_node {e s : Expr} {ts : List Token} (h : e.Spelled ts) (hs : s.NodeOf e) :
  ∃ before us behind, ts = before ++ (us ++ behind) ∧ s.Spelled us
  := by
  induction hs generalizing ts with
  | root => exact ⟨[], ts, [], by simp, h⟩
  | inside hc _ ih =>
    obtain ⟨before, us, behind, rfl, hus⟩ := h.exists_child hc
    obtain ⟨before', vs, behind', rfl, hvs⟩ := ih hus
    use before ++ before', vs, behind' ++ behind
    exact ⟨by simp, hvs⟩

end Expr

end EquationLang
