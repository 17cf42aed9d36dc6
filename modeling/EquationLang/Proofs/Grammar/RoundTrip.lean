import EquationLang.Proofs.Expr.Lexemes
import EquationLang.Proofs.Grammar.Acceptance

/-!
# Printed expressions

The printed text of an expression is read as the same expression, up to positions, exactly if the
expression is canonical and not too deep.
-/

namespace EquationLang

theorem Operator.exists_mark (op : Operator) :
  ∃ c, op.symbol = String.singleton c ∧ punctuation? c = some .operator
  := by
  cases op
  · exact ⟨'+', rfl, rfl⟩
  · exact ⟨'-', rfl, rfl⟩
  · exact ⟨'*', rfl, rfl⟩
  · exact ⟨'/', rfl, rfl⟩
  · exact ⟨'^', rfl, rfl⟩

theorem Sign.exists_mark (sign : Sign) :
  ∃ c, sign.symbol = String.singleton c ∧ punctuation? c = some .operator ∧ c ≠ '/'
  := by
  cases sign
  · exact ⟨'+', rfl, rfl, by decide⟩
  · exact ⟨'-', rfl, rfl, by decide⟩

namespace Cursor

/-! ### Reading what is printed -/

theorem exists_reads_lexeme {k : Cursor} {kind : Token.Kind} {text : String} {rest : List Char}
    (hk : k.rest = text.toList ++ rest) (h : IsLexeme kind text.toList)
    (hstop : (Piece.lexeme kind text.toList).StopsBefore rest.head?)
    (hparen : kind = .rparen → rest.head? ≠ some '(') :
  ∃ pos k', k.Reads [⟨kind, pos, text⟩] k' ∧ k'.rest = rest
  := by
  have hreads := reads_lexeme h rest hstop hparen k.offset k.canEnd
  rw [← hk, String.ofList_toList] at hreads
  exact ⟨k.offset, _, hreads, rfl⟩

theorem exists_reads_mark {k : Cursor} {kind : Token.Kind} {c : Char} {rest : List Char}
    (hk : k.rest = c :: rest) (h : punctuation? c = some kind)
    (hslash : c = '/' → rest.head? ≠ some '/') (hparen : kind = .rparen → rest.head? ≠ some '(') :
  ∃ pos k', k.Reads [⟨kind, pos, String.singleton c⟩] k' ∧ k'.rest = rest
  := by
  have found := Piece.front?_of_punctuation? h hslash
  rw [← hk] at found
  have hreads := Reads.step found rfl (.done _)
  rw [Piece.tokens, if_neg (fun h => hparen h.1 h.2), ← String.singleton_eq_ofList] at hreads
  exact ⟨k.offset, _, hreads, rfl⟩

theorem exists_reads_blank {k : Cursor} {rest : List Char} (hk : k.rest = ' ' :: rest) :
  ∃ k', k.Reads [] k' ∧ k'.rest = rest
  := by
  have found : Piece.front? k.rest = some (.blank ' ', rest) := by
    rw [hk, Piece.front?_cons (by simp), Piece.frontAt_of_isBlank rfl]
  exact ⟨_, .step found rfl (.done _), rfl⟩

end Cursor

namespace Expr

/-- Before a closer, what is printed of the expression is read as the tokens of an expression that
differs from it in positions only. -/
def Legible (e : Expr) : Prop :=
  ∀ (k : Cursor) (c : Char) (cs : List Char), c ∈ Piece.closers →
    k.rest = e.print.toList ++ c :: cs →
    ∃ (e' : Expr) (us : List Token) (k' : Cursor), e'.unplaced = e.unplaced ∧ e'.Spelled us
      ∧ k.Reads us k' ∧ k'.rest = c :: cs

theorem head?_ne_of_mem_closers {c : Char} (hc : c ∈ Piece.closers) (cs : List Char) :
  (c :: cs).head? ≠ some '('
  := by
  simp only [Piece.closers, List.mem_cons, List.not_mem_nil, or_false] at hc
  obtain rfl | rfl | rfl | rfl | rfl := hc <;> simp [terminator]

theorem legible_ident {pos : Nat} {name : String} (h : IsName name.toList) :
  (ident pos name).Legible
  := by
  intro k c cs hc hk
  obtain ⟨pos', k', hreads, hk'⟩ := Cursor.exists_reads_lexeme hk (show IsLexeme .ident _ from h)
    (Piece.stopsBefore_of_mem_closers .ident _ hc) (by simp)
  exact ⟨ident pos' name, _, k', rfl, rfl, hreads, hk'⟩

theorem legible_literal {pos : Nat} {value : String} (h : IsNumeral value.toList) :
  (literal pos value).Legible
  := by
  intro k c cs hc hk
  obtain ⟨pos', k', hreads, hk'⟩ := Cursor.exists_reads_lexeme hk (show IsLexeme .num _ from h)
    (Piece.stopsBefore_of_mem_closers .num _ hc) (by simp)
  exact ⟨literal pos' value, _, k', rfl, rfl, hreads, hk'⟩

theorem Legible.paren {lparen rparen : Nat} {body : Expr} (h : body.Legible) :
  (paren lparen body rparen).Legible
  := by
  intro k c cs hc hk
  have hk : k.rest = '(' :: (body.print.toList ++ ')' :: c :: cs) := by
    rw [hk, print]
    simp
  obtain ⟨opening, k₁, hopening, hk₁⟩ := Cursor.exists_reads_mark hk rfl (by simp) (by simp)
  obtain ⟨body', us, k₂, hbody', hus, hbody, hk₂⟩ :=
    h k₁ ')' (c :: cs) (by simp [Piece.closers]) hk₁
  obtain ⟨closing, k₃, hclosing, hk₃⟩ := Cursor.exists_reads_mark hk₂ rfl (by simp)
    fun _ => head?_ne_of_mem_closers hc cs
  exact ⟨.paren opening body' closing, _, k₃, congrArg (Expr.paren 0 · 0) hbody', ⟨us, hus, rfl⟩,
    hopening.trans (hbody.trans hclosing), hk₃⟩

theorem Legible.unary {opPos : Nat} {sign : Sign} {operand : Expr} (h : operand.Legible) :
  (unary opPos sign operand).Legible
  := by
  intro k c cs hc hk
  obtain ⟨mark, hmark, hkind, hslash⟩ := sign.exists_mark
  have hk : k.rest = mark :: (operand.print.toList ++ c :: cs) := by
    rw [hk, print, hmark]
    simp
  obtain ⟨pos, k₁, hsign, hk₁⟩ := Cursor.exists_reads_mark hk hkind (absurd · hslash) (by simp)
  obtain ⟨operand', us, k₂, hoperand', hus, hoperand, hk₂⟩ := h k₁ c cs hc hk₁
  rw [← hmark] at hsign
  exact ⟨.unary pos sign operand', _, k₂, congrArg (Expr.unary 0 sign) hoperand', ⟨us, hus, rfl⟩,
    hsign.trans hoperand, hk₂⟩

theorem Legible.binary {left right : Expr} {opPos : Nat} {op : Operator} (hl : left.Legible)
    (hr : right.Legible) :
  (binary left opPos op right).Legible
  := by
  intro k c cs hc hk
  obtain ⟨mark, hmark, hkind⟩ := op.exists_mark
  have hk : k.rest = left.print.toList
      ++ ' ' :: mark :: ' ' :: (right.print.toList ++ c :: cs) := by
    rw [hk, print, hmark]
    simp
  obtain ⟨left', us, k₁, hleft', hus, hleft, hk₁⟩ := hl k ' ' _ (by simp [Piece.closers]) hk
  obtain ⟨k₂, hblank, hk₂⟩ := Cursor.exists_reads_blank hk₁
  obtain ⟨pos, k₃, hop, hk₃⟩ := Cursor.exists_reads_mark hk₂ hkind (by simp) (by simp)
  obtain ⟨k₄, hblank', hk₄⟩ := Cursor.exists_reads_blank hk₃
  obtain ⟨right', vs, k₅, hright', hvs, hright, hk₅⟩ := hr k₄ c cs hc hk₄
  rw [← hmark] at hop
  refine ⟨.binary left' pos op right', _, k₅, ?_, ⟨us, vs, hus, hvs, rfl⟩,
    hleft.trans (hblank.trans (hop.trans (hblank'.trans hright))), hk₅⟩
  apply congrArg₂ (Expr.binary · 0 op ·) hleft' hright'

theorem Legible.index {pos lbrack rbrack : Nat} {name : String} {subscript : Expr}
    (hname : IsName name.toList) (h : subscript.Legible) :
  (index (.ident pos name) lbrack subscript rbrack).Legible
  := by
  intro k c cs hc hk
  have hk : k.rest = name.toList ++ '[' :: (subscript.print.toList ++ ']' :: c :: cs) := by
    rw [hk, print, print]
    simp
  obtain ⟨pos', k₁, hbase, hk₁⟩ := Cursor.exists_reads_lexeme hk (show IsLexeme .ident _ from hname)
    (by simp [Piece.StopsBefore, isIdentContinue, punctuation?]) (by simp)
  obtain ⟨opening, k₂, hopening, hk₂⟩ := Cursor.exists_reads_mark hk₁ rfl (by simp) (by simp)
  obtain ⟨subscript', us, k₃, hsubscript', hus, hsubscript, hk₃⟩ :=
    h k₂ ']' (c :: cs) (by simp [Piece.closers]) hk₂
  obtain ⟨closing, k₄, hclosing, hk₄⟩ := Cursor.exists_reads_mark hk₃ rfl (by simp) (by simp)
  refine ⟨.index (.ident pos' name) opening subscript' closing, _, k₄, ?_,
    ⟨_, us, rfl, hus, rfl⟩, hbase.trans (hopening.trans (hsubscript.trans hclosing)), hk₄⟩
  apply congrArg (Expr.index (.ident 0 name) 0 · 0) hsubscript'

/-- What is printed of the arguments of a call is read as the tokens of arguments that differ from
them in positions only. -/
theorem exists_reads_printArgs {args : List Expr} (h : ∀ arg ∈ args, arg.Legible) {k : Cursor}
    {cs : List Char} (hk : k.rest = (printArgs args).toList ++ ')' :: cs) :
  ∃ args' us k', mapPosAll (fun _ => 0) args' = mapPosAll (fun _ => 0) args ∧ SpelledArgs args' us
    ∧ k.Reads us k' ∧ k'.rest = ')' :: cs
  := by
  induction args generalizing k with
  | nil => exact ⟨[], [], k, rfl, rfl, .done k, hk⟩
  | cons arg args ih =>
    have harg := h arg List.mem_cons_self
    cases args with
    | nil =>
      obtain ⟨arg', us, k', harg', hus, hreads, hk'⟩ := harg k ')' cs (by simp [Piece.closers]) hk
      exact ⟨[arg'], us, k', congrArg ([·]) harg', hus, hreads, hk'⟩
    | cons next args =>
      have hk : k.rest = arg.print.toList
          ++ ',' :: ' ' :: ((printArgs (next :: args)).toList ++ ')' :: cs) := by
        rw [hk, printArgs]
        simp
      obtain ⟨arg', us, k₁, harg', hus, hreads, hk₁⟩ := harg k ',' _ (by simp [Piece.closers]) hk
      obtain ⟨comma, k₂, hcomma, hk₂⟩ := Cursor.exists_reads_mark hk₁ rfl (by simp) (by simp)
      obtain ⟨k₃, hblank, hk₃⟩ := Cursor.exists_reads_blank hk₂
      obtain ⟨args', vs, k₄, hargs', hvs, hmore, hk₄⟩ :=
        ih (fun arg harg => h arg (List.mem_cons_of_mem _ harg)) hk₃
      cases args' with
      | nil => cases hargs'
      | cons next' args' =>
        refine ⟨arg' :: next' :: args', _, k₄, congrArg₂ List.cons harg' hargs',
          ⟨us, comma, vs, hus, hvs, rfl⟩, ?_, hk₄⟩
        apply hreads.trans (hcomma.trans (hblank.trans hmore))

theorem Legible.call {pos lparen rparen : Nat} {name : String} {args : List Expr}
    (hname : IsName name.toList) (h : ∀ arg ∈ args, arg.Legible) :
  (call (.ident pos name) lparen args rparen).Legible
  := by
  intro k c cs hc hk
  have hk : k.rest = name.toList ++ '(' :: ((printArgs args).toList ++ ')' :: c :: cs) := by
    rw [hk, print, print]
    simp
  obtain ⟨pos', k₁, hcallee, hk₁⟩ := Cursor.exists_reads_lexeme hk
    (show IsLexeme .ident _ from hname) (by simp [Piece.StopsBefore, isIdentContinue, punctuation?])
    (by simp)
  obtain ⟨opening, k₂, hopening, hk₂⟩ := Cursor.exists_reads_mark hk₁ rfl (by simp) (by simp)
  obtain ⟨args', us, k₃, hargs', hus, hargs, hk₃⟩ := exists_reads_printArgs h hk₂
  obtain ⟨closing, k₄, hclosing, hk₄⟩ := Cursor.exists_reads_mark hk₃ rfl (by simp)
    fun _ => head?_ne_of_mem_closers hc cs
  refine ⟨.call (.ident pos' name) opening args' closing, _, k₄, ?_, ⟨_, us, rfl, hus, rfl⟩,
    hcallee.trans (hopening.trans (hargs.trans hclosing)), hk₄⟩
  apply congrArg (Expr.call (.ident 0 name) 0 · 0) hargs'

/-- What is printed of a canonical expression can be read back. -/
theorem Canonical.legible {e : Expr} (h : e.Canonical) :
  e.Legible
  := by
  induction h with
  | ident hname => apply legible_ident hname
  | literal hvalue => apply legible_literal hvalue
  | paren _ ih => apply ih.paren
  | index hname _ ih => apply Legible.index hname ih
  | call hname _ ih => apply Legible.call hname ih
  | unary _ _ ih => apply ih.unary
  | binary _ _ _ _ _ ihl ihr => apply ihl.binary ihr

/-- What is printed of a canonical expression ends with a character that is neither a blank nor a
terminator. -/
theorem Canonical.exists_last_print {e : Expr} (h : e.Canonical) :
  ∃ cs c, e.print.toList = cs ++ [c] ∧ isBlank c = false ∧ c ≠ terminator
  := by
  induction h with
  | ident hname => apply IsLexeme.exists_last (show IsLexeme .ident _ from hname) rfl
  | literal hvalue => apply IsLexeme.exists_last (show IsLexeme .num _ from hvalue) rfl
  | paren =>
    rw [print, String.toList_append]
    exact ⟨_, ')', rfl, rfl, by simp [terminator]⟩
  | index =>
    rw [print, String.toList_append]
    exact ⟨_, ']', rfl, rfl, by simp [terminator]⟩
  | call =>
    rw [print, String.toList_append]
    exact ⟨_, ')', rfl, rfl, by simp [terminator]⟩
  | unary _ _ ih =>
    obtain ⟨cs, c, hcs, hlast⟩ := ih
    rw [print, String.toList_append, hcs, ← List.append_assoc]
    exact ⟨_, c, rfl, hlast⟩
  | binary _ _ _ _ _ _ ih =>
    obtain ⟨cs, c, hcs, hlast⟩ := ih
    rw [print, String.toList_append, hcs, ← List.append_assoc]
    exact ⟨_, c, rfl, hlast⟩

end Expr

/-- What is printed of a canonical expression that is not too deep is accepted, with an expression
that differs from it in positions only. -/
theorem exists_parse_print {name : String} {e : Expr} (h : e.Canonical)
    (hnest : e.nest ≤ maxNesting) :
  ∃ e', parse name e.print = .ok e' ∧ e'.unplaced = e.unplaced
  := by
  obtain ⟨cs, c, hcs, hblank, hterminator⟩ := h.exists_last_print
  obtain ⟨e', us, k, he', hus, hreads, hk⟩ := h.legible (.start (e.print.toList ++ [terminator]))
    terminator [] (by simp [Piece.closers]) rfl
  use e'
  constructor
  · rw [← String.ofList_toList (s := e.print), hcs]
    rw [hcs] at hreads
    apply parse_of_reads hblank hterminator hreads hk hus (h.of_unplaced_eq he')
    rw [Expr.nest_eq_of_unplaced_eq he']
    exact hnest
  · exact he'

/-- Printing and reading an expression gives it back, up to positions, exactly if it is canonical
and not too deep.  So what is printed of the expression of an accepted equation is accepted, with
the same expression up to positions and the same printed text. -/
theorem parse_print_iff_canonical :
  (∀ (name : String) (e : Expr), (∃ e', parse name e.print = .ok e' ∧ e'.unplaced = e.unplaced)
    ↔ e.Canonical ∧ e.nest ≤ maxNesting)
    ∧ ∀ name eqn e, parse name eqn = .ok e →
      ∃ e', parse name e.print = .ok e' ∧ e'.unplaced = e.unplaced ∧ e'.print = e.print
  := by
  have hcanonical {name eqn : String} {e : Expr} (h : parse name eqn = .ok e) :
      e.Canonical ∧ e.nest ≤ maxNesting := (parse_eq_ok_iff.mp h).2.2
  constructor
  · intro name e
    constructor
    · rintro ⟨e', h, he'⟩
      obtain ⟨hcanonical', hnest⟩ := hcanonical h
      rw [Expr.nest_eq_of_unplaced_eq he'] at hnest
      exact ⟨hcanonical'.of_unplaced_eq he'.symm, hnest⟩
    · rintro ⟨h, hnest⟩
      apply exists_parse_print h hnest
  · intro name eqn e h
    obtain ⟨h, hnest⟩ := hcanonical h
    obtain ⟨e', hparse, he'⟩ := exists_parse_print h hnest
    exact ⟨e', hparse, he', Expr.print_eq_of_unplaced_eq he'⟩

end EquationLang
