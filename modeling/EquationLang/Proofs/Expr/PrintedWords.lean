import EquationLang.Proofs.Grammar.TokenRoundTrip

/-!
# Printed expressions keep their words apart

Whatever the shape of an expression, the words it is printed with are read as they are: none is
split, and none is joined with the next one.  Only where a callee ends with a closing paren does the
reading insert an operator before the arguments (`tokens_of_printed`).

The text behind an expression decides how far its last word goes.  So what is printed of an
expression is read before a text that no word goes on with (`Follows`), and the words of that text
come after those of the expression (`Expr.IsPrinted`).
-/

namespace EquationLang

/-- The words `ws`, with the operator `*` between each closing paren and an opening one that is the
next word. -/
def juxtaposed : List (Token.Kind × String) → List (Token.Kind × String)
  | [] => []
  | w :: ws =>
    w :: if w.1 = .rparen ∧ ws.head?.map Prod.fst = some .lparen then
      (.operator, "*") :: juxtaposed ws
    else juxtaposed ws

/-- The expression has no node in place of one that could not be read, its names are those of
identifiers, and its literals are numbers. -/
inductive Expr.Writable : Expr → Prop where
  | ident {pos : Nat} {name : String} (hname : IsName name.toList) : Writable (ident pos name)
  | literal {pos : Nat} {value : String} (hvalue : IsNumeral value.toList) :
    Writable (literal pos value)
  | paren {lparen rparen : Nat} {body : Expr} (hbody : Writable body) :
    Writable (paren lparen body rparen)
  | index {lbrack rbrack : Nat} {base subscript : Expr} (hbase : Writable base)
      (hsubscript : Writable subscript) :
    Writable (index base lbrack subscript rbrack)
  | call {lparen rparen : Nat} {callee : Expr} {args : List Expr} (hcallee : Writable callee)
      (hargs : ∀ arg ∈ args, Writable arg) :
    Writable (call callee lparen args rparen)
  | unary {opPos : Nat} {sign : Sign} {operand : Expr} (hoperand : Writable operand) :
    Writable (unary opPos sign operand)
  | binary {opPos : Nat} {op : Operator} {left right : Expr} (hleft : Writable left)
      (hright : Writable right) :
    Writable (binary left opPos op right)

/-! ### Words in front of a text -/

/-- The text `cs` is read without a fault, as the words `ws` and the operators between parens. -/
def ReadsAs (cs : List Char) (ws : List (Token.Kind × String)) : Prop :=
  ∀ k : Cursor, k.rest = cs → k.read.2 = none ∧ significant k.read.1 = juxtaposed ws

theorem readsAs_nil :
  ReadsAs [] []
  := by
  intro k hk
  rw [Cursor.read_of_nil hk]
  use rfl
  apply significant_eq_nil
  intro t ht
  apply Cursor.kind_of_mem_closing ht

theorem ReadsAs.blank {cs : List Char} {ws : List (Token.Kind × String)} (h : ReadsAs cs ws) :
  ReadsAs (' ' :: cs) ws
  := by
  intro k hk
  have found : Piece.front? k.rest = some (.blank ' ', cs) := by
    rw [hk]
    exact Piece.front?_eq_some_iff.mpr ⟨rfl, rfl, trivial⟩
  rw [Cursor.read_of_piece found rfl]
  exact h _ rfl

/-- A word that stops before the text `cs` is read in front of it. -/
theorem ReadsAs.lexeme {cs : List Char} {ws : List (Token.Kind × String)} (h : ReadsAs cs ws)
    {kind : Token.Kind} {text : String} (hlexeme : IsLexeme kind text.toList)
    (hkind : kind ≠ .semi) (hstop : (Piece.lexeme kind text.toList).StopsBefore cs.head?)
    (hparen : kind = .rparen → (cs.head? = some '(' ↔ ws.head?.map Prod.fst = some .lparen)) :
  ReadsAs (text.toList ++ cs) ((kind, text) :: ws)
  := by
  intro k hk
  have found : Piece.front? k.rest = some (.lexeme kind text.toList, cs) :=
    Piece.front?_eq_some_iff.mpr ⟨hk, hlexeme, hstop⟩
  have heof : kind ≠ .eof := by
    rintro rfl
    cases hlexeme
  obtain ⟨hfault, hwords⟩ := h (k.after (.lexeme kind text.toList) cs) rfl
  rw [Cursor.read_of_piece found rfl]
  use hfault
  rw [significant_append, hwords, Piece.tokens, juxtaposed, String.ofList_toList]
  simp only [and_congr_right hparen]
  split <;> simp [significant, Token.lexeme, hkind, heof]

/-- A mark is read in front of a text; a slash must not be followed by another one. -/
theorem ReadsAs.mark {cs : List Char} {ws : List (Token.Kind × String)} (h : ReadsAs cs ws)
    {kind : Token.Kind} {c : Char} (hc : punctuation? c = some kind)
    (hslash : c = '/' → cs.head? ≠ some '/')
    (hparen : kind = .rparen → (cs.head? = some '(' ↔ ws.head?.map Prod.fst = some .lparen)) :
  ReadsAs (c :: cs) ((kind, String.singleton c) :: ws)
  := by
  have hlexeme := isLexeme_of_punctuation? hc
  have hstop := (Piece.wellFormed_of_front? (Piece.front?_of_punctuation? hc hslash)).2
  rw [← String.toList_singleton] at hlexeme hstop
  have hkind : kind ≠ .semi := by
    rintro rfl
    rw [punctuation?.eq_def] at hc
    split at hc <;> cases hc
  have hreads := h.lexeme hlexeme hkind hstop hparen
  rwa [String.toList_singleton] at hreads

/-! ### Words behind an expression -/

/-- No word goes on with the text `cs`, which starts with an opening paren exactly if this is the
first of the words `ws`. -/
structure Follows (cs : List Char) (ws : List (Token.Kind × String)) : Prop where
  stops : ∀ c ∈ cs.head?, isNumberPart c = false ∧ isIdentContinue c = false ∧ c ≠ '/'
  paren : cs.head? = some '(' ↔ ws.head?.map Prod.fst = some .lparen

theorem follows_nil :
  Follows [] []
  := by
  constructor <;> simp

theorem follows_blank (cs : List Char) {w : Token.Kind × String} (hw : w.1 ≠ .lparen)
    (ws : List (Token.Kind × String)) :
  Follows (' ' :: cs) (w :: ws)
  := by
  constructor
  · intro c hc
    obtain rfl := Option.mem_some.mp hc
    decide
  · simp [hw]

theorem follows_mark {kind : Token.Kind} {c : Char} (hc : punctuation? c = some kind)
    (hclass : isNumberPart c = false ∧ c ≠ '/') (cs : List Char) (text : String)
    (ws : List (Token.Kind × String)) :
  Follows (c :: cs) ((kind, text) :: ws)
  := by
  constructor
  · intro d hd
    obtain rfl := Option.mem_some.mp hd
    refine ⟨hclass.1, ?_, hclass.2⟩
    simp [isIdentContinue, hc]
  · simp only [List.head?_cons, Option.some.injEq, Option.map_some]
    constructor
    · rintro rfl
      exact (Option.some.inj hc).symm
    · rintro rfl
      apply punctuation?_injective hc rfl (by simp)

namespace Expr

/-- In front of a text that no word goes on with, what is printed of the expression is read as its
words. -/
def IsPrinted (e : Expr) : Prop :=
  ∀ (cs : List Char) (ws : List (Token.Kind × String)), Follows cs ws → ReadsAs cs ws →
    ReadsAs (e.print.toList ++ cs) (e.lexemes ++ ws)

theorem isPrinted_ident {pos : Nat} {name : String} (h : IsName name.toList) :
  (ident pos name).IsPrinted
  := by
  intro cs ws hfollows hcs
  have hlexeme : IsLexeme .ident name.toList := h
  apply hcs.lexeme hlexeme (by simp) (Piece.stopsBefore_of_class _ _ hfollows.stops) (by simp)

theorem isPrinted_literal {pos : Nat} {value : String} (h : IsNumeral value.toList) :
  (literal pos value).IsPrinted
  := by
  intro cs ws hfollows hcs
  have hlexeme : IsLexeme .num value.toList := h
  apply hcs.lexeme hlexeme (by simp) (Piece.stopsBefore_of_class _ _ hfollows.stops) (by simp)

theorem IsPrinted.paren {lparen rparen : Nat} {body : Expr} (h : body.IsPrinted) :
  (paren lparen body rparen).IsPrinted
  := by
  intro cs ws hfollows hcs
  have hclosing := hcs.mark (c := ')') rfl (by simp) fun _ => hfollows.paren
  have hbody := h _ _ (follows_mark rfl (by decide) cs _ ws) hclosing
  have hopening := hbody.mark (c := '(') rfl (by simp) (by simp)
  simpa [print, lexemes] using hopening

theorem IsPrinted.index {lbrack rbrack : Nat} {base subscript : Expr} (h : base.IsPrinted)
    (h' : subscript.IsPrinted) :
  (index base lbrack subscript rbrack).IsPrinted
  := by
  intro cs ws hfollows hcs
  have hclosing := hcs.mark (c := ']') rfl (by simp) (by simp)
  have hsubscript := h' _ _ (follows_mark rfl (by decide) cs _ ws) hclosing
  have hopening := hsubscript.mark (c := '[') rfl (by simp) (by simp)
  have hbase := h _ _ (follows_mark rfl (by decide) _ _ _) hopening
  simpa [print, lexemes] using hbase

theorem IsPrinted.unary {opPos : Nat} {sign : Sign} {operand : Expr} (h : operand.IsPrinted) :
  (unary opPos sign operand).IsPrinted
  := by
  intro cs ws hfollows hcs
  obtain ⟨c, hsymbol, hc, hslash⟩ := sign.exists_mark
  have hsign := (h cs ws hfollows hcs).mark hc (absurd · hslash) (by simp)
  simpa [print, lexemes, hsymbol] using hsign

theorem IsPrinted.binary {opPos : Nat} {op : Operator} {left right : Expr} (h : left.IsPrinted)
    (h' : right.IsPrinted) :
  (binary left opPos op right).IsPrinted
  := by
  intro cs ws hfollows hcs
  obtain ⟨c, hsymbol, hc⟩ := op.exists_mark
  have hop := (h' cs ws hfollows hcs).blank.mark hc (by simp) (by simp)
  have hleft := h _ _ (follows_blank _ (by simp) _) hop.blank
  simpa [print, lexemes, hsymbol] using hleft

/-- The arguments of a call are read as their words. -/
theorem readsAs_printArgs {args : List Expr} (h : ∀ arg ∈ args, arg.IsPrinted) {cs : List Char}
    {ws : List (Token.Kind × String)} (hfollows : Follows cs ws) (hcs : ReadsAs cs ws) :
  ReadsAs ((printArgs args).toList ++ cs) (lexemesArgs args ++ ws)
  := by
  induction args with
  | nil => exact hcs
  | cons arg args ih =>
    cases args with
    | nil => apply h arg List.mem_cons_self cs ws hfollows hcs
    | cons next args =>
      have hargs := ih fun a ha => h a (List.mem_cons_of_mem _ ha)
      have hcomma := hargs.blank.mark (c := ',') rfl (by simp) (by simp)
      have harg := h arg List.mem_cons_self _ _ (follows_mark rfl (by decide) _ _ _) hcomma
      simpa [printArgs, lexemesArgs] using harg

theorem IsPrinted.call {lparen rparen : Nat} {callee : Expr} {args : List Expr}
    (h : callee.IsPrinted) (h' : ∀ arg ∈ args, arg.IsPrinted) :
  (call callee lparen args rparen).IsPrinted
  := by
  intro cs ws hfollows hcs
  have hclosing := hcs.mark (c := ')') rfl (by simp) fun _ => hfollows.paren
  have hargs := readsAs_printArgs h' (follows_mark rfl (by decide) cs _ ws) hclosing
  have hopening := hargs.mark (c := '(') rfl (by simp) (by simp)
  have hcallee := h _ _ (follows_mark rfl (by decide) _ _ _) hopening
  simpa [print, lexemes] using hcallee

theorem Writable.isPrinted {e : Expr} (h : e.Writable) :
  e.IsPrinted
  := by
  induction h with
  | ident hname => apply isPrinted_ident hname
  | literal hvalue => apply isPrinted_literal hvalue
  | paren _ ih => apply ih.paren
  | index _ _ ih ih' => apply ih.index ih'
  | call _ _ ih ih' => apply ih.call ih'
  | unary _ ih => apply ih.unary
  | binary _ _ ih ih' => apply ih.binary ih'

end Expr

/-- What is printed of an expression is read without a fault, and its words are those of the
expression, with an operator between a callee that ends with a closing paren and the paren before
the arguments. -/
theorem tokens_of_printed {e : Expr} (h : e.Writable) :
  (Lexer.ofText e.print).drain.2.hasErrors = false
    ∧ significant (Lexer.ofText e.print).drain.1 = juxtaposed e.lexemes
  := by
  have hreads := h.isPrinted [] [] follows_nil readsAs_nil
  rw [List.append_nil, List.append_nil] at hreads
  rw [Lexer.hasErrors_drain, Lexer.drain_eq_read]
  exact hreads (.start e.print.toList) rfl

/-- A callee in parens, a number with a bare exponent mark before a closing paren, and a quotient
with a signed divisor. -/
theorem tokens_of_printed_call :
  ∃ e : Expr, e.Writable ∧ e.print = "(-1e)(b, f()[2] / -c)"
    ∧ (Lexer.ofText "(-1e)(b, f()[2] / -c)").drain.2.hasErrors = false
    ∧ significant (Lexer.ofText "(-1e)(b, f()[2] / -c)").drain.1
      = [(.lparen, "("), (.operator, "-"), (.num, "1e"), (.rparen, ")"), (.operator, "*"),
        (.lparen, "("), (.ident, "b"), (.operator, ","), (.ident, "f"), (.lparen, "("),
        (.rparen, ")"), (.lbracket, "["), (.num, "2"), (.rbracket, "]"), (.operator, "/"),
        (.operator, "-"), (.ident, "c"), (.rparen, ")")]
  := by
  have hlexeme (kind : Token.Kind) (text : String)
      (found : Piece.front? text.toList = some (.lexeme kind text.toList, [])) :
      IsLexeme kind text.toList := (Piece.wellFormed_of_front? found).1
  have hwritable : Expr.Writable
      (.call (.paren 0 (.unary 1 .negative (.literal 2 "1e")) 4) 5
        [.ident 6 "b", .binary
          (.index (.call (.ident 9 "f") 10 [] 11) 12 (.literal 13 "2") 14) 16 .div
          (.unary 18 .negative (.ident 19 "c"))] 20) := by
    refine .call (.paren (.unary (.literal (hlexeme .num "1e" (by decide))))) ?_
    intro arg harg
    obtain rfl | harg := List.mem_cons.mp harg
    · exact .ident (hlexeme .ident "b" (by decide))
    obtain rfl := List.mem_singleton.mp harg
    exact .binary
      (.index (.call (.ident (hlexeme .ident "f" (by decide))) (by simp))
        (.literal (hlexeme .num "2" (by decide))))
      (.unary (.ident (hlexeme .ident "c" (by decide))))
  obtain ⟨hfaultless, hwords⟩ := tokens_of_printed hwritable
  exact ⟨_, hwritable, by decide, hfaultless, hwords.trans (by decide)⟩

end EquationLang
