import EquationLang.Expr.Printer
import EquationLang.Proofs.Expr.Spelling

/-!
# The words of an expression

`Expr.lexemes` are the kinds and the texts of the tokens that an expression is written with
(`Expr.Spelled.significant_eq`).  They do not depend on where the tokens stand, and neither does
what is printed of the expression.
-/

namespace EquationLang

/-- The kinds and the texts of the tokens, without those that end a statement or the text. -/
def significant (ts : List Token) : List (Token.Kind × String) :=
  (ts.filter fun t => t.kind ≠ .semi ∧ t.kind ≠ .eof).map Token.lexeme

theorem significant_append (ts us : List Token) :
  significant (ts ++ us) = significant ts ++ significant us
  := by
  rw [significant, List.filter_append, List.map_append]
  rfl

theorem significant_cons (t : Token) (ts : List Token) :
  significant (t :: ts) = significant [t] ++ significant ts
  := significant_append [t] ts

theorem significant_eq_nil {ts : List Token} (h : ∀ t ∈ ts, t.kind = .semi ∨ t.kind = .eof) :
  significant ts = []
  := by
  rw [significant, List.map_eq_nil_iff, List.filter_eq_nil_iff]
  intro t ht
  obtain h | h := h t ht <;> simp [h]

namespace Expr

mutual

/-- The kinds and the texts of the tokens that the expression is written with. -/
def lexemes : Expr → List (Token.Kind × String)
  | bad .. => []
  | ident _ name => [(.ident, name)]
  | literal _ value => [(.num, value)]
  | paren _ body _ => (.lparen, "(") :: (body.lexemes ++ [(.rparen, ")")])
  | index base _ subscript _ =>
    base.lexemes ++ (.lbracket, "[") :: (subscript.lexemes ++ [(.rbracket, "]")])
  | call callee _ args _ =>
    callee.lexemes ++ (.lparen, "(") :: (lexemesArgs args ++ [(.rparen, ")")])
  | unary _ sign operand => (.operator, sign.symbol) :: operand.lexemes
  | binary left _ op right => left.lexemes ++ (.operator, op.symbol) :: right.lexemes

/-- The kinds and the texts of the tokens that the arguments are written with. -/
def lexemesArgs : List Expr → List (Token.Kind × String)
  | [] => []
  | [arg] => arg.lexemes
  | arg :: next :: args => arg.lexemes ++ (.operator, ",") :: lexemesArgs (next :: args)

end

mutual

/-- All tokens of an expression are significant, and they are its words. -/
theorem Spelled.significant_eq :
  ∀ {e : Expr} {ts : List Token}, e.Spelled ts → significant ts = e.lexemes
  | ident .., _, rfl => rfl
  | literal .., _, rfl => rfl
  | paren .., _, ⟨us, hbody, h⟩ => by
      rw [h, significant_cons, significant_append, hbody.significant_eq]
      rfl
  | index .., _, ⟨us, vs, hbase, hsubscript, h⟩ => by
      rw [h, significant_append, significant_cons, significant_append, hbase.significant_eq,
        hsubscript.significant_eq]
      rfl
  | call .., _, ⟨us, vs, hcallee, hargs, h⟩ => by
      rw [h, significant_append, significant_cons, significant_append, hcallee.significant_eq,
        spelledArgs_significant_eq hargs]
      rfl
  | unary .., _, ⟨us, hoperand, h⟩ => by
      rw [h, significant_cons, hoperand.significant_eq]
      rfl
  | binary .., _, ⟨us, vs, hleft, hright, h⟩ => by
      rw [h, significant_append, significant_cons, hleft.significant_eq, hright.significant_eq]
      rfl

theorem spelledArgs_significant_eq :
  ∀ {args : List Expr} {ts : List Token}, SpelledArgs args ts →
    significant ts = lexemesArgs args
  | [], _, rfl => rfl
  | [_], _, h => Spelled.significant_eq h
  | _ :: _ :: _, _, ⟨us, pos, vs, harg, hargs, h⟩ => by
      rw [h, significant_append, significant_cons, harg.significant_eq,
        spelledArgs_significant_eq hargs]
      rfl

end

mutual

theorem lexemes_mapPos (f : Nat → Nat) :
  (e : Expr) → (e.mapPos f).lexemes = e.lexemes
  | bad .. | ident .. | literal .. => rfl
  | paren _ body _ => by rw [mapPos, lexemes, lexemes, lexemes_mapPos f body]
  | index base _ subscript _ => by
      rw [mapPos, lexemes, lexemes, lexemes_mapPos f base, lexemes_mapPos f subscript]
  | call callee _ args _ => by
      rw [mapPos, lexemes, lexemes, lexemes_mapPos f callee, lexemesArgs_mapPosAll f args]
  | unary _ _ operand => by rw [mapPos, lexemes, lexemes, lexemes_mapPos f operand]
  | binary left _ _ right => by
      rw [mapPos, lexemes, lexemes, lexemes_mapPos f left, lexemes_mapPos f right]

theorem lexemesArgs_mapPosAll (f : Nat → Nat) :
  (args : List Expr) → lexemesArgs (mapPosAll f args) = lexemesArgs args
  | [] => rfl
  | [arg] => lexemes_mapPos f arg
  | arg :: next :: args => by
      rw [mapPosAll, mapPosAll, lexemesArgs, lexemesArgs, lexemes_mapPos f arg,
        ← lexemesArgs_mapPosAll f (next :: args), mapPosAll]

end

/-- Expressions that differ in positions only have the same words. -/
theorem lexemes_eq_of_unplaced_eq {e e' : Expr} (h : e'.unplaced = e.unplaced) :
  e'.lexemes = e.lexemes
  := by
  rw [← lexemes_mapPos (fun _ => 0) e', ← lexemes_mapPos (fun _ => 0) e]
  apply congrArg lexemes h

mutual

theorem print_mapPos (f : Nat → Nat) :
  (e : Expr) → (e.mapPos f).print = e.print
  | bad .. | ident .. | literal .. => rfl
  | paren _ body _ => by rw [mapPos, print, print, print_mapPos f body]
  | index base _ subscript _ => by
      rw [mapPos, print, print, print_mapPos f base, print_mapPos f subscript]
  | call callee _ args _ => by
      rw [mapPos, print, print, print_mapPos f callee, printArgs_mapPosAll f args]
  | unary _ _ operand => by rw [mapPos, print, print, print_mapPos f operand]
  | binary left _ _ right => by
      rw [mapPos, print, print, print_mapPos f left, print_mapPos f right]

theorem printArgs_mapPosAll (f : Nat → Nat) :
  (args : List Expr) → printArgs (mapPosAll f args) = printArgs args
  | [] => rfl
  | [arg] => print_mapPos f arg
  | arg :: next :: args => by
      rw [mapPosAll, mapPosAll, printArgs, printArgs, print_mapPos f arg,
        ← printArgs_mapPosAll f (next :: args), mapPosAll]

end

/-- What is printed of an expression does not depend on positions. -/
theorem print_eq_of_unplaced_eq {e e' : Expr} (h : e'.unplaced = e.unplaced) :
  e'.print = e.print
  := by
  rw [← print_mapPos (fun _ => 0) e', ← print_mapPos (fun _ => 0) e]
  apply congrArg print h

end Expr

end EquationLang
