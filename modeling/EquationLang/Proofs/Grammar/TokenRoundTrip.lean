import EquationLang.Proofs.Grammar.RoundTrip
import EquationLang.Proofs.Token.Coverage
import EquationLang.Proofs.Token.Margins

/-!
# Printing keeps the tokens

An equation that is accepted and what is printed of its expression have the same tokens, but for
those that end a statement (`print_keeps_tokens`).  Both are read without the terminator that is
added to an equation: what stands before it is read in the same way when it is missing
(`Cursor.significant_trailed`).
-/

namespace EquationLang

theorem significant_ended {semis : List Token} {last : Token} (hsemis : ∀ t ∈ semis, t.kind = .semi)
    (hlast : last.kind = .eof) :
  significant (semis ++ [last]) = []
  := by
  apply significant_eq_nil
  intro t ht
  obtain ht | ht := List.mem_append.mp ht
  · left
    apply hsemis t ht
  · right
    obtain rfl := List.mem_singleton.mp ht
    exact hlast

/-- If a text has no fault with blanks and terminators behind it, then it has none without them, and
the same significant tokens. -/
theorem Cursor.significant_trailed {k : Cursor} {cs : List Char} (hcs : IsTrailer cs)
    (h : (k.trailed cs).read.2 = none) :
  k.read.2 = none ∧ significant k.read.1 = significant (k.trailed cs).read.1
  := by
  have hself : k.trailed [] = k := congrArg (Cursor.mk k.offset k.canEnd) (List.append_nil k.rest)
  obtain ⟨ts, hread⟩ | ⟨ts, fault, hread⟩ := k.read_trailed
  · obtain ⟨semis, stop, hsemis, hnone⟩ := hread [] isTrailer_nil
    obtain ⟨semis', stop', hsemis', htrailed⟩ := hread cs hcs
    rw [hself] at hnone
    rw [hnone, htrailed]
    use rfl
    dsimp only
    rw [significant_append ts, significant_append ts, significant_ended hsemis rfl,
      significant_ended hsemis' rfl]
  · rw [hread cs hcs] at h
    cases h

/-- A text that is read, with blanks and terminators behind it, as the tokens of an expression has
the words of the expression also without them. -/
theorem significant_of_trailed {text : String} {cs : List Char} {e : Expr} (hcs : IsTrailer cs)
    (hfault : (Cursor.start (text.toList ++ cs)).read.2 = none)
    (htokens : significant (Cursor.start (text.toList ++ cs)).read.1 = e.lexemes) :
  (Lexer.ofText text).drain.2.hasErrors = false
    ∧ significant (Lexer.ofText text).drain.1 = e.lexemes
  := by
  obtain ⟨hnone, hsignificant⟩ := Cursor.significant_trailed (k := .start text.toList) hcs hfault
  rw [Lexer.hasErrors_drain, Lexer.drain_eq_read]
  exact ⟨hnone, hsignificant.trans htokens⟩

/-- The tokens of an equation are the words of its expression, and some that end a statement. -/
theorem IsEquation.significant_eq {e : Expr} {ts : List Token} (h : IsEquation e ts) :
  significant ts = e.lexemes
  := by
  obtain ⟨us, semis, last, rfl, hspelled, hsemis, -, hlast⟩ := h
  rw [significant_append, hspelled.significant_eq, significant_ended hsemis hlast, List.append_nil]

/-- The text of an accepted equation has the words of its expression. -/
theorem significant_of_parse {name eqn : String} {e : Expr} (h : parse name eqn = .ok e) :
  (Lexer.ofText eqn).drain.2.hasErrors = false
    ∧ significant (Lexer.ofText eqn).drain.1 = e.lexemes
  := by
  obtain ⟨hfaultless, hequation, -⟩ := parse_eq_ok_iff.mp h
  have hwords := hequation.significant_eq
  obtain ⟨cs, hcs, htext⟩ := exists_trailer_of_normalize eqn
  rw [isFaultless_iff, htext] at hfaultless
  rw [equationTokens_eq_read, htext] at hwords
  exact significant_of_trailed hcs hfaultless hwords

/-- What is printed of a canonical expression has the words of the expression. -/
theorem Expr.Canonical.significant_print {e : Expr} (h : e.Canonical) :
  (Lexer.ofText e.print).drain.2.hasErrors = false
    ∧ significant (Lexer.ofText e.print).drain.1 = e.lexemes
  := by
  obtain ⟨e', us, k, he', hus, hreads, hk⟩ := h.legible (.start (e.print.toList ++ [terminator]))
    terminator [] (by simp [Piece.closers]) rfl
  have hread := hreads.read_eq
  rw [show k = ⟨k.offset, k.canEnd, k.rest⟩ from rfl, hk, read_terminator] at hread
  apply significant_of_trailed isTrailer_terminator
  · rw [hread]
  · rw [hread, significant_append, hus.significant_eq, Expr.lexemes_eq_of_unplaced_eq he']
    apply List.append_nil

/-- An accepted equation and what is printed of its expression are both read without a fault, and
they have the same significant tokens. -/
theorem print_keeps_tokens {name eqn : String} {e : Expr} (h : parse name eqn = .ok e) :
  (Lexer.ofText eqn).drain.2.hasErrors = false
    ∧ (Lexer.ofText e.print).drain.2.hasErrors = false
    ∧ significant (Lexer.ofText eqn).drain.1 = significant (Lexer.ofText e.print).drain.1
  := by
  obtain ⟨hfaultless, htokens⟩ := significant_of_parse h
  obtain ⟨hfaultless', htokens'⟩ := (parse_eq_ok_iff.mp h).2.2.1.significant_print
  refine ⟨hfaultless, hfaultless', ?_⟩
  rw [htokens, htokens']

/-- An operator that is inserted is printed, and a number with a bare exponent mark does not swallow
the sign after it. -/
theorem print_keeps_inserted_operator :
  ∃ e, parse "y" "(a)(b) + // sum\n1e - -c[2];; // end" = .ok e
    ∧ e.print = "(a) * (b) + 1e - -c[2]"
    ∧ significant (Lexer.ofText "(a)(b) + // sum\n1e - -c[2];; // end").drain.1
      = significant (Lexer.ofText "(a) * (b) + 1e - -c[2]").drain.1
    ∧ (Lexer.ofText "(a) * (b) + 1e - -c[2]").drain.2.hasErrors = false
  := by
  have hparse : parse "y" "(a)(b) + // sum\n1e - -c[2];; // end" = .ok
      (.binary (.binary (.binary (.paren 0 (.ident 1 "a") 2) 3 .mul (.paren 3 (.ident 4 "b") 5)) 7
          .add (.literal 16 "1e")) 19 .sub
        (.unary 21 .negative (.index (.ident 22 "c") 23 (.literal 24 "2") 25))) := by
    decide +kernel
  obtain ⟨-, hfaultless, htokens⟩ := print_keeps_tokens hparse
  exact ⟨_, hparse, by decide, htokens, hfaultless⟩

end EquationLang
