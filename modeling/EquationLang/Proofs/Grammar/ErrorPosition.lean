import EquationLang.Proofs.Diagnostic.Sorted
import EquationLang.Proofs.Grammar.SingleDiagnostic
import EquationLang.Proofs.Token.Answers

/-!
# Positions are those in the whole text

A position that is asked for while a text is being read is already the one in the whole text, if it
is the position of a token that has been handed out; and so are the positions of the diagnostics of
an equation (`positions_in_text`).
-/

namespace EquationLang

/-- The faults of the characters of an equation are reported where they are in its text. -/
theorem positionIn?_of_mem_lexicalErrors {eqn : String} {d : Diagnostic}
    (h : d ∈ lexicalErrors eqn) :
  positionIn? (normalize eqn).toList d.pos.offset = some d.pos
  := by
  rw [lexicalErrors, Lexer.toList_errors_drain] at h
  apply Lexer.positionIn?_of_mem_faultsOf h

/-- What the grammar has to say about a token is reported where the token is in the text. -/
theorem positionIn?_of_mem_equationTokens {eqn : String} {t : Token}
    (h : t ∈ equationTokens eqn) :
  positionIn? (normalize eqn).toList t.pos = some (equationPosition eqn t.pos)
  := by
  have hfollows := Lexer.follows_ofText (normalize eqn)
  apply hfollows.drain.positionIn?_eq (hfollows.hasPassed_drain h)

/-- The diagnostics of an equation are about its characters, or what the grammar has to say about a
token. -/
theorem mem_diagnostics {name eqn : String} {err : ParseError} (h : parse name eqn = .error err) :
  err.text = normalize eqn ∧ ∀ d ∈ err.diagnostics, d ∈ lexicalErrors eqn
    ∨ ∃ (fault : Fault), fault.found ∈ equationTokens eqn
      ∧ d = fault.diagnose (equationPosition eqn)
  := by
  cases hequation : equation (equationTokens eqn) with
  | ok e =>
    rw [parse_of_ok hequation] at h
    split at h
    · cases h
    · cases h
      use rfl
      intro d hd
      left
      apply Diagnostics.sorted_subset _ hd
  | error failure =>
    obtain ⟨before, t, behind, htokens, -, hmisfit⟩ := exists_misfit_of_text hequation
    rw [parse_of_error hequation] at h
    cases h
    use rfl
    intro d hd
    obtain hd | hd := List.mem_append.mp (Diagnostics.sorted_subset _ hd)
    · split at hd
      · exact .inl hd
      · cases hd
    · obtain ⟨fault, hfault, rfl⟩ := List.mem_map.mp hd
      right
      use fault
      rw [hmisfit.found fault hfault, htokens]
      exact ⟨List.mem_append_right _ List.mem_cons_self, rfl⟩

theorem positionIn?_of_mem_diagnostics {name eqn : String} {err : ParseError}
    (h : parse name eqn = .error err) {d : Diagnostic} (hd : d ∈ err.diagnostics) :
  positionIn? (normalize eqn).toList d.pos.offset = some d.pos
  := by
  obtain hd | ⟨fault, hfound, rfl⟩ := (mem_diagnostics h).2 d hd
  · apply positionIn?_of_mem_lexicalErrors hd
  · have hposition := positionIn?_of_mem_equationTokens hfound
    change positionIn? _ (equationPosition eqn fault.found.pos).offset = _
    rw [offset_of_positionIn? hposition]
    exact hposition

/-- The lexer tells the position of a diagnostic already where the reading of the equation stops. -/
theorem resolve_lexerAtStop {name eqn : String} {err : ParseError}
    (h : parse name eqn = .error err) {d : Diagnostic} (hd : d ∈ err.diagnostics) :
  (lexerAtStop eqn).peek.2.resolve d.pos.offset = d.pos
  := by
  obtain ⟨d', hd', hstands⟩ := exists_standsAtStop h
  rw [hd'] at hd
  obtain rfl := List.mem_singleton.mp hd
  have hfollows : (lexerAtStop eqn).Follows (normalize eqn) [] :=
    (Lexer.follows_ofText (normalize eqn)).skip (tokensTaken eqn)
  have hpassed : (lexerAtStop eqn).peek.2.HasPassed d.pos.offset := by
    rw [hstands.offset]
    apply hfollows.placed.hasPassed_call (c := .peek) List.mem_cons_self
  have hpeek : (lexerAtStop eqn).peek.2.Follows (normalize eqn) [] := hfollows.scan
  apply Option.some.inj
  rw [← hpeek.positionIn?_eq hpassed]
  apply positionIn?_of_mem_diagnostics h
  rw [hd']
  apply List.mem_cons_self

/-- The position of a token that has been handed out is the one in the whole text and stays so when
the lexer reads on.  The text of a parse error is the one with the terminator, and its diagnostics
are at their positions in it, which the lexer tells already where the reading stops. -/
theorem positions_in_text :
  (∀ (text : String) (calls : List Lexer.Call),
      ∀ t ∈ ((Lexer.ofText text).answers calls).flatMap Lexer.Answer.tokens,
        positionIn? text.toList t.pos = some (((Lexer.ofText text).after calls).resolve t.pos)
          ∧ ∀ more, (((Lexer.ofText text).after calls).after more).resolve t.pos
            = ((Lexer.ofText text).after calls).resolve t.pos)
    ∧ ∀ (name eqn : String) (err : ParseError), parse name eqn = .error err →
      err.text = normalize eqn
        ∧ ∀ d ∈ err.diagnostics, d.pos.offset ≤ err.text.utf8ByteSize
          ∧ positionIn? err.text.toList d.pos.offset = some d.pos
          ∧ (lexerAtStop eqn).peek.2.resolve d.pos.offset = d.pos
  := by
  constructor
  · intro text calls t ht
    have hfollows := Lexer.follows_ofText text
    have hpassed := hfollows.hasPassed_after ht
    have hposition := (hfollows.after calls).positionIn?_eq hpassed
    use hposition
    intro more
    apply Option.some.inj
    rw [← hposition, ← ((hfollows.after calls).after more).positionIn?_eq (hpassed.after more)]
  · intro name eqn err h
    have htext := (mem_diagnostics h).1
    use htext
    intro d hd
    have hposition := positionIn?_of_mem_diagnostics h hd
    rw [htext]
    exact ⟨le_of_positionIn? hposition, hposition, resolve_lexerAtStop h hd⟩

/-- A string literal that is not closed starts a line before the place that has been read. -/
theorem positions_at_unclosed_literal :
  ∃ l, l = (Lexer.ofText "a\n\"b\nc").after [.next, .next, .peek] ∧ l.offset = 6
    ∧ positionIn? "a\n\"b\nc".toList 2 = some (l.resolve 2) ∧ l.resolve 2 = ⟨2, 2, 1⟩
    ∧ ∃ err d, parse "y" "a +\n \"b\nc" = .error err ∧ err.diagnostics = [d]
      ∧ d.code = .unclosedStringLiteral ∧ d.pos = ⟨5, 2, 2⟩
      ∧ positionIn? err.text.toList 5 = some d.pos
      ∧ (lexerAtStop "a +\n \"b\nc").peek.2.resolve 5 = d.pos
  := by
  have hmem : Token.endOfText 2
      ∈ ((Lexer.ofText "a\n\"b\nc").answers [.next, .next, .peek]).flatMap Lexer.Answer.tokens := by
    decide +kernel
  have herror : parse "y" "a +\n \"b\nc" = .error ⟨"y", "a +\n \"b\nc;",
      [⟨.unclosedStringLiteral, "string literal not terminated", ⟨5, 2, 2⟩⟩]⟩ := by
    decide +kernel
  obtain ⟨hposition, -⟩ := positions_in_text.1 _ _ _ hmem
  obtain ⟨-, hdiagnostics⟩ := positions_in_text.2 _ _ _ herror
  refine ⟨_, rfl, by decide +kernel, hposition, by decide +kernel, _, _, herror, rfl, rfl, rfl, ?_⟩
  apply (hdiagnostics _ List.mem_cons_self).2

end EquationLang
