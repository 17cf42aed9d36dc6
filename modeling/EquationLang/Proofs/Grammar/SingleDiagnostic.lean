import EquationLang.Proofs.Grammar.Consumption
import EquationLang.Proofs.Grammar.FirstMisfit
import EquationLang.Proofs.Token.Lookahead
import EquationLang.Proofs.Token.Terminators

/-!
# Equations that are not accepted have one diagnostic

However many faults are found on the way, they are all about the token that was looked at last, so
only the first one is kept, and a lexical fault comes first (`parse_error_is_single`).  The fault
that is kept is never one that a construct adds around another one.
-/

namespace EquationLang

open EquationLang.Parser

/-! ### What stops the reading of an expression -/

/-- Whether a complaint can stop the reading of an expression: the others are about what is around
an expression, or are added to one of these. -/
def Complaint.isInside : Complaint → Bool
  | .noOperand | .noCloseParen | .noCloseBracket | .noArgumentEnd | .tooDeep => true
  | .emptyEquation | .badArgument | .noEquationEnd | .noTerminator => false

namespace Parser

/-- Reading fails only for reasons that lie in the expression. -/
def FailsInside {α : Type} (run : List Token → Except Failure α) : Prop :=
  ∀ ts failure, run ts = .error failure → failure.cause.complaint.isInside

theorem failsInside_refuse {α : Type} {complaint : Complaint} (h : complaint.isInside) :
  FailsInside (refuse (α := α) complaint)
  := by
  intro ts failure hrun
  cases hrun
  exact h

theorem FailsInside.chainFrom {ops : List Operator} {operand : Parser Expr}
    (h : FailsInside operand.run) (left : Expr) :
  FailsInside (chainFrom ops operand left)
  := by
  intro ts failure hrun
  fun_induction Parser.chainFrom ops operand left ts with
  | case1 | case2 => cases hrun
  | case3 left t ts op hop failure' read =>
    cases hrun
    apply h _ _ read
  | case4 left t ts op hop right rest read shorter ih => exact ih hrun

/-- All levels of operators fail only where an operand does. -/
theorem FailsInside.levels {operand : Parser Expr} (h : FailsInside operand.run)
    (levels : List (List Operator)) :
  FailsInside (levels.foldr chain operand).run
  := by
  induction levels with
  | nil => exact h
  | cons ops levels ih =>
    intro ts failure hrun
    obtain hfirst | ⟨⟨left, rest⟩, -, hmore⟩ := bind_eq_error_iff.mp hrun
    · apply ih _ _ hfirst
    · apply ih.chainFrom left _ _ hmore

theorem FailsInside.enclosed {operand : Parser Expr} (h : FailsInside operand.run)
    {kind : Token.Kind} {complaint : Complaint} (hcomplaint : complaint.isInside)
    (node : Expr → Token → Expr) :
  FailsInside (enclosed kind complaint node operand)
  := by
  intro ts failure hrun
  obtain hfirst | ⟨⟨body, rest⟩, -, hmore⟩ := bind_eq_error_iff.mp hrun
  · apply h.levels _ _ _ hfirst
  · obtain hlast | ⟨_, -, hmore⟩ := bind_eq_error_iff.mp hmore
    · obtain ⟨rfl, -⟩ := expect_of_error hlast
      exact hcomplaint
    · cases hmore

theorem FailsInside.arguments {arg : Parser Expr} (h : FailsInside arg.run) :
  FailsInside (arguments arg)
  := by
  intro ts failure hrun
  fun_induction Parser.arguments arg ts generalizing failure with
  | case1 ts failure' read =>
    cases hrun
    exact h ts failure' read
  | case2 => exact failsInside_refuse rfl _ _ hrun
  | case3 ts e t rest read shorter comma ih =>
    obtain hmore | ⟨_, -, hmore⟩ := bind_eq_error_iff.mp hrun
    · apply ih _ hmore
    · cases hmore
  | case4 => cases hrun
  | case5 => exact failsInside_refuse rfl _ _ hrun

theorem FailsInside.called {operand : Parser Expr} (h : FailsInside operand.run) (callee : Expr)
    (opening : Token) :
  FailsInside (called operand callee opening)
  := by
  intro ts failure hrun
  rw [Parser.called] at hrun
  split at hrun
  · cases hrun
  · obtain hfirst | ⟨_, -, hmore⟩ := bind_eq_error_iff.mp hrun
    · apply FailsInside.arguments (h.levels _) _ _ hfirst
    · cases hmore

theorem FailsInside.named {operand : Parser Expr} (h : FailsInside operand.run) (name : Token) :
  FailsInside (named operand name)
  := by
  intro ts failure hrun
  rw [Parser.named.eq_def] at hrun
  split at hrun
  · cases hrun
  · next t ts =>
    split at hrun
    · apply h.called _ t _ _ hrun
    · change subscripted operand _ t ts = _ at hrun
      rw [subscripted_eq_enclosed] at hrun
      apply h.enclosed rfl _ _ _ hrun
    · cases hrun

theorem FailsInside.operandOver {operand : Parser Expr} (h : FailsInside operand.run) :
  FailsInside (operandOver operand)
  := by
  intro ts failure hrun
  rw [Parser.operandOver.eq_def] at hrun
  split at hrun
  · exact failsInside_refuse rfl _ _ hrun
  · next t ts =>
    split at hrun
    · rw [parenthesized_eq_enclosed] at hrun
      apply h.enclosed rfl _ _ _ hrun
    · cases hrun
    · apply h.named t _ _ hrun
    · split at hrun
      · obtain hfirst | ⟨_, -, hmore⟩ := bind_eq_error_iff.mp hrun
        · apply h.levels [PrecedenceTable.standard.tightest] _ _ hfirst
        · cases hmore
      · exact failsInside_refuse rfl _ _ hrun
    · exact failsInside_refuse rfl _ _ hrun

theorem failsInside_factor :
  ∀ k : Nat, FailsInside (factor k).run
  | 0 => failsInside_refuse rfl
  | k + 1 => (failsInside_factor k).operandOver

end Parser

/-- What stops the reading of an equation is never added by a construct around something else, and
it is a missing terminator only if the expression is the whole text. -/
theorem cause_of_equation {ts : List Token} {failure : Failure} (hproper : ∀ t ∈ ts, t.IsProper)
    (h : equation ts = .error failure) :
  failure.cause.complaint ≠ .badArgument ∧ (failure.cause.complaint = .noTerminator →
    ∃ (e : Expr) (us : List Token), ts = us ++ failure.rest ∧ e.Spelled us
      ∧ (lookahead failure.rest).kind = .eof)
  := by
  cases equationFails_of_error h with
  | empty _ hrefuse =>
    cases hrefuse
    simp
  | inside hrun =>
    have hinside := (failsInside_factor maxNesting).levels _ ts failure hrun
    constructor
    all_goals
      intro hcause
      rw [hcause] at hinside
      cases hinside
  | unended hrun hkind hrefuse =>
    obtain ⟨us, rfl, he⟩ := sound_joined (Nat.zero_le _) maxNesting ts _ _ hproper hrun
    cases hrefuse
    exact ⟨by simp, fun _ => ⟨_, us, rfl, he.spelled, hkind⟩⟩
  | extra _ _ hrefuse =>
    cases hrefuse
    simp

/-- In a text without a fault, a terminator is never missing: the last token of an expression could
end a statement, so one is inserted at the end of the text. -/
theorem cause_ne_noTerminator {eqn : String} {failure : Failure} (hfaultless : IsFaultless eqn)
    (h : equation (equationTokens eqn) = .error failure) :
  failure.cause.complaint ≠ .noTerminator
  := by
  intro hcause
  obtain ⟨body, offset, htokens, hbody, -⟩ := exists_equationTokens eqn
  obtain ⟨e, us, hus, hspelled, hkind⟩ :=
    (cause_of_equation isProper_of_mem_equationTokens h).2 hcause
  rw [htokens] at hus
  have hmark : ∃ t ∈ body ++ [.endOfText offset], t.kind = .eof :=
    ⟨.endOfText offset, by simp, rfl⟩
  obtain ⟨t, behind, hrest⟩ := exists_first_of_append (hus ▸ hmark) hspelled.kind_ne_eof
  rw [hrest] at hus hkind
  obtain ⟨rfl, -⟩ := eq_of_append_endOfText hus (fun u hu => (hbody u hu).2) hkind
  obtain ⟨us, last, rfl, hlast, -⟩ := hspelled.exists_last
  rw [equationTokens_eq_read] at htokens
  have hend := Cursor.canEndAfter_of_read htokens (isFaultless_iff.mp hfaultless)
  rw [Token.canEndAfter_append, Token.canEndAfter, List.getLast?_singleton, Option.map_some,
    Option.getD_some, hlast.canEndStatement.1] at hend
  cases hend

/-! ### Messages -/

/-- A text that goes on after `q` does not start with `p`, if neither of the two starts with the
other. -/
theorem not_prefix_append {p q : List Char} (h : ¬ p <+: q) (h' : ¬ q <+: p) (r : List Char) :
  ¬ p <+: q ++ r
  := by
  intro hprefix
  obtain hle | hle := List.prefix_or_prefix_of_prefix hprefix (List.prefix_append q r)
  · exact h hle
  · exact h' hle

/-- How the message about an argument that cannot be read starts. -/
def badArgumentText : String := "call: expected expression argument"

/-- No other fault has a message that starts in this way. -/
theorem Fault.badArgumentText_prefix_iff {f : Fault} :
  badArgumentText.toList <+: f.message.toList ↔ f.complaint = .badArgument
  := by
  obtain ⟨complaint, found⟩ := f
  cases complaint with
  | badArgument =>
    rw [message, String.toList_append]
    simp only [iff_true]
    apply List.IsPrefix.trans _ (List.prefix_append _ _)
    decide
  | emptyEquation | noTerminator =>
    simp only [message, reduceCtorEq, iff_false]
    decide
  | tooDeep =>
    simp only [message, reduceCtorEq, iff_false]
    decide
  | noCloseParen | noCloseBracket | noArgumentEnd | noEquationEnd =>
    simp only [message, reduceCtorEq, iff_false, String.toList_append]
    apply not_prefix_append <;> decide
  | noOperand =>
    simp only [message, reduceCtorEq, iff_false]
    split
    · decide
    · decide
    · rw [String.toList_append]
      apply not_prefix_append <;> decide

theorem Fault.code_eq_missingTerminator {f : Fault} (h : f.code = .missingTerminator) :
  f.complaint = .noTerminator
  := by
  rw [code] at h
  split at h
  case h_2 => split at h <;> cases h
  case h_8 hcause => exact hcause
  all_goals cases h

/-! ### Where reading stops -/

/-- The token that is looked at where the reading stops, and whether a fault has been reported. -/
theorem peek_lexerAtStop {eqn : String} {before behind : List Token} {t : Token}
    (htokens : equationTokens eqn = before ++ t :: behind)
    (htaken : tokensTaken eqn = before.length) :
  (lexerAtStop eqn).peek.1 = t
    ∧ ((lexerAtStop eqn).peek.2.hasErrors ↔ ¬ IsFaultless eqn ∧ t.kind = .eof)
  := by
  have hcome : (lexerAtStop eqn).toCome = t :: behind := by
    rw [lexerAtStop, Lexer.toCome_skip, ← Lexer.drain_tokens, ← equationTokens, htokens, htaken,
      List.drop_left]
  have hpeek := Lexer.peek_of_toCome hcome
  have htracks := ((Lexer.follows_ofText (normalize eqn)).skip (tokensTaken eqn)).scan.tracks
  refine ⟨hpeek, ?_⟩
  rw [lexerAtStop, htracks.hasErrors_peek_iff, ← lexerAtStop, hpeek, isFaultless_iff,
    ← ne_eq, Option.ne_none_iff_isSome]

/-- Reading stops at the token that does not fit. -/
theorem exists_stop {eqn : String} {failure : Failure}
    (h : equation (equationTokens eqn) = .error failure) :
  ∃ before t behind, equationTokens eqn = before ++ t :: behind ∧ failure.rest = t :: behind
    ∧ tokensTaken eqn = before.length ∧ Misfit failure before t
  := by
  obtain ⟨before, t, behind, hts, hrest, hmisfit⟩ := exists_misfit_of_text h
  refine ⟨before, t, behind, hts, hrest, ?_, hmisfit⟩
  rw [← hrest] at hts
  apply tokensTaken_of_error h hts

/-- All faults of the grammar are about the token that is looked at where the reading stops. -/
theorem found_eq_peek {eqn : String} {failure : Failure}
    (h : equation (equationTokens eqn) = .error failure) :
  ∀ fault ∈ failure.faults, fault.found = (lexerAtStop eqn).peek.1
  := by
  obtain ⟨before, t, behind, htokens, -, htaken, hmisfit⟩ := exists_stop h
  rw [(peek_lexerAtStop htokens htaken).1]
  exact hmisfit.found

/-- The diagnostic `d` stands at the token that is looked at where the reading stops; it is lexical
exactly if a lexical fault has been reported by then, it is not about a missing terminator, and it
is not what a call adds about its arguments. -/
structure StandsAtStop (eqn : String) (d : Diagnostic) : Prop where
  offset : d.pos.offset = (lexerAtStop eqn).peek.1.pos
  isLexical : d.code.isLexical ↔ (lexerAtStop eqn).peek.2.hasErrors
  code : d.code ≠ .missingTerminator
  message : ¬ badArgumentText.toList <+: d.message.toList

/-- A lexical fault is reported where the text ends for the reader. -/
theorem standsAtStop_of_lexical {eqn : String} {before behind : List Token} {t : Token}
    {d : Diagnostic} (htokens : equationTokens eqn = before ++ t :: behind)
    (htaken : tokensTaken eqn = before.length) (hend : t.kind = .eof)
    (hd : lexicalErrors eqn = [d]) (hoffset : d.pos.offset = t.pos) :
  StandsAtStop eqn d
  := by
  obtain ⟨hpeek, herrors⟩ := peek_lexerAtStop htokens htaken
  have hfaulty : ¬ IsFaultless eqn := by simp [IsFaultless, hd]
  have hmem : d ∈ lexicalErrors eqn := by simp [hd]
  obtain ⟨hlexical, hmessage⟩ := lexical_of_mem_lexicalErrors hmem
  constructor
  · rw [hpeek, hoffset]
  · simp [herrors, hlexical, hfaulty, hend]
  · intro hcode
    rw [hcode] at hlexical
    cases hlexical
  · intro hprefix
    apply hmessage
    apply List.IsPrefix.trans _ hprefix
    decide

/-- A fault of the grammar is reported where no lexical one has been found. -/
theorem standsAtStop_of_fault {eqn : String} {before behind : List Token} {t : Token}
    {failure : Failure} (hequation : equation (equationTokens eqn) = .error failure)
    (htokens : equationTokens eqn = before ++ t :: behind)
    (hrest : failure.rest = t :: behind)
    (htaken : tokensTaken eqn = before.length) (hfaultless : t.kind = .eof → IsFaultless eqn)
    (hfound : failure.cause.found = t) :
  StandsAtStop eqn (failure.cause.diagnose (equationPosition eqn))
  := by
  obtain ⟨hpeek, herrors⟩ := peek_lexerAtStop htokens htaken
  obtain ⟨hcause, hterminator⟩ := cause_of_equation isProper_of_mem_equationTokens hequation
  constructor
  · rw [hpeek, ← hfound]
    rfl
  · rw [herrors]
    change failure.cause.code.isLexical ↔ _
    rw [Fault.isLexical_code]
    simp only [Bool.false_eq_true, false_iff, not_and]
    intro hfaulty hend
    exact hfaulty (hfaultless hend)
  · intro hcode
    have hcomplaint := Fault.code_eq_missingTerminator (f := failure.cause) hcode
    obtain ⟨_, _, -, -, hend⟩ := hterminator hcomplaint
    rw [hrest] at hend
    exact cause_ne_noTerminator (hfaultless hend) hequation hcomplaint
  · intro hprefix
    exact hcause (Fault.badArgumentText_prefix_iff.mp hprefix)

theorem exists_standsAtStop_of_ok {name eqn : String} {err : ParseError} {e : Expr}
    (hequation : equation (equationTokens eqn) = .ok e) (h : parse name eqn = .error err) :
  ∃ d, err.diagnostics = [d] ∧ StandsAtStop eqn d
  := by
  obtain ⟨body, offset, htokens, -, hfaults⟩ := exists_equationTokens eqn
  obtain ⟨d, hd, hlexical, hends⟩ := exists_diagnostic_of_ok hequation h
  obtain hfaultless | ⟨d', hd', hoffset⟩ := hfaults
  · exact absurd hfaultless hends.1
  · obtain rfl := List.singleton_inj.mp (hlexical.symm.trans hd')
    have htaken := tokensTaken_of_ok hequation htokens rfl
    exact ⟨d, hd, standsAtStop_of_lexical htokens htaken rfl hlexical hoffset⟩

theorem exists_standsAtStop_of_error {name eqn : String} {err : ParseError} {failure : Failure}
    (hequation : equation (equationTokens eqn) = .error failure) (h : parse name eqn = .error err) :
  ∃ d, err.diagnostics = [d] ∧ StandsAtStop eqn d
  := by
  obtain ⟨body, offset, htokens, hbody, hfaults⟩ := exists_equationTokens eqn
  obtain ⟨before, t, behind, hts, hrest, htaken, hmisfit⟩ := exists_stop hequation
  have hfound := hmisfit.found failure.cause List.mem_cons_self
  rw [parse_of_error hequation, hmisfit.reached] at h
  cases h
  by_cases hend : t.kind = .eof
  · obtain ⟨rfl, rfl, -⟩ :=
      eq_of_append_endOfText (htokens.symm.trans hts) (fun u hu => (hbody u hu).2) hend
    rw [if_pos hend]
    obtain ⟨d, hsorted, hoffset, hd⟩ := hmisfit.sorted eqn hfaults
    refine ⟨d, hsorted, ?_⟩
    obtain hd | ⟨hfaultless, rfl⟩ := hd
    · exact standsAtStop_of_lexical hts htaken hend hd hoffset
    · exact standsAtStop_of_fault hequation hts hrest htaken (fun _ => hfaultless) hfound
  · rw [if_neg hend]
    obtain ⟨d, hsorted, -, hd⟩ := hmisfit.sorted eqn (.inl rfl)
    refine ⟨d, hsorted, ?_⟩
    obtain hd | ⟨-, rfl⟩ := hd
    · cases hd
    · exact standsAtStop_of_fault hequation hts hrest htaken (absurd · hend) hfound

theorem exists_standsAtStop {name eqn : String} {err : ParseError}
    (h : parse name eqn = .error err) :
  ∃ d, err.diagnostics = [d] ∧ StandsAtStop eqn d
  := by
  cases hequation : equation (equationTokens eqn) with
  | ok e => apply exists_standsAtStop_of_ok hequation h
  | error failure => apply exists_standsAtStop_of_error hequation h

/-- An equation that is not accepted has exactly one diagnostic, which is placed at the token that
is looked at where the reading stops, like everything that the grammar has to say.  If the equation
is read on demand, the lexer has come to that place when the reading fails. -/
theorem parse_error_is_single {name eqn : String} {err : ParseError}
    (h : parse name eqn = .error err) :
  ∃ d, err.diagnostics = [d] ∧ StandsAtStop eqn d ∧ err.message = d.header err.name
    ∧ (∀ failure, equation (equationTokens eqn) = .error failure →
      ∀ fault ∈ failure.faults, fault.found.pos = d.pos.offset)
    ∧ ∀ spare, ∃ s, OnDemand.parse ((equationTokens eqn).length + spare) name eqn
        = some (.error err, s)
      ∧ s.lexer = (lexerAtStop eqn).peek.2
  := by
  obtain ⟨d, hd, hstands⟩ := exists_standsAtStop h
  refine ⟨d, hd, hstands, ?_, ?_, ?_⟩
  · rw [ParseError.message, hd]
  · intro failure hequation fault hfault
    rw [found_eq_peek hequation fault hfault, hstands.offset]
  · intro spare
    obtain ⟨s, hparse, hs⟩ := OnDemand.exists_parse (Nat.le_add_right _ spare) name
    rw [h] at hparse
    exact ⟨s, hparse, hs.lexer⟩

/-- A string literal that is not closed is reported alone, though the calls around it have something
to say as well. -/
theorem parse_error_is_single_in_calls :
  ∃ err d, parse "y" "f(g(\"" = .error err ∧ err.diagnostics = [d]
    ∧ d.code = .unclosedStringLiteral ∧ d.pos.offset = 4
    ∧ (lexerAtStop "f(g(\"").peek.2.hasErrors
  := by
  have h : parse "y" "f(g(\"" = .error ⟨"y", "f(g(\";",
      [⟨.unclosedStringLiteral, "string literal not terminated", ⟨4, 1, 5⟩⟩]⟩ := by
    decide +kernel
  obtain ⟨d, hd, hstands, -⟩ := parse_error_is_single h
  obtain rfl := List.singleton_inj.mp hd
  exact ⟨_, _, h, rfl, rfl, rfl, hstands.isLexical.mp rfl⟩

end EquationLang
