import EquationLang.Proofs.Diagnostic.Sorted
import EquationLang.Proofs.Grammar.Failure
import EquationLang.Proofs.Grammar.Viable
import Mathlib.Tactic.Common

/-!
# Errors are reported at the first token that does not fit

Unless the expression is too deep, the error of an equation that is not accepted is about the first
token that no equation has after the tokens before it.  If that is the mark of the end, and it is
there only because of a lexical fault, then this fault is reported.
-/

namespace EquationLang

open EquationLang.Parser

/-- The first tokens of an expression are those of an equation. -/
theorem isViable_of_completes {n : Nat} {before : List Token} (h : Completes n before) :
  IsViable before
  := by
  obtain ⟨e, more, hspelled, hcanonical, -⟩ := h
  have hequation : IsEquation e (before ++ (more ++ [⟨.semi, 0, ";"⟩, .endOfText 0])) := by
    use before ++ more, [⟨.semi, 0, ";"⟩], .endOfText 0, by simp, hspelled
    simp [Token.endOfText]
  apply isViable_of_isEquation hcanonical hequation

/-- An expression and terminators are the first tokens of an equation. -/
theorem isViable_of_spelled {e : Expr} {us semis : List Token} (hcanonical : e.Canonical)
    (hspelled : e.Spelled us) (hsemis : ∀ t ∈ semis, t.kind = .semi) :
  IsViable (us ++ semis)
  := by
  have hequation : IsEquation e (us ++ semis ++ [⟨.semi, 0, ";"⟩, .endOfText 0]) := by
    use us, semis ++ [⟨.semi, 0, ";"⟩], .endOfText 0, by simp, hspelled
    simpa [Token.endOfText, or_imp, forall_and] using hsemis
  apply isViable_of_isEquation hcanonical hequation

/-- If reading fails at a token for reasons other than depth, then no equation goes on with it. -/
theorem not_isViable_of_failing {before : List Token} {failure : Failure} {t : Token}
    {behind : List Token}
    (h : Failing (fun k => (joined 0 (factor k)).run) maxNesting before failure)
    (hcause : failure.cause.complaint ≠ .tooDeep) (hrest : failure.rest = t :: behind)
    (hproper : ∀ u ∈ before ++ [t], u.IsProper) :
  ¬ IsViable (before ++ [t])
  := by
  intro hviable
  obtain ⟨e, more, hcanonical, he⟩ := exists_of_isViable hviable hproper
  obtain ⟨semis, last, hrun, -⟩ := he.run hcanonical (Nat.le_max_right maxNesting e.nest)
  obtain ⟨failure', hfail⟩ := h.again hcause (max maxNesting e.nest) (t :: more)
    (Nat.le_max_left _ _) (by rw [hrest, List.head?_cons, List.head?_cons])
  rw [List.append_assoc, List.singleton_append, expression_eq_joined, hfail] at hrun
  cases hrun

/-- After an expression and terminators, no equation goes on with anything but a terminator or, if
there is one already, the mark of the end. -/
theorem not_isViable_of_reading {e : Expr} {us semis behind : List Token} {t : Token}
    (h : Reading 0 0 maxNesting e us (semis ++ t :: behind))
    (hsemi : t.kind ≠ .semi) (hend : t.kind = .eof → semis = [])
    (hproper : ∀ u ∈ us ++ semis ++ [t], u.IsProper) :
  ¬ IsViable (us ++ semis ++ [t])
  := by
  intro hviable
  obtain ⟨e', more, hcanonical, he'⟩ := exists_of_isViable hviable hproper
  obtain ⟨semis', last, hrun, hsemis', hne, hlast⟩ :=
    he'.run hcanonical (Nat.le_max_right maxNesting e'.nest)
  have hagain : (joined 0 (factor (max maxNesting e'.nest))).run (us ++ (semis ++ t :: more))
      = .ok (e, semis ++ t :: more) :=
    h.again (Nat.zero_le _) (Nat.le_max_left _ _) (by simp)
  rw [List.append_assoc, List.append_assoc, List.singleton_append, expression_eq_joined, hagain]
    at hrun
  obtain ⟨-, hrest⟩ := Prod.mk.inj (Except.ok.inj hrun)
  have ht : t ∈ semis' ++ [last] := hrest ▸ List.mem_append_right semis List.mem_cons_self
  obtain ht | ht := List.mem_append.mp ht
  · apply hsemi (hsemis' t ht)
  · obtain rfl := List.mem_singleton.mp ht
    obtain rfl := hend hlast
    obtain ⟨semi, semis', rfl⟩ := List.exists_cons_of_ne_nil hne
    obtain ⟨rfl, -⟩ := List.cons.inj hrest
    apply hsemi (hsemis' t List.mem_cons_self)

/-! ### Failures -/

/-- The failure is about the token `t` after the tokens `before`, which are viable, and unless it is
about depth, no equation goes on with `t`. -/
structure Misfit (failure : Failure) (before : List Token) (t : Token) : Prop where
  found : ∀ fault ∈ failure.faults, fault.found = t
  reached : lookahead failure.rest = t
  viable : IsViable before
  misfit : failure.cause.complaint ≠ .tooDeep → ¬ IsViable (before ++ [t])

theorem rest_of_refuse {α : Type} {complaint : Complaint} {ts : List Token} {failure : Failure}
    (h : refuse (α := α) complaint ts = .error failure) :
  failure.rest = ts
  := by
  cases h
  rfl

/-- A complaint about a token that no equation goes on with. -/
theorem misfit_of_refuse {α : Type} {complaint : Complaint} {before behind : List Token} {t : Token}
    {failure : Failure} (h : refuse (α := α) complaint (t :: behind) = .error failure)
    (hviable : IsViable before) (hmisfit : ¬ IsViable (before ++ [t])) :
  Misfit failure before t
  := by
  cases h
  constructor
  · simp [Failure.faults, lookahead]
  · rfl
  · apply hviable
  · intro _
    apply hmisfit

/-- Where there has to be an operand, no equation has a terminator or the mark of the end. -/
theorem misfit_of_empty {ts : List Token} {complaint : Complaint} {t : Token} {failure : Failure}
    (hrun : refuse (α := Expr) complaint (t :: ts) = .error failure) (hproper : t.IsProper)
    (hkind : t.kind = .semi ∨ t.kind = .eof) :
  Misfit failure [] t
  := by
  apply misfit_of_refuse hrun (isViable_of_completes completes_nil)
  intro hviable
  obtain ⟨e, more, -, he⟩ := exists_of_isViable hviable (by simpa using hproper)
  obtain ⟨u, us, hfirst, hstart⟩ := he.exists_first
  obtain ⟨rfl, -⟩ := List.cons.inj hfirst
  obtain hkind | hkind := hkind
  · apply hstart.kind_ne (by simp) hkind
  · apply hstart.kind_ne (by simp) hkind

/-- If no expression can be read, then this is about the first token that does not fit. -/
theorem exists_misfit_of_expression {ts : List Token} {failure : Failure}
    (hproper : ∀ t ∈ ts, t.IsProper) (hend : ∃ t ∈ ts, t.kind = .eof)
    (h : (expression (factor maxNesting)).run ts = .error failure) :
  ∃ before t behind, ts = before ++ t :: behind ∧ failure.rest = t :: behind
    ∧ Misfit failure before t
  := by
  obtain ⟨before, hbefore, hcompletes, hfailing⟩ :=
    failsAt_joined (Nat.zero_le _) maxNesting ts failure hproper h
  have hne : ∀ t ∈ before, t.kind ≠ .eof := by
    obtain ⟨e, more, hspelled, -⟩ := hcompletes
    intro t ht
    apply hspelled.kind_ne_eof t (List.mem_append_left more ht)
  obtain ⟨t, behind, hrest⟩ := exists_first_of_append (hbefore ▸ hend) hne
  rw [hrest] at hbefore
  have hreached : lookahead failure.rest = t := by
    rw [hrest]
    rfl
  refine ⟨before, t, behind, hbefore, hrest, hreached ▸ hfailing.found, hreached,
    isViable_of_completes hcompletes, ?_⟩
  intro hcause
  apply not_isViable_of_failing hfailing hcause hrest
  intro u hu
  apply hproper
  rw [hbefore, List.append_cons]
  apply List.mem_append_left behind hu

/-- If what follows an expression and terminators is refused, then it does not fit. -/
theorem misfit_of_reading {e : Expr} {us semis behind : List Token} {t : Token}
    {complaint : Complaint} {failure : Failure}
    (hrun : refuse (α := Expr) complaint (t :: behind) = .error failure)
    (h : Reading 0 0 maxNesting e us (semis ++ t :: behind))
    (hsemis : ∀ u ∈ semis, u.kind = .semi) (hsemi : t.kind ≠ .semi)
    (hend : t.kind = .eof → semis = [])
    (hproper : ∀ u ∈ us ++ (semis ++ t :: behind), u.IsProper) :
  Misfit failure (us ++ semis) t
  := by
  apply misfit_of_refuse hrun
  · apply isViable_of_spelled h.canonical h.spelled hsemis
  · apply not_isViable_of_reading h hsemi hend
    intro u hu
    apply hproper
    rw [← List.append_assoc, List.append_cons]
    apply List.mem_append_left behind hu

/-- If an equation cannot be read, then this is about the first token that does not fit. -/
theorem exists_misfit {ts : List Token} {failure : Failure}
    (hproper : ∀ t ∈ ts, t.IsProper) (hend : ∃ t ∈ ts, t.kind = .eof)
    (h : equation ts = .error failure) :
  ∃ before t behind, ts = before ++ t :: behind ∧ failure.rest = t :: behind
    ∧ Misfit failure before t
  := by
  cases equationFails_of_error h with
  | empty hclosed hrefuse =>
    obtain ⟨_, ht, -⟩ := hend
    obtain ⟨t, others, rfl⟩ := List.exists_cons_of_ne_nil (List.ne_nil_of_mem ht)
    exact ⟨[], t, others, rfl, rest_of_refuse hrefuse,
      misfit_of_empty hrefuse (hproper t List.mem_cons_self) hclosed⟩
  | inside hrun => apply exists_misfit_of_expression hproper hend hrun
  | unended hrun hkind hrefuse =>
    obtain ⟨us, rfl, he⟩ := sound_joined (Nat.zero_le _) maxNesting ts _ _ hproper hrun
    obtain ⟨t, behind, rfl⟩ := exists_first_of_append hend he.spelled.kind_ne_eof
    have hkind : t.kind = .eof := hkind
    use us ++ [], t, behind, by simp, rest_of_refuse hrefuse
    apply misfit_of_reading hrefuse he (by simp) (by simp [hkind]) (fun _ => rfl) hproper
  | extra hrun hextra hrefuse =>
    obtain ⟨us, rfl, he⟩ := sound_joined (Nat.zero_le _) maxNesting ts _ _ hproper hrun
    obtain ⟨semis, t, behind, rfl, hdrop, hsemis, ht⟩ :=
      exists_terminators hend he.spelled.kind_ne_eof
    rw [hdrop] at hrefuse hextra
    use us ++ semis, t, behind, (List.append_assoc ..).symm, rest_of_refuse hrefuse
    apply misfit_of_reading hrefuse he hsemis ht (absurd · hextra) hproper

/-- If a text cannot be read as an equation, then this is about the first token that does not
fit. -/
theorem exists_misfit_of_text {eqn : String} {failure : Failure}
    (h : equation (equationTokens eqn) = .error failure) :
  ∃ before t behind, equationTokens eqn = before ++ t :: behind ∧ failure.rest = t :: behind
    ∧ Misfit failure before t
  := by
  obtain ⟨body, offset, htokens, -⟩ := exists_equationTokens eqn
  apply exists_misfit isProper_of_mem_equationTokens _ h
  rw [htokens]
  exact ⟨.endOfText offset, by simp, rfl⟩

/-! ### Diagnostics -/

/-- The faults of the grammar are not lexical. -/
theorem Fault.isLexical_code (f : Fault) :
  f.code.isLexical = false
  := by
  rw [code]
  split
  case h_2 => split <;> rfl
  all_goals rfl

theorem Fault.code_of_tooDeep {f : Fault} (h : f.complaint = .tooDeep) :
  f.code = .nestingTooDeep
  := by
  rw [code, h]

/-- A misfit is reported at its place, unless a lexical fault there has been reported before it. -/
theorem Misfit.sorted {failure : Failure} {before : List Token} {t : Token}
    (h : Misfit failure before t) (eqn : String) {lexical : List Diagnostic}
    (hlexical : lexical = [] ∨ ∃ d, lexical = [d] ∧ d.pos.offset = t.pos) :
  ∃ d, Diagnostics.sorted ⟨lexical ++ failure.faults.map (·.diagnose (equationPosition eqn))⟩ = [d]
    ∧ d.pos.offset = t.pos
    ∧ (lexical = [d] ∨ lexical = [] ∧ d = failure.cause.diagnose (equationPosition eqn))
  := by
  have hoffset : ∀ d ∈ failure.faults.map (·.diagnose (equationPosition eqn)),
      d.pos.offset = t.pos := by
    intro d hd
    obtain ⟨fault, hfault, rfl⟩ := List.mem_map.mp hd
    rw [← h.found fault hfault]
    rfl
  obtain rfl | ⟨d, rfl, hd⟩ := hlexical
  · use failure.cause.diagnose (equationPosition eqn)
    refine ⟨?_, hoffset _ List.mem_cons_self, .inr ⟨rfl, rfl⟩⟩
    apply Diagnostics.sorted_of_offset
    intro e he
    rw [hoffset _ List.mem_cons_self]
    apply hoffset e (List.mem_cons_of_mem _ he)
  · use d
    refine ⟨?_, hd, .inl rfl⟩
    apply Diagnostics.sorted_of_offset
    intro e he
    rw [hd]
    apply hoffset e he

/-- The text has a lexical fault, and the tokens before it are viable. -/
def EndsInFault (eqn : String) : Prop :=
  ¬ IsFaultless eqn ∧ IsViable (equationTokens eqn).dropLast

/-- The diagnostic `d` is about a failure at the token `t` after the tokens `before`, where no
lexical fault has been found. -/
structure Reported (eqn : String) (before : List Token) (t : Token) (d : Diagnostic) : Prop where
  viable : IsViable before
  misfit : d.code ≠ .nestingTooDeep → ¬ IsViable (before ++ [t])
  faultless : t.kind = .eof → IsFaultless eqn
  isLexical : d.code.isLexical = false
  offset : d.pos.offset = t.pos

theorem Misfit.reported {eqn : String} {failure : Failure} {before : List Token} {t : Token}
    {d : Diagnostic} (h : Misfit failure before t) (hfaultless : t.kind = .eof → IsFaultless eqn)
    (hd : d = failure.cause.diagnose (equationPosition eqn)) (hoffset : d.pos.offset = t.pos) :
  Reported eqn before t d
  := by
  have hcode : d.code = failure.cause.code := congrArg Diagnostic.code hd
  constructor
  · apply h.viable
  · intro hdepth
    apply h.misfit
    intro hcause
    rw [hcode, Fault.code_of_tooDeep hcause] at hdepth
    apply hdepth rfl
  · apply hfaultless
  · rw [hcode]
    apply Fault.isLexical_code
  · apply hoffset

/-- What is reported if the expression of the tokens can be read. -/
theorem exists_diagnostic_of_ok {name eqn : String} {err : ParseError} {e : Expr}
    (hequation : equation (equationTokens eqn) = .ok e) (h : parse name eqn = .error err) :
  ∃ d, err.diagnostics = [d] ∧ lexicalErrors eqn = [d] ∧ EndsInFault eqn
  := by
  obtain ⟨body, offset, htokens, hbody, hfaults⟩ := exists_equationTokens eqn
  rw [parse_of_ok hequation] at h
  rw [htokens] at hequation
  obtain ⟨he, hcanonical, -⟩ := isEquation_of_equation hbody hequation
  split at h
  · cases h
  · next hne =>
    cases h
    obtain hfaultless | ⟨d, hd, -⟩ := hfaults
    · exact absurd hfaultless hne
    · refine ⟨d, ?_, hd, hne, ?_⟩
      · rw [hd]
        apply Diagnostics.sorted_of_offset (by simp)
      · rw [htokens, List.dropLast_concat]
        apply isViable_of_isEquation hcanonical he

/-- What is reported if the expression of the tokens cannot be read. -/
theorem exists_diagnostic_of_error {name eqn : String} {err : ParseError} {failure : Failure}
    (hequation : equation (equationTokens eqn) = .error failure) (h : parse name eqn = .error err) :
  ∃ d, err.diagnostics = [d] ∧ (lexicalErrors eqn = [d] ∧ EndsInFault eqn
    ∨ ∃ before t behind, equationTokens eqn = before ++ t :: behind ∧ Reported eqn before t d)
  := by
  obtain ⟨body, offset, htokens, hbody, hfaults⟩ := exists_equationTokens eqn
  rw [parse_of_error hequation] at h
  cases h
  obtain ⟨before, t, behind, hts, -, hmisfit⟩ := exists_misfit_of_text hequation
  rw [hmisfit.reached]
  by_cases hkind : t.kind = .eof
  · obtain ⟨rfl, rfl, -⟩ :=
      eq_of_append_endOfText (htokens.symm.trans hts) (fun u hu => (hbody u hu).2) hkind
    rw [if_pos hkind]
    obtain ⟨d, hsorted, hoffset, hd⟩ := hmisfit.sorted eqn hfaults
    refine ⟨d, hsorted, ?_⟩
    obtain hd | ⟨hfaultless, hd⟩ := hd
    · left
      refine ⟨hd, ?_, ?_⟩
      · simp [IsFaultless, hd]
      · rw [htokens, List.dropLast_concat]
        exact hmisfit.viable
    · right
      exact ⟨_, _, _, htokens, hmisfit.reported (fun _ => hfaultless) hd hoffset⟩
  · rw [if_neg hkind]
    obtain ⟨d, hsorted, hoffset, hd⟩ := hmisfit.sorted eqn (.inl rfl)
    refine ⟨d, hsorted, .inr ⟨before, t, behind, hts, ?_⟩⟩
    obtain hd | ⟨-, hd⟩ := hd
    · cases hd
    · apply hmisfit.reported (absurd · hkind) hd hoffset

/-- If the token that does not fit does not stand for a lexical fault, then what comes before a
lexical fault is not viable. -/
theorem Reported.not_endsInFault {eqn : String} {before behind : List Token} {t : Token}
    {d : Diagnostic} (h : Reported eqn before t d)
    (htokens : equationTokens eqn = before ++ t :: behind) (hdepth : d.code ≠ .nestingTooDeep) :
  ¬ EndsInFault eqn
  := by
  rintro ⟨hfaulty, hviable⟩
  apply h.misfit hdepth
  obtain rfl | ⟨behind, last, rfl⟩ := List.eq_nil_or_concat behind
  · -- the last token marks the end
    obtain ⟨body, offset, hbody, -⟩ := exists_equationTokens eqn
    rw [hbody] at htokens
    obtain ⟨-, rfl⟩ := List.append_singleton_inj.mp htokens
    exact absurd (h.faultless rfl) hfaulty
  · rw [htokens, List.concat_eq_append, ← List.cons_append, ← List.append_assoc,
      List.dropLast_concat, List.append_cons] at hviable
    exact hviable.of_append

/-- An equation that is not accepted has one diagnostic.  Unless it is about depth, it is the
lexical fault if the tokens before the fault are viable; otherwise it is not lexical, and is placed
at the first token that no equation has after the tokens before it. -/
theorem parse_error_at_first_misfit {name eqn : String} {err : ParseError}
    (h : parse name eqn = .error err) :
  ∃ d, err.diagnostics = [d] ∧ (d.code ≠ .nestingTooDeep →
    (EndsInFault eqn → lexicalErrors eqn = [d])
      ∧ (¬ EndsInFault eqn → d.code.isLexical = false
        ∧ ∃ before t behind, equationTokens eqn = before ++ t :: behind ∧ IsViable before
          ∧ ¬ IsViable (before ++ [t]) ∧ d.pos.offset = t.pos))
  := by
  cases hequation : equation (equationTokens eqn) with
  | ok e =>
    obtain ⟨d, hd, hlexical, hends⟩ := exists_diagnostic_of_ok hequation h
    exact ⟨d, hd, fun _ => ⟨fun _ => hlexical, absurd hends⟩⟩
  | error failure =>
    obtain ⟨d, hd, hreported⟩ := exists_diagnostic_of_error hequation h
    refine ⟨d, hd, ?_⟩
    intro hdepth
    obtain ⟨hlexical, hends⟩ | ⟨before, t, behind, htokens, hreported⟩ := hreported
    · exact ⟨fun _ => hlexical, absurd hends⟩
    · constructor
      · intro hends
        exact absurd hends (hreported.not_endsInFault htokens hdepth)
      · intro _
        exact ⟨hreported.isLexical, before, t, behind, htokens, hreported.viable,
          hreported.misfit hdepth, hreported.offset⟩

/-- An argument that is not followed by a comma is where the fault is, and not earlier. -/
theorem parse_error_after_argument :
  ∃ err, parse "y" "f(a b)" = .error err ∧ err.codes = [.badCallArgs]
    ∧ ∃ before t behind, equationTokens "f(a b)" = before ++ t :: behind ∧ IsViable before
      ∧ ¬ IsViable (before ++ [t]) ∧ t.pos = 4
  := by
  have h : parse "y" "f(a b)" = .error ⟨"y", "f(a b);",
      [⟨.badCallArgs, "call: expected ',' or ')', got (ident b)", ⟨4, 1, 5⟩⟩]⟩ := by
    decide +kernel
  have hfaultless : lexicalErrors "f(a b)" = [] := by decide +kernel
  refine ⟨_, h, rfl, ?_⟩
  obtain ⟨d, hd, hreported⟩ := parse_error_at_first_misfit h
  obtain rfl := List.singleton_inj.mp hd
  obtain ⟨-, before, t, behind, htokens, hviable, hmisfit, hoffset⟩ :=
    (hreported (by simp)).2 fun hends => hends.1 hfaultless
  exact ⟨before, t, behind, htokens, hviable, hmisfit, hoffset.symm⟩

end EquationLang
