import EquationLang.Proofs.Grammar.FirstMisfit
import EquationLang.Proofs.Grammar.Lockstep

/-!
# Only kinds and texts of tokens matter

What is read off the tokens of an equation, and what is said about them if nothing can be read, does
not depend on where the tokens stand or on how a terminator is written.  A token without these is
bare (`Token.bare`), and the tokens of an equation are read in step with their bare forms
(`equation_bare`).  So equations with the same bare tokens and the same lexical fault have the same
expression up to positions, or they are refused in the same words (`parse_depends_on_tokens`).
-/

namespace EquationLang

/-! ### What is left without positions -/

/-- The token without its position, and without the way in which a terminator is written. -/
def Token.bare (t : Token) : Token := ⟨t.kind, 0, if t.kind = .semi then "" else t.text⟩

namespace Token

@[simp]
theorem kind_bare (t : Token) :
  t.bare.kind = t.kind
  := rfl

theorem text_bare {t : Token} (h : t.kind ≠ .semi) :
  t.bare.text = t.text
  := if_neg h

/-- The tokens have the same kind and, unless they end a statement, the same text. -/
def SameWord (t t' : Token) : Prop := t.kind = t'.kind ∧ (t.kind ≠ .semi → t.text = t'.text)

instance : DecidableRel SameWord := fun t t' =>
  inferInstanceAs (Decidable (t.kind = t'.kind ∧ (t.kind ≠ .semi → t.text = t'.text)))

theorem SameWord.bare_eq {t t' : Token} (h : t.SameWord t') :
  t.bare = t'.bare
  := by
  obtain ⟨hkind, htext⟩ := h
  rw [bare, bare, ← hkind]
  split
  · rfl
  · next hsemi => rw [htext hsemi]

@[simp]
theorem display_bare (t : Token) :
  t.bare.display = t.display
  := by
  rw [display, display, kind_bare]
  split
  · rfl
  · rfl
  · next hsemi _ => rw [text_bare hsemi]

end Token

/-- An equation is read in step with its bare tokens. -/
theorem equation_bare (ts : List Token) :
  SameVerdict (fun _ => 0) (fun us us' => us' = us.map Token.bare) (equation ts)
    (equation (ts.map Token.bare))
  := by
  apply equation_map Token.kind_bare
  intro t hclosed
  have hsemi : t.kind ≠ .semi := fun hkind => hclosed (.inl hkind)
  rw [Token.mapPos, ← Token.text_bare hsemi]
  rfl

/-! ### Outcomes -/

/-- What a diagnostic says, wherever it stands. -/
def Diagnostic.wording (d : Diagnostic) : Diagnostic.Code × String := (d.code, d.message)

/-- Two readings have the same expression up to positions, or they fail with one diagnostic each,
which say the same. -/
inductive SameOutcome : Except ParseError Expr → Except ParseError Expr → Prop where
  | ok {e e' : Expr} (h : e.unplaced = e'.unplaced) : SameOutcome (.ok e) (.ok e')
  | error {err err' : ParseError} {d d' : Diagnostic} (hd : err.diagnostics = [d])
      (hd' : err'.diagnostics = [d']) (h : d.wording = d'.wording) :
    SameOutcome (.error err) (.error err')

/-- If only the characters of an equation are at fault, then this is what is reported. -/
theorem exists_wording_of_ok {eqn : String} {e : Expr} (name : String)
    (h : equation (equationTokens eqn) = .ok e) (hfault : lexicalErrors eqn ≠ []) :
  ∃ err d, parse name eqn = .error err ∧ err.diagnostics = [d] ∧ lexicalErrors eqn = [d]
  := by
  have hparse : parse name eqn = _ := parse_of_ok h
  rw [if_neg hfault] at hparse
  obtain ⟨d, hd, hlexical, -⟩ := exists_diagnostic_of_ok h hparse
  exact ⟨_, d, hparse, hd, hlexical⟩

/-- What is said about a failure, where `lexical` is said about the characters of the equation: a
lexical fault comes first if the failure is at the end of what could be read. -/
def Failure.wording (lexical : List (Diagnostic.Code × String)) (f : Failure) :
    Diagnostic.Code × String :=
  (if (lookahead f.rest).kind = .eof then lexical else []).headD (f.cause.code, f.cause.message)

theorem Fault.message_congr (complaint : Complaint) {t t' : Token} (hkind : t'.kind = t.kind)
    (hdisplay : t'.display = t.display) :
  (⟨complaint, t'⟩ : Fault).message = (⟨complaint, t⟩ : Fault).message
  := by
  simp only [message, hkind, hdisplay]

theorem Fault.code_congr (complaint : Complaint) {t t' : Token} (hkind : t'.kind = t.kind) :
  (⟨complaint, t'⟩ : Fault).code = (⟨complaint, t⟩ : Fault).code
  := by
  simp only [code, hkind]

/-- Failures of readings in step are worded in the same way, if the tokens are shown in the same
way. -/
theorem SameVerdict.wording_eq {f : Nat → Nat} {g : Token → Token} {failure failure' : Failure}
    (h : SameVerdict f (fun us us' => us' = us.map g) (.error failure) (.error failure'))
    (hkind : ∀ t, (g t).kind = t.kind) (hdisplay : ∀ t, (g t).display = t.display)
    (lexical : List (Diagnostic.Code × String)) :
  failure'.wording lexical = failure.wording lexical
  := by
  cases h with
  | @error complaint _ _ rest _ hrest =>
    subst hrest
    have hlook : (lookahead (rest.map g)).kind = (lookahead rest).kind
        ∧ (lookahead (rest.map g)).display = (lookahead rest).display := by
      cases rest with
      | nil => exact ⟨rfl, rfl⟩
      | cons t rest => exact ⟨hkind t, hdisplay t⟩
    rw [Failure.wording, Failure.wording, hlook.1, Fault.code_congr complaint hlook.1,
      Fault.message_congr complaint hlook.1 hlook.2]

/-- The faults of the characters of an equation that have been found where its reading fails. -/
def lexicalErrorsAt (eqn : String) (failure : Failure) : List Diagnostic :=
  if (lookahead failure.rest).kind = .eof then lexicalErrors eqn else []

/-- They stand at the token that the failure is about. -/
theorem offset_of_lexicalErrorsAt {eqn : String} {failure : Failure} {before behind : List Token}
    {t : Token} (hts : equationTokens eqn = before ++ t :: behind) (h : Misfit failure before t) :
  lexicalErrorsAt eqn failure = []
    ∨ ∃ d, lexicalErrorsAt eqn failure = [d] ∧ d.pos.offset = t.pos
  := by
  obtain ⟨body, offset, htokens, hbody, hfaults⟩ := exists_equationTokens eqn
  rw [lexicalErrorsAt, h.reached]
  split
  · next hend =>
    obtain ⟨-, rfl, -⟩ :=
      eq_of_append_endOfText (htokens.symm.trans hts) (fun u hu => (hbody u hu).2) hend
    exact hfaults
  · exact .inl rfl

/-- What is reported if the expression of an equation cannot be read. -/
theorem exists_wording_of_error {eqn : String} {failure : Failure} (name : String)
    (h : equation (equationTokens eqn) = .error failure) :
  ∃ err d, parse name eqn = .error err ∧ err.diagnostics = [d]
    ∧ d.wording = failure.wording ((lexicalErrors eqn).map Diagnostic.wording)
    ∧ d.pos.offset = (lookahead failure.rest).pos
  := by
  obtain ⟨before, t, behind, hts, -, hmisfit⟩ := exists_misfit_of_text h
  have hparse : parse name eqn = _ := parse_of_error h
  rw [← lexicalErrorsAt] at hparse
  obtain ⟨d, hsorted, hoffset, hd⟩ := hmisfit.sorted eqn (offset_of_lexicalErrorsAt hts hmisfit)
  have hwording : failure.wording ((lexicalErrors eqn).map Diagnostic.wording)
      = ((lexicalErrorsAt eqn failure).map Diagnostic.wording).headD
          (failure.cause.code, failure.cause.message) := by
    rw [Failure.wording, lexicalErrorsAt]
    split <;> rfl
  refine ⟨_, d, hparse, hsorted, ?_, by rw [hoffset, hmisfit.reached]⟩
  obtain hd | ⟨hd, rfl⟩ := hd
  · rw [hwording, hd]
    rfl
  · rw [hwording, hd]
    rfl

/-- Equations with the same bare tokens and the same lexical fault have the same outcome. -/
theorem sameOutcome_of_bare {u v : String}
    (htokens : (equationTokens u).map Token.bare = (equationTokens v).map Token.bare)
    (hfaults : (lexicalErrors u).map Diagnostic.wording = (lexicalErrors v).map Diagnostic.wording)
    (name name' : String) :
  SameOutcome (parse name u) (parse name' v)
  := by
  have hbare := equation_bare (equationTokens u)
  have hbare' := equation_bare (equationTokens v)
  rw [htokens] at hbare
  cases hu : equation (equationTokens u) with
  | ok e =>
    rw [hu] at hbare
    rw [hbare.eq_of_ok] at hbare'
    obtain ⟨e', hv, he⟩ := hbare'.exists_of_ok
    by_cases hfault : lexicalErrors u = []
    · have hfault' : lexicalErrors v = [] := by simpa [hfault] using hfaults
      rw [parse_of_ok hu, parse_of_ok hv, if_pos hfault, if_pos hfault']
      apply SameOutcome.ok he
    · have hfault' : lexicalErrors v ≠ [] := by
        intro hnil
        apply hfault
        simpa [hnil] using hfaults
      obtain ⟨err, d, hparse, hd, hlexical⟩ := exists_wording_of_ok name hu hfault
      obtain ⟨err', d', hparse', hd', hlexical'⟩ := exists_wording_of_ok name' hv hfault'
      rw [hlexical, hlexical'] at hfaults
      rw [hparse, hparse']
      apply SameOutcome.error hd hd' (List.singleton_inj.mp hfaults)
  | error failure =>
    rw [hu] at hbare
    obtain ⟨middle, hmiddle⟩ := hbare.exists_error_iff.mp ⟨failure, rfl⟩
    rw [hmiddle] at hbare hbare'
    obtain ⟨failure', hv⟩ := hbare'.exists_error_iff.mpr ⟨middle, rfl⟩
    rw [hv] at hbare'
    obtain ⟨err, d, hparse, hd, hwording, -⟩ := exists_wording_of_error name hu
    obtain ⟨err', d', hparse', hd', hwording', -⟩ := exists_wording_of_error name' hv
    rw [hparse, hparse']
    apply SameOutcome.error hd hd'
    rw [hwording, hwording', hfaults, ← hbare.wording_eq Token.kind_bare Token.display_bare,
      hbare'.wording_eq Token.kind_bare Token.display_bare]

/-- The outcome of reading an equation depends on its tokens only, that is on their kinds and, but
for terminators, on their texts; and on what is wrong with its characters, wherever that is found.
If the expressions can be read, they are the same up to positions, and otherwise the diagnostics
have the same code and the same message. -/
theorem parse_depends_on_tokens {u v : String}
    (htokens : List.Forall₂ Token.SameWord (equationTokens u) (equationTokens v))
    (hfaults : (lexicalErrors u).map Diagnostic.wording = (lexicalErrors v).map Diagnostic.wording)
    (name name' : String) :
  SameOutcome (parse name u) (parse name' v)
  := by
  have hbare : List.Forall₂ (· = ·) ((equationTokens u).map Token.bare)
      ((equationTokens v).map Token.bare) := by
    rw [List.forall₂_map_left_iff, List.forall₂_map_right_iff]
    apply htokens.imp
    intro t t' h
    apply h.bare_eq
  rw [List.forall₂_eq_eq_eq] at hbare
  apply sameOutcome_of_bare hbare hfaults

/-- A call on two lines, and one whose terminator is inserted after a comment, are the same
expression at other positions.  If a bracket stands where the call ends, they are refused in the
same words. -/
theorem parse_depends_on_tokens_in_call :
  (∃ e e', parse "y" "f(a,\n(b)(c));" = .ok e ∧ parse "z" "f ( a,(b)*(c)) // x" = .ok e'
    ∧ e.unplaced = e'.unplaced ∧ e ≠ e')
    ∧ ∃ err err' d d', parse "y" "f(a,\n(b)(c) ];" = .error err
      ∧ parse "z" "f ( a,(b)*(c)] // x" = .error err'
      ∧ err.diagnostics = [d] ∧ err'.diagnostics = [d'] ∧ d.wording = d'.wording
      ∧ d.pos.offset ≠ d'.pos.offset
  := by
  constructor
  · have hparse : parse "y" "f(a,\n(b)(c));" = .ok (.call (.ident 0 "f") 1 [.ident 2 "a",
        .binary (.paren 5 (.ident 6 "b") 7) 8 .mul (.paren 8 (.ident 9 "c") 10)] 11) := by
      decide +kernel
    have hparse' : parse "z" "f ( a,(b)*(c)) // x" = .ok (.call (.ident 0 "f") 2 [.ident 4 "a",
        .binary (.paren 6 (.ident 7 "b") 8) 9 .mul (.paren 10 (.ident 11 "c") 12)] 13) := by
      decide +kernel
    have htokens : List.Forall₂ Token.SameWord
        (equationTokens "f(a,\n(b)(c));") (equationTokens "f ( a,(b)*(c)) // x") := by
      decide +kernel
    have houtcome := parse_depends_on_tokens htokens (by decide +kernel) "y" "z"
    rw [hparse, hparse'] at houtcome
    cases houtcome with
    | ok h =>
      refine ⟨_, _, hparse, hparse', h, ?_⟩
      decide
  · have herror : parse "y" "f(a,\n(b)(c) ];" = .error ⟨"y", "f(a,\n(b)(c) ];",
        [⟨.badCallArgs, "call: expected ',' or ')', got (rbracket ])", ⟨12, 2, 8⟩⟩]⟩ := by
      decide +kernel
    have herror' : parse "z" "f ( a,(b)*(c)] // x" = .error ⟨"z", "f ( a,(b)*(c)] // x;",
        [⟨.badCallArgs, "call: expected ',' or ')', got (rbracket ])", ⟨13, 1, 14⟩⟩]⟩ := by
      decide +kernel
    have htokens : List.Forall₂ Token.SameWord
        (equationTokens "f(a,\n(b)(c) ];") (equationTokens "f ( a,(b)*(c)] // x") := by
      decide +kernel
    have houtcome := parse_depends_on_tokens htokens (by decide +kernel) "y" "z"
    rw [herror, herror'] at houtcome
    cases houtcome with
    | error hd hd' h =>
      refine ⟨_, _, _, _, herror, herror', hd, hd', h, ?_⟩
      cases hd
      cases hd'
      decide

end EquationLang
