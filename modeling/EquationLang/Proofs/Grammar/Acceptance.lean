import EquationLang.Grammar.Equation
import EquationLang.Proofs.Grammar.Completeness
import EquationLang.Proofs.Grammar.Soundness
import EquationLang.Proofs.Token.Terminated
import Mathlib.Data.Set.Subsingleton

/-!
# Which equations are accepted

When the tokens of an equation are read, it is known what must have come before an expression is
returned (`equation_eq_ok_iff`) or a failure (`equationFails_of_error`).  So an equation is accepted
exactly if its text has no lexical fault and its tokens are those of a canonical expression that is
not too deep, with a terminator after it (`parse_eq_ok_iff`).  No two canonical expressions are
written with the same tokens (`Expr.Canonical.unique`).
-/

namespace EquationLang

/-! ### How an equation is read -/

/-- The token ends a statement or the text. -/
def Token.Closes (t : Token) : Prop := t.kind = .semi ∨ t.kind = .eof

theorem Token.Closes.kind_ne {t : Token} (h : t.Closes) {kind : Token.Kind}
    (hkind : kind ≠ .semi ∧ kind ≠ .eof) :
  t.kind ≠ kind
  := by
  rintro rfl
  obtain h | h := h
  · exact hkind.1 h
  · exact hkind.2 h

theorem Token.StartsOperand.not_closes {t : Token} (h : t.StartsOperand) :
  ¬ t.Closes
  := by
  rintro (hkind | hkind)
  · apply h.kind_ne (by simp) hkind
  · apply h.kind_ne (by simp) hkind

/-- What must come after the expression `e` of an equation: terminators, and the end of the
text. -/
def ending (e : Expr) (rest : List Token) : Except Failure Expr :=
  match (lookahead rest).kind with
  | .semi =>
    if (lookahead (rest.dropWhile (·.kind = .semi))).kind = .eof then .ok e
    else refuse .noEquationEnd (rest.dropWhile (·.kind = .semi))
  | .eof => refuse .noTerminator rest
  | _ => refuse .noEquationEnd rest

theorem equation_of_closes {ts : List Token} (h : (lookahead ts).Closes) :
  equation ts = refuse .emptyEquation ts
  := by
  obtain h | h := h <;> rw [equation, h]

theorem equation_of_not_closes {ts : List Token} (h : ¬ (lookahead ts).Closes) :
  equation ts
    = (Parser.expression (Parser.factor maxNesting)).run ts >>= fun (e, rest) => ending e rest
  := by
  rw [equation]
  split
  · next hkind => exact absurd (.inl hkind) h
  · next hkind => exact absurd (.inr hkind) h
  · rfl

/-- Without a terminator in front, none are skipped. -/
theorem dropWhile_of_kind_ne_semi {ts : List Token} (h : (lookahead ts).kind ≠ .semi) :
  ts.dropWhile (·.kind = .semi) = ts
  := by
  cases ts with
  | nil => rfl
  | cons t ts =>
    have ht : t.kind ≠ .semi := h
    exact List.dropWhile_cons_of_neg (by simpa using ht)

theorem ending_eq_ok_iff {e e' : Expr} {rest : List Token} :
  ending e rest = .ok e' ↔ e = e' ∧ (lookahead rest).kind = .semi
    ∧ (lookahead (rest.dropWhile (·.kind = .semi))).kind = .eof
  := by
  rw [ending]
  split
  · next hkind =>
    split
    · next hend => simp [hkind, hend]
    · next hend => simp [refuse, hend]
  · next hkind => simp [refuse, hkind]
  · next hsemi _ =>
    have hkind : (lookahead rest).kind ≠ .semi := hsemi
    simp [refuse, hkind]

/-- An expression with terminators after it is read, if the text ends there. -/
theorem equation_eq_ok_iff {ts : List Token} {e : Expr} :
  equation ts = .ok e ↔ ¬ (lookahead ts).Closes
    ∧ ∃ rest, (Parser.expression (Parser.factor maxNesting)).run ts = .ok (e, rest)
      ∧ (lookahead rest).kind = .semi
      ∧ (lookahead (rest.dropWhile (·.kind = .semi))).kind = .eof
  := by
  by_cases hclosed : (lookahead ts).Closes
  · simp [equation_of_closes hclosed, refuse, hclosed]
  · rw [equation_of_not_closes hclosed, Parser.bind_eq_ok_iff]
    constructor
    · rintro ⟨⟨e', rest⟩, hrun, hending⟩
      obtain ⟨rfl, hends⟩ := ending_eq_ok_iff.mp hending
      exact ⟨hclosed, rest, hrun, hends⟩
    · rintro ⟨-, rest, hrun, hends⟩
      exact ⟨(e, rest), hrun, ending_eq_ok_iff.mpr ⟨rfl, hends⟩⟩

/-- Why an equation cannot be read. -/
inductive EquationFails (ts : List Token) (failure : Failure) : Prop where
  | empty (hclosed : (lookahead ts).Closes)
      (h : refuse (α := Expr) .emptyEquation ts = .error failure)
  | inside (h : (Parser.expression (Parser.factor maxNesting)).run ts = .error failure)
  | unended {e : Expr} {rest : List Token}
      (hrun : (Parser.expression (Parser.factor maxNesting)).run ts = .ok (e, rest))
      (hend : (lookahead rest).kind = .eof)
      (h : refuse (α := Expr) .noTerminator rest = .error failure)
  | extra {e : Expr} {rest : List Token}
      (hrun : (Parser.expression (Parser.factor maxNesting)).run ts = .ok (e, rest))
      (hextra : (lookahead (rest.dropWhile (·.kind = .semi))).kind ≠ .eof)
      (h : refuse (α := Expr) .noEquationEnd (rest.dropWhile (·.kind = .semi)) = .error failure)

/-- An equation fails for no other reasons. -/
theorem equationFails_of_error {ts : List Token} {failure : Failure}
    (h : equation ts = .error failure) :
  EquationFails ts failure
  := by
  by_cases hclosed : (lookahead ts).Closes
  · rw [equation_of_closes hclosed] at h
    exact .empty hclosed h
  rw [equation_of_not_closes hclosed] at h
  cases hrun : (Parser.expression (Parser.factor maxNesting)).run ts with
  | error failure' =>
    rw [hrun] at h
    cases h
    exact .inside hrun
  | ok p =>
    obtain ⟨e, rest⟩ := p
    rw [hrun] at h
    change ending e rest = _ at h
    rw [ending] at h
    split at h
    · split at h
      · cases h
      · next hextra => exact .extra hrun hextra h
    · next hend => exact .unended hrun hend h
    · next hsemi hend =>
      have hdrop := dropWhile_of_kind_ne_semi hsemi
      rw [← hdrop] at hend h
      exact .extra hrun hend h

/-! ### Which tokens are those of an equation -/

/-- The tokens are those of the expression `e`, one terminator or more, and the mark of the end. -/
def IsEquation (e : Expr) (ts : List Token) : Prop :=
  ∃ us semis last, ts = us ++ (semis ++ [last]) ∧ e.Spelled us
    ∧ (∀ t ∈ semis, t.kind = .semi) ∧ semis ≠ [] ∧ last.kind = .eof

/-- The tokens up to the mark of the end, if it is the only one. -/
theorem eq_of_append_endOfText {body before behind : List Token} {t : Token} {offset : Nat}
    (h : body ++ [.endOfText offset] = before ++ t :: behind) (hbody : ∀ u ∈ body, u.kind ≠ .eof)
    (ht : t.kind = .eof) :
  body = before ∧ t = .endOfText offset ∧ behind = []
  := by
  induction body generalizing before with
  | nil =>
    obtain ⟨rfl, h⟩ | ⟨before, rfl, h⟩ := List.cons_eq_append_iff.mp h
    · obtain ⟨rfl, rfl⟩ := List.cons.inj h
      exact ⟨rfl, rfl, rfl⟩
    · cases before <;> cases h
  | cons u body ih =>
    cases before with
    | nil =>
      obtain ⟨rfl, -⟩ := List.cons.inj h
      exact absurd ht (hbody u List.mem_cons_self)
    | cons v before =>
      obtain ⟨rfl, h'⟩ := List.cons.inj h
      obtain ⟨rfl, ht, hbehind⟩ := ih h' fun v hv => hbody v (List.mem_cons_of_mem u hv)
      exact ⟨rfl, ht, hbehind⟩

/-- What is left after tokens before the mark of the end. -/
theorem exists_first_of_append {us rest : List Token} (hend : ∃ t ∈ us ++ rest, t.kind = .eof)
    (hus : ∀ t ∈ us, t.kind ≠ .eof) :
  ∃ t behind, rest = t :: behind
  := by
  apply List.exists_cons_of_ne_nil
  rintro rfl
  obtain ⟨t, ht, hkind⟩ := hend
  rw [List.append_nil] at ht
  apply hus t ht hkind

/-- What is left is terminators and then something else. -/
theorem exists_terminators {us rest : List Token} (hend : ∃ t ∈ us ++ rest, t.kind = .eof)
    (hus : ∀ t ∈ us, t.kind ≠ .eof) :
  ∃ semis t behind, rest = semis ++ t :: behind
    ∧ rest.dropWhile (·.kind = .semi) = t :: behind
    ∧ (∀ u ∈ semis, u.kind = .semi) ∧ t.kind ≠ .semi
  := by
  have hsplit : rest.takeWhile (·.kind = .semi) ++ rest.dropWhile (·.kind = .semi) = rest :=
    List.takeWhile_append_dropWhile
  have hsemis : ∀ t ∈ rest.takeWhile (·.kind = .semi), t.kind = .semi := by
    intro t ht
    simpa using List.mem_takeWhile_imp ht
  have hbefore : ∀ t ∈ us ++ rest.takeWhile (·.kind = .semi), t.kind ≠ .eof := by
    intro t ht
    obtain ht | ht := List.mem_append.mp ht
    · apply hus t ht
    · simp [hsemis t ht]
  rw [← hsplit, ← List.append_assoc] at hend
  obtain ⟨t, behind, htrailing⟩ := exists_first_of_append hend hbefore
  refine ⟨_, t, behind, htrailing ▸ hsplit.symm, htrailing, hsemis, ?_⟩
  simpa [htrailing] using List.head?_dropWhile_not (fun t => t.kind = .semi) rest

/-- The expression that is read is the one of the equation, and it is canonical and not too deep. -/
theorem isEquation_of_equation {body : List Token} {offset : Nat} {e : Expr}
    (hbody : ∀ t ∈ body, t.IsProper ∧ t.kind ≠ .eof)
    (h : equation (body ++ [.endOfText offset]) = .ok e) :
  IsEquation e (body ++ [.endOfText offset]) ∧ e.Canonical ∧ e.nest ≤ maxNesting
  := by
  obtain ⟨-, rest, hrun, hsemi, hend⟩ := equation_eq_ok_iff.mp h
  have hmark : ∃ t ∈ body ++ [.endOfText offset], t.kind = .eof :=
    ⟨.endOfText offset, by simp, rfl⟩
  obtain ⟨us, hus, he⟩ := Parser.sound_joined (Nat.zero_le _) maxNesting _ _ _
    (proper_of_append_endOfText hbody) hrun
  refine ⟨?_, he.canonical, he.nest⟩
  obtain ⟨semis, t, behind, rfl, hdrop, hsemis, ht⟩ :=
    exists_terminators (hus ▸ hmark) he.spelled.kind_ne_eof
  rw [hdrop] at hend
  rw [← List.append_assoc] at hus
  obtain ⟨-, -, rfl⟩ := eq_of_append_endOfText hus (fun u hu => (hbody u hu).2) hend
  rw [hus, List.append_assoc]
  refine ⟨us, semis, t, rfl, he.spelled, hsemis, ?_, hend⟩
  rintro rfl
  apply ht hsemi

/-- An equation starts with an operand. -/
theorem IsEquation.exists_first {e : Expr} {ts : List Token} (h : IsEquation e ts) :
  ∃ t us, ts = t :: us ∧ t.StartsOperand
  := by
  obtain ⟨us, semis, last, rfl, hspelled, -⟩ := h
  obtain ⟨t, vs, rfl, hstart, -⟩ := hspelled.exists_first
  exact ⟨t, vs ++ (semis ++ [last]), rfl, hstart⟩

/-- The canonical expression of an equation is read up to its terminators, if it is not too deep for
the reading. -/
theorem IsEquation.run {e : Expr} {ts : List Token} (h : IsEquation e ts) (hcanonical : e.Canonical)
    {k : Nat} (hnest : e.nest ≤ k) :
  ∃ semis last, (Parser.expression (Parser.factor k)).run ts = .ok (e, semis ++ [last])
    ∧ (∀ t ∈ semis, t.kind = .semi) ∧ semis ≠ [] ∧ last.kind = .eof
  := by
  obtain ⟨us, semis, last, rfl, hspelled, hsemis, hne, hlast⟩ := h
  refine ⟨semis, last, ?_, hsemis, hne, hlast⟩
  obtain ⟨semi, semis, rfl⟩ := List.exists_cons_of_ne_nil hne
  apply Parser.run_joined_of_reading (Nat.zero_le _)
  refine ⟨hspelled, hcanonical, Nat.zero_le _, hnest, ?_⟩
  have hsemi : semi.kind = .semi := hsemis semi List.mem_cons_self
  apply Parser.stops_of_closes <;> simp [lookahead, hsemi]

/-- The equation of a canonical expression that is not too deep is read. -/
theorem equation_of_isEquation {ts : List Token} {e : Expr} (h : IsEquation e ts)
    (hcanonical : e.Canonical) (hnest : e.nest ≤ maxNesting) :
  equation ts = .ok e
  := by
  obtain ⟨t, us, rfl, hstart⟩ := h.exists_first
  obtain ⟨semis, last, hrun, hsemis, hne, hlast⟩ := h.run hcanonical hnest
  refine equation_eq_ok_iff.mpr ⟨hstart.not_closes, semis ++ [last], hrun, ?_, ?_⟩
  · obtain ⟨semi, semis, rfl⟩ := List.exists_cons_of_ne_nil hne
    apply hsemis semi List.mem_cons_self
  · rw [List.dropWhile_append_of_pos (by simpa using hsemis),
      List.dropWhile_cons_of_neg (by simp [hlast])]
    exact hlast

/-- An expression is accepted if there is no lexical fault. -/
theorem parse_of_ok {name eqn : String} {e : Expr} (h : equation (equationTokens eqn) = .ok e) :
  parse name eqn
    = if lexicalErrors eqn = [] then .ok e
      else .error ⟨name, normalize eqn, Diagnostics.sorted ⟨lexicalErrors eqn⟩⟩
  := by
  rw [equationTokens] at h
  rw [parse]
  simp only [h, Lexer.hasErrors_iff, ne_eq, ite_not]
  rfl

/-- A failure is reported after the lexical fault, if it is at the end of what could be read. -/
theorem parse_of_error {name eqn : String} {failure : Failure}
    (h : equation (equationTokens eqn) = .error failure) :
  parse name eqn
    = .error ⟨name, normalize eqn, Diagnostics.sorted
        ⟨(if (lookahead failure.rest).kind = .eof then lexicalErrors eqn else [])
          ++ failure.faults.map (·.diagnose (equationPosition eqn))⟩⟩
  := by
  rw [equationTokens] at h
  rw [parse]
  simp only [h]
  split <;> rfl

/-- An equation is accepted exactly if it has no lexical fault and its tokens are those of a
canonical expression that is not too deep. -/
theorem parse_eq_ok_iff {name eqn : String} {e : Expr} :
  parse name eqn = .ok e
    ↔ IsFaultless eqn ∧ IsEquation e (equationTokens eqn) ∧ e.Canonical ∧ e.nest ≤ maxNesting
  := by
  have hparse : parse name eqn = .ok e
      ↔ IsFaultless eqn ∧ equation (equationTokens eqn) = .ok e := by
    cases hequation : equation (equationTokens eqn) with
    | ok e' =>
      rw [parse_of_ok hequation, IsFaultless]
      split <;> simp_all
    | error failure => simp [parse_of_error hequation]
  rw [hparse]
  obtain ⟨body, offset, htokens, hproper, -⟩ := exists_equationTokens eqn
  constructor
  · rintro ⟨hfaultless, h⟩
    rw [htokens] at h ⊢
    exact ⟨hfaultless, isEquation_of_equation hproper h⟩
  · rintro ⟨hfaultless, h, hcanonical, hnest⟩
    exact ⟨hfaultless, equation_of_isEquation h hcanonical hnest⟩

/-- A text that is read as the tokens of a canonical expression, with a terminator after it, is
accepted. -/
theorem parse_of_reads {name : String} {cs : List Char} {c : Char} {e : Expr} {us : List Token}
    {k : Cursor} (hblank : isBlank c = false) (hterminator : c ≠ terminator)
    (hreads : (Cursor.start (cs ++ [c] ++ [terminator])).Reads us k) (hk : k.rest = [terminator])
    (hspelled : e.Spelled us) (hcanonical : e.Canonical) (hnest : e.nest ≤ maxNesting) :
  parse name (String.ofList (cs ++ [c])) = .ok e
  := by
  have hread : (Cursor.start (normalize (String.ofList (cs ++ [c]))).toList).read
      = (us ++ [⟨.semi, k.offset, ";"⟩, .endOfText (k.offset + 1)], none) := by
    rw [normalize_of_last String.toList_ofList hblank hterminator, hreads.read_eq,
      show k = ⟨k.offset, k.canEnd, k.rest⟩ from rfl, hk, read_terminator]
  apply parse_eq_ok_iff.mpr
  refine ⟨?_, ?_, hcanonical, hnest⟩
  · rw [isFaultless_iff, hread]
  · rw [equationTokens_eq_read, hread]
    use us, [⟨.semi, k.offset, ";"⟩], .endOfText (k.offset + 1), rfl, hspelled
    simp [Token.endOfText]

/-- No two canonical expressions are written with the same tokens. -/
theorem Expr.Canonical.unique {e e' : Expr} {us : List Token} (h : e.Canonical) (h' : e'.Canonical)
    (hspelled : e.Spelled us) (hspelled' : e'.Spelled us) :
  e = e'
  := by
  have hstops (e : Expr) : Parser.Stops 0 e (lookahead []) := by
    apply Parser.stops_of_closes <;> simp [lookahead, Token.endOfText]
  have hrun : (Parser.joined 0 (Parser.factor (max e.nest e'.nest))).run (us ++ []) = .ok (e, []) :=
    Parser.run_joined_of_reading (Nat.zero_le _)
      ⟨hspelled, h, Nat.zero_le _, Nat.le_max_left _ _, hstops e⟩
  rw [Parser.run_joined_of_reading (e := e') (Nat.zero_le _)
    ⟨hspelled', h', Nat.zero_le _, Nat.le_max_right _ _, hstops e'⟩] at hrun
  cases hrun
  rfl

/-- The equations that are accepted are those of the grammar, with the one expression that the
grammar prescribes. -/
theorem parse_accepts_grammar :
  (∀ name eqn e, parse name eqn = .ok e
    ↔ IsFaultless eqn ∧ IsEquation e (equationTokens eqn) ∧ e.Canonical ∧ e.nest ≤ maxNesting)
    ∧ ∀ us, {e : Expr | e.Canonical ∧ e.Spelled us}.Subsingleton
  := by
  constructor
  · intro name eqn e
    apply parse_eq_ok_iff
  · rintro us e ⟨h, hspelled⟩ e' ⟨h', hspelled'⟩
    apply h.unique h' hspelled hspelled'

end EquationLang
