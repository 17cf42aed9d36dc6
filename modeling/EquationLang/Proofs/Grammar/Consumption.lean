import EquationLang.Proofs.Diagnostic.Sorted
import EquationLang.Proofs.Grammar.Acceptance
import EquationLang.Proofs.Grammar.Descent
import EquationLang.Proofs.Grammar.Simulation

/-!
# Each token is taken at most once

Reading an equation on demand gives the same answer as reading the list of its tokens, and stops
with the lexer `lexerAtStop` (`OnDemand.exists_parse`).  It takes the tokens one after the other,
but never the mark of the end (`each_token_is_taken_once`).
-/

namespace EquationLang

/-- An expression and the terminators after it, up to the mark of the end. -/
def statement (ts : List Token) : Except Failure (Expr × List Token) := do
  let (e, rest) ← (Parser.expression (Parser.factor maxNesting)).run ts
  match (lookahead rest).kind with
  | .semi =>
    let trailing := rest.dropWhile (·.kind = .semi)
    if (lookahead trailing).kind = .eof then .ok (e, trailing) else refuse .noEquationEnd trailing
  | .eof => refuse .noTerminator rest
  | _ => refuse .noEquationEnd rest

/-- An equation that is not empty is a statement. -/
theorem equation_eq {ts : List Token} (h : ¬ (lookahead ts).Closes) :
  equation ts = (statement ts).map Prod.fst
  := by
  rw [equation_of_not_closes h, statement]
  cases (Parser.expression (Parser.factor maxNesting)).run ts with
  | error => rfl
  | ok p =>
    simp only [bind, Except.bind, ending]
    cases (lookahead p.2).kind with
    | semi =>
      dsimp only
      split <;> rfl
    | eof | ident | num | str | operator | lbrace | rbrace | lparen | rparen | lbracket
      | rbracket => rfl

theorem Parser.run_levels_of_error {operand : Parser Expr} {ts : List Token} {failure : Failure}
    (h : operand.run ts = .error failure) (table : PrecedenceTable) :
  (table.foldr Parser.chain operand).run ts = .error failure
  := by
  induction table with
  | nil => exact h
  | cons ops table ih =>
    change ((table.foldr Parser.chain operand).run ts >>= _) = _
    rw [ih]
    rfl

/-- Where the text ends, nothing can be read. -/
theorem statement_of_end {t : Token} (h : t.kind = .eof) (ts : List Token) :
  statement (t :: ts) = refuse .noOperand (t :: ts)
  := by
  have hoperand : (Parser.factor maxNesting).run (t :: ts) = refuse .noOperand (t :: ts) := by
    obtain ⟨n, hn⟩ : ∃ n, maxNesting = n + 1 := ⟨_, rfl⟩
    rw [hn]
    change Parser.operandOver (Parser.factor n) (t :: ts) = _
    rw [Parser.operandOver, h]
  rw [statement, Parser.expression, Parser.run_levels_of_error hoperand]
  rfl

/-- A statement ends with the mark of the end. -/
theorem end_of_statement {ts rest : List Token} {e : Expr} (h : statement ts = .ok (e, rest)) :
  (lookahead rest).kind = .eof
  := by
  rw [statement] at h
  cases hrun : (Parser.expression (Parser.factor maxNesting)).run ts with
  | error =>
    rw [hrun] at h
    cases h
  | ok p =>
    rw [hrun] at h
    simp only [bind, Except.bind] at h
    split at h
    · split at h
      · next hend =>
        cases h
        exact hend
      · cases h
    · cases h
    · cases h

/-- If a lexical fault ends an equation before it begins, then nothing else is said about this
place. -/
theorem sorted_lexicalErrors_append {eqn : String} {t : Token} {ts : List Token}
    (htokens : equationTokens eqn = t :: ts) (hend : t.kind = .eof) (hfaulty : ¬ IsFaultless eqn)
    (complaint : Complaint) :
  Diagnostics.sorted
      ⟨lexicalErrors eqn ++ [(⟨complaint, t⟩ : Fault).diagnose (equationPosition eqn)]⟩
    = lexicalErrors eqn
  := by
  obtain ⟨body, offset, hbody, hproper, hfaults⟩ := exists_equationTokens eqn
  have hfirst : body ++ [.endOfText offset] = [] ++ t :: ts := hbody.symm.trans htokens
  obtain ⟨-, rfl, -⟩ := eq_of_append_endOfText hfirst (fun u hu => (hproper u hu).2) hend
  obtain hfaultless | ⟨d, hd, rfl⟩ := hfaults
  · exact absurd hfaultless hfaulty
  · rw [hd]
    apply Diagnostics.sorted_of_offset
    intro d' hd'
    obtain rfl := List.mem_singleton.mp hd'
    rfl

/-- A session that has looked at the next token knows of a lexical fault exactly if this token marks
the end. -/
theorem Session.IsAt.errors_eq {text : String} {ds : List Diagnostic} {t : Token} {ts : List Token}
    {s : Session} (h : s.IsAt text ds (t :: ts)) (fed : s.lexer.starved = false) :
  s.lexer.errors.toList = if t.kind = .eof then Lexer.faultsOf text else []
  := by
  have hcome := h.toCome
  cases stop : s.lexer.stop? with
  | none =>
    obtain ⟨-, -, -, herrors, hpending⟩ := h.follows.reading stop
    have hne : s.lexer.pending ≠ [] := by simpa [Lexer.starved, stop] using fed
    obtain ⟨u, us, hcons⟩ := List.exists_cons_of_ne_nil hne
    rw [Lexer.toCome, hcons] at hcome
    obtain ⟨rfl, -⟩ := List.cons.inj hcome
    rw [herrors, if_neg (hpending u (by simp [hcons]))]
  | some offset =>
    obtain ⟨-, herrors, hfault⟩ := h.follows.stopped offset stop
    rw [List.nil_append] at herrors
    rw [Lexer.toCome_of_stopped (by rw [stop]; rfl)] at hcome
    rw [herrors]
    split
    · rfl
    · next hkind =>
      rw [Lexer.faultsOf_eq_nil_iff]
      by_contra hsome
      obtain ⟨fault, hread⟩ := Option.ne_none_iff_exists'.mp hsome
      exact hkind ((hfault fault hread).2 t (by simp [hcome]))

/-! ### Where reading stops -/

/-- How many tokens are taken when an equation is read: all but the mark of the end, or those before
the token that the reading fails at. -/
def tokensTaken (eqn : String) : Nat :=
  match equation (equationTokens eqn) with
  | .ok _ => (equationTokens eqn).length - 1
  | .error failure => (equationTokens eqn).length - failure.rest.length

/-- The lexer where the reading of an equation stops. -/
def lexerAtStop (eqn : String) : Lexer := (Lexer.ofText (normalize eqn)).skip (tokensTaken eqn)

theorem tokensTaken_of_error {eqn : String} {failure : Failure} {before : List Token}
    (h : equation (equationTokens eqn) = .error failure)
    (htokens : equationTokens eqn = before ++ failure.rest) :
  tokensTaken eqn = before.length
  := by
  rw [tokensTaken, h, htokens]
  simp

theorem tokensTaken_of_ok {eqn : String} {e : Expr} {before behind : List Token} {t : Token}
    (h : equation (equationTokens eqn) = .ok e)
    (htokens : equationTokens eqn = before ++ t :: behind) (hend : t.kind = .eof) :
  tokensTaken eqn = before.length
  := by
  obtain ⟨body, offset, hbody, hproper, -⟩ := exists_equationTokens eqn
  obtain ⟨rfl, -, -⟩ :=
    eq_of_append_endOfText (hbody.symm.trans htokens) (fun u hu => (hproper u hu).2) hend
  rw [tokensTaken, h, hbody]
  simp

/-- The session has come to where the reading of the equation stops, and has looked at the token
there. -/
structure Session.IsAtStop (eqn : String) (s : Session) : Prop where
  taken : s.taken <+: equationTokens eqn
  proper : ∀ t ∈ s.taken, t.kind ≠ .eof
  count : s.taken.length = tokensTaken eqn
  lexer : s.lexer = (lexerAtStop eqn).peek.2

theorem Session.IsAt.isAtStop {eqn : String} {ds : List Diagnostic} {ts : List Token} {s : Session}
    (h : s.IsAt (normalize eqn) ds ts) (fed : s.lexer.starved = false)
    (hcount : tokensTaken eqn = s.taken.length) :
  s.IsAtStop eqn
  := by
  constructor
  case taken =>
    use ts
    apply h.tokens.symm
  case proper => apply h.taken
  case count => apply hcount.symm
  case lexer =>
    have hplace := h.place
    rw [Lexer.scan_of_fed fed, ← hcount] at hplace
    exact hplace

namespace OnDemand

variable {α β : Type} {text : String}

/-! ### Equations -/

/-- Terminators need no more fuel than there are tokens to come. -/
theorem simulates_skipTerminators (fuel : Nat) (ts : List Token) (hts : ts.length ≤ fuel) :
  Simulates text (skipTerminators fuel) ts (.ok ((), ts.dropWhile (·.kind = .semi)))
  := by
  induction fuel generalizing ts with
  | zero =>
    obtain rfl := List.length_eq_zero_iff.mp (Nat.le_zero.mp hts)
    apply simulates_nil
  | succ fuel ih =>
    cases ts with
    | nil => apply simulates_nil
    | cons t ts =>
      have hconsume : Simulates text _ _ _ :=
        simulates_consume (show Token.Kind.semi ≠ .eof by simp) t ts
      rw [skipTerminators, terminatorRound]
      split at hconsume
      · next hkind =>
        rw [List.dropWhile_cons_of_pos (by simp [hkind])]
        apply hconsume.and_then
        exact ih ts (Nat.le_of_succ_le_succ hts)
      · next hkind =>
        rw [List.dropWhile_cons_of_neg (by simp [hkind])]
        apply hconsume.and_then
        apply simulates_pure

theorem implements_statement (text : String) (fuel : Nat) :
  Implements text fuel (statement fuel) EquationLang.statement
  := by
  intro ts hts
  apply ((implements_factor text fuel maxNesting).levels PrecedenceTable.standard ts hts).bind
  intro e rest hrun
  have hlength := (Parser.expression (Parser.factor maxNesting)).progress hrun
  cases rest with
  | nil => apply simulates_nil
  | cons t rest =>
    apply (simulates_peek t rest).and_then
    change Simulates text _ _ (match t.kind with | .semi => _ | .eof => _ | _ => _)
    cases hkind : t.kind with
    | semi =>
      apply (simulates_skipTerminators fuel (t :: rest) (by omega)).and_then
      dsimp only
      cases (t :: rest).dropWhile (·.kind = .semi) with
      | nil => apply simulates_nil
      | cons u rest =>
        apply (simulates_peek u rest).and_then
        change Simulates text _ _ (if u.kind = .eof then _ else _)
        split
        · apply simulates_pure
        · apply simulates_complain
    | eof => apply simulates_complain
    | ident | num | str | operator | lbrace | rbrace | lparen | rparen | lbracket | rbracket =>
      apply simulates_complain

/-- A part that ends with a value has looked at the next token last. -/
def LooksLast (part : Action α) : Prop :=
  ∀ s a s', part s = some (.ok a, s') → s'.lexer.starved = false

theorem LooksLast.bind {part : Action α} {f : α → Action β} (h : ∀ a, LooksLast (f a)) :
  LooksLast (part >>= f)
  := by
  intro s b s' hend
  cases hpart : part s with
  | none =>
    rw [bind_of_none hpart] at hend
    cases hend
  | some ending =>
    obtain ⟨⟨d⟩ | ⟨a⟩, s₁⟩ := ending
    · rw [bind_of_error hpart] at hend
      cases hend
    · rw [bind_of_ok hpart] at hend
      apply h a _ _ _ hend

/-- A part that fails has no value. -/
theorem looksLast_complain (complaint : Complaint) :
  LooksLast (complain (α := α) complaint)
  := by
  intro s a s' hend
  cases hend

theorem looksLast_statement (fuel : Nat) :
  LooksLast (statement fuel)
  := by
  apply LooksLast.bind
  intro e
  apply LooksLast.bind
  intro t
  cases t.kind with
  | semi =>
    apply LooksLast.bind
    intro _ s a s' hend
    rw [bind_of_ok (show peek s = some (.ok s.lexer.peek.1, _) from rfl)] at hend
    split at hend
    · cases hend
      apply Lexer.not_starved_scan
    · cases hend
  | eof | ident | num | str | operator | lbrace | rbrace | lparen | rparen | lbracket | rbracket =>
    apply looksLast_complain

theorem looksLast_equation (fuel : Nat) :
  LooksLast (equation fuel)
  := by
  apply LooksLast.bind
  intro first
  apply LooksLast.bind
  intro faulty
  split
  · apply looksLast_complain
  · apply looksLast_statement

/-- Nothing has been taken from the text yet. -/
theorem isAt_ofText (text : String) :
  Session.IsAt text [] (Lexer.ofText text).drain.1 { lexer := Lexer.ofText text }
  := by
  constructor
  case follows => apply Lexer.follows_ofText
  case place => rfl
  case toCome => rw [Lexer.drain_tokens]
  case tokens => rw [List.nil_append]
  case taken => simp
  case reported => rfl

/-- An equation is read as a statement, unless it is empty and no lexical fault is the reason. -/
theorem endsLike_equation {s : Session} {ds : List Diagnostic} {t : Token} {ts : List Token}
    {fuel : Nat} (hs : s.IsAt text ds (t :: ts)) (hfuel : (t :: ts).length ≤ fuel) :
  EndsLike text ds (equation fuel s)
    (if (t.kind = .semi ∨ t.kind = .eof) ∧ (t.kind = .eof → Lexer.faultsOf text = []) then
      refuse .emptyEquation (t :: ts)
    else EquationLang.statement (t :: ts))
  := by
  have hpeek : s.lexer.peek.1 = t := Lexer.peek_of_toCome hs.toCome
  have hfaults := hs.peek.errors_eq (Lexer.not_starved_scan _)
  have hfaultless : s.lexer.peek.2.hasErrors = false
      ↔ (t.kind = .eof → Lexer.faultsOf text = []) := by
    rw [Bool.eq_false_iff, ne_eq, Lexer.hasErrors_iff, not_not, hfaults, ite_eq_right_iff]
  rw [equation, bind_of_ok (show peek s = some (.ok t, _) by rw [peek, hpeek])]
  rw [bind_of_ok (show hasErrors _ = some (.ok _, _) from rfl)]
  simp only [hfaultless]
  split
  · apply simulates_complain .emptyEquation _ _ _ hs.peek
  · apply implements_statement text fuel _ hfuel _ _ hs.peek

/-- The answer of a reading that has failed. -/
theorem exists_finish_of_error {ending : Option (Except Diagnostic Expr × Session)}
    {failure : Failure} (h : EndsLike text [] ending (.error failure)) (name : String) :
  ∃ s ds, (ending.map fun (result, s) => (finish name text result s, s))
      = some (.error ⟨name, text, Diagnostics.sorted
          ⟨(if (lookahead failure.rest).kind = .eof then Lexer.faultsOf text else [])
            ++ failure.faults.map (·.diagnose (positionsOf text))⟩⟩, s)
    ∧ s.IsAt text ds failure.rest ∧ s.lexer.starved = false
  := by
  obtain ⟨s, d, ds, rfl, hs, fed, hds⟩ := h
  obtain ⟨t, rest, hrest⟩ := List.exists_cons_of_ne_nil hs.ne_nil
  refine ⟨s, ds, ?_, hs, fed⟩
  rw [hrest] at hs
  rw [List.nil_append] at hds
  simp only [Option.map_some, finish, hs.errors_eq fed, hs.reported, hds, hrest]
  rfl

/-- The answer of a reading that has come to its end with an expression. -/
theorem exists_finish_of_ok {ending : Option (Except Diagnostic Expr × Session)} {e : Expr}
    {rest : List Token} (h : EndsLike text [] ending (.ok (e, rest)))
    (hlast : (lookahead rest).kind = .eof)
    (fed : ∀ s, ending = some (.ok e, s) → s.lexer.starved = false) (name : String) :
  ∃ s, (ending.map fun (result, s) => (finish name text result s, s))
      = some (if Lexer.faultsOf text = [] then .ok e
          else .error ⟨name, text, Diagnostics.sorted ⟨Lexer.faultsOf text⟩⟩, s)
    ∧ s.IsAt text [] rest ∧ s.lexer.starved = false
  := by
  obtain ⟨s, rfl, hs⟩ := h
  obtain ⟨t, rest, rfl⟩ := List.exists_cons_of_ne_nil hs.ne_nil
  refine ⟨s, ?_, hs, fed s rfl⟩
  have hfaults := (hs.errors_eq (fed s rfl)).trans (if_pos hlast)
  simp only [Option.map_some, finish, hfaults, hs.reported, List.append_nil]

theorem lexicalErrors_eq (eqn : String) :
  lexicalErrors eqn = Lexer.faultsOf (normalize eqn)
  := Lexer.toList_errors_drain (normalize eqn)

/-- A reading that fails as that of the list of tokens does has the same answer. -/
theorem exists_parse_of_error {fuel : Nat} {eqn : String} {failure : Failure}
    (hequation : EquationLang.equation (equationTokens eqn) = .error failure)
    (h : EndsLike (normalize eqn) [] (equation fuel { lexer := Lexer.ofText (normalize eqn) })
      (.error failure)) (name : String) :
  ∃ s, parse fuel name eqn = some (EquationLang.parse name eqn, s) ∧ s.IsAtStop eqn
  := by
  obtain ⟨s, ds, hfinish, hs, fed⟩ := exists_finish_of_error h name
  use s
  constructor
  · rw [parse_of_error hequation, lexicalErrors_eq]
    exact hfinish
  · apply hs.isAtStop fed
    apply tokensTaken_of_error hequation hs.tokens

/-- An equation that a lexical fault ends before it begins is not called empty, but the answer is
the same, which is about the lexical fault only. -/
theorem exists_parse_of_fault {fuel : Nat} {eqn : String} {t : Token} {ts : List Token}
    (htokens : equationTokens eqn = t :: ts) (hend : t.kind = .eof) (hfaulty : ¬ IsFaultless eqn)
    (h : EndsLike (normalize eqn) [] (equation fuel { lexer := Lexer.ofText (normalize eqn) })
      (refuse .noOperand (t :: ts))) (name : String) :
  ∃ s, parse fuel name eqn = some (EquationLang.parse name eqn, s) ∧ s.IsAtStop eqn
  := by
  have hequation :
      EquationLang.equation (equationTokens eqn) = refuse .emptyEquation (t :: ts) := by
    rw [htokens]
    exact equation_of_closes (.inr hend)
  have hsorted := sorted_lexicalErrors_append htokens hend hfaulty
  have hlookahead : (lookahead (t :: ts)).kind = .eof := hend
  obtain ⟨s, ds, hfinish, hs, fed⟩ := exists_finish_of_error h name
  use s
  constructor
  · apply hfinish.trans
    rw [parse_of_error hequation, ← lexicalErrors_eq]
    simp only [hlookahead, if_true]
    exact congrArg (fun ds => some (Except.error (ParseError.mk name (normalize eqn) ds), s))
      ((hsorted .noOperand).trans (hsorted .emptyEquation).symm)
  · apply hs.isAtStop fed
    apply tokensTaken_of_error hequation hs.tokens

/-- A reading that comes to its end with an expression has the same answer. -/
theorem exists_parse_of_ok {fuel : Nat} {eqn : String} {e : Expr} {rest : List Token}
    (hequation : EquationLang.equation (equationTokens eqn) = .ok e)
    (h : EndsLike (normalize eqn) [] (equation fuel { lexer := Lexer.ofText (normalize eqn) })
      (.ok (e, rest))) (hlast : (lookahead rest).kind = .eof) (name : String) :
  ∃ s, parse fuel name eqn = some (EquationLang.parse name eqn, s) ∧ s.IsAtStop eqn
  := by
  obtain ⟨s, hfinish, hs, fed⟩ :=
    exists_finish_of_ok h hlast (fun s hs => looksLast_equation fuel _ _ _ hs) name
  use s
  constructor
  · rw [parse_of_ok hequation, lexicalErrors_eq]
    exact hfinish
  · obtain ⟨t, rest, rfl⟩ := List.exists_cons_of_ne_nil hs.ne_nil
    apply hs.isAtStop fed
    apply tokensTaken_of_ok hequation hs.tokens hlast

/-- An equation that is read on demand, with as much fuel as it has tokens, has the same answer as
its list of tokens. -/
theorem exists_parse {fuel : Nat} {eqn : String} (hfuel : (equationTokens eqn).length ≤ fuel)
    (name : String) :
  ∃ s, parse fuel name eqn = some (EquationLang.parse name eqn, s) ∧ s.IsAtStop eqn
  := by
  have hs := isAt_ofText (normalize eqn)
  rw [← equationTokens] at hs
  obtain ⟨t, ts, htokens⟩ := List.exists_cons_of_ne_nil hs.ne_nil
  have hend := endsLike_equation (htokens ▸ hs) (htokens ▸ hfuel)
  rw [← lexicalErrors_eq] at hend
  by_cases hempty : t.kind = .semi ∨ t.kind = .eof
  · by_cases hfaultless : t.kind = .eof → IsFaultless eqn
    · rw [if_pos ⟨hempty, hfaultless⟩] at hend
      apply exists_parse_of_error _ hend
      rw [htokens]
      exact equation_of_closes hempty
    · rw [if_neg (fun h => hfaultless h.2)] at hend
      obtain ⟨hkind, hfaulty⟩ := Classical.not_imp.mp hfaultless
      rw [statement_of_end hkind] at hend
      apply exists_parse_of_fault htokens hkind hfaulty hend
  · have hopen : ¬ (lookahead (t :: ts)).Closes := hempty
    have hequation := equation_eq hopen
    rw [if_neg (fun h => hempty h.1)] at hend
    cases hstatement : EquationLang.statement (t :: ts) with
    | error failure =>
      rw [hstatement] at hend hequation
      apply exists_parse_of_error (htokens ▸ hequation) hend
    | ok p =>
      obtain ⟨e, rest⟩ := p
      rw [hstatement] at hend hequation
      apply exists_parse_of_ok (htokens ▸ hequation) hend (end_of_statement hstatement)

end OnDemand

/-- A text has finitely many tokens, about as many as characters, and the last one and no other
marks the end.  The reading of an equation ends with the answer of `parse`, with no more fuel than
there are tokens; it takes them one after the other, and not the mark of the end, since no loop goes
around and no operand is read inside another one without a token taken. -/
theorem each_token_is_taken_once (text name eqn : String) (spare : Nat) :
  (∃ body mark, (Lexer.ofText text).drain.1 = body ++ [mark] ∧ mark.kind = .eof
    ∧ (∀ t ∈ body, t.kind ≠ .eof)
    ∧ (body ++ [mark]).length ≤ text.toList.length + text.toList.count ')' + 2)
    ∧ (∃ s, OnDemand.parse ((equationTokens eqn).length + spare) name eqn
        = some (parse name eqn, s)
      ∧ s.taken <+: equationTokens eqn ∧ ∀ t ∈ s.taken, t.kind ≠ .eof)
    ∧ ∀ s, OnDemand.Advances s
  := by
  refine ⟨?_, ?_, OnDemand.advances⟩
  · obtain ⟨body, offset, hdrain, hbody⟩ := Lexer.exists_drain text
    refine ⟨body, .endOfText offset, hdrain, rfl, hbody, ?_⟩
    rw [← hdrain, Lexer.drain_eq_read]
    apply Cursor.length_read_le
  · obtain ⟨s, hparse, hs⟩ := OnDemand.exists_parse (Nat.le_add_right _ spare) name
    exact ⟨s, hparse, hs.taken, hs.proper⟩

/-- The second argument of the call lacks a comma before it, and only what comes before is taken. -/
example : (OnDemand.parse 8 "y" "f(a b)").map (fun (_, s) => s.taken.map (·.text))
    = some ["f", "(", "a"] := by
  decide +kernel

end EquationLang
