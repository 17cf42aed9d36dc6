import EquationLang.Proofs.Grammar.Failure
import EquationLang.Proofs.Grammar.OnDemand
import EquationLang.Proofs.Token.Lookahead

/-!
# Reading on demand is reading a list of tokens

A session that reads a text has taken some of its tokens, and the others are still to come
(`Session.IsAt`).  A part of a reading simulates a way of taking a value off a list of tokens
(`OnDemand.Simulates`): it ends with the same value or with the same faults, and the same tokens are
left.  The mark of the end is never taken, and the loops need no more fuel than there are tokens to
come.
-/

namespace EquationLang

/-- The positions in a text. -/
def positionsOf (text : String) : Nat → Position := (Lexer.ofText text).drain.2.resolve

/-- The session reads the text `text` and has reported `ds`.  Of the tokens of the text, it has
taken those before `ts`, among which the mark of the end is not. -/
structure Session.IsAt (text : String) (ds : List Diagnostic) (ts : List Token) (s : Session) :
    Prop where
  follows : s.lexer.Follows text []
  /-- The lexer is the one from which as many tokens have been taken, but for looking ahead. -/
  place : s.lexer.scan = ((Lexer.ofText text).skip s.taken.length).scan
  toCome : s.lexer.toCome = ts
  tokens : (Lexer.ofText text).drain.1 = s.taken ++ ts
  taken : ∀ t ∈ s.taken, t.kind ≠ .eof
  reported : s.reported = ds

namespace Session.IsAt

variable {text : String} {ds : List Diagnostic} {t : Token} {ts : List Token} {s : Session}

/-- The mark of the end is still to come. -/
theorem ne_nil (h : s.IsAt text ds ts) :
  ts ≠ []
  := by
  rintro rfl
  obtain ⟨body, offset, hdrain, -⟩ := Lexer.exists_drain text
  have htokens := h.tokens
  rw [hdrain, List.append_nil] at htokens
  exact h.taken (.endOfText offset) (by simp [← htokens]) rfl

/-- The position of a token that has been looked at is the one in the text. -/
theorem resolve_peek (h : s.IsAt text ds (t :: ts)) :
  s.lexer.peek.2.resolve t.pos = positionsOf text t.pos
  := by
  have hpeek : s.lexer.peek.1 = t := Lexer.peek_of_toCome h.toCome
  have hfollows := Lexer.follows_ofText text
  have hpassed : s.lexer.peek.2.HasPassed t.pos := by
    rw [← hpeek]
    apply h.follows.placed.hasPassed_call (c := .peek) List.mem_cons_self
  have ht : t ∈ (Lexer.ofText text).drain.1 := by
    rw [h.tokens]
    simp
  have hfollows' : s.lexer.peek.2.Follows text [] := h.follows.scan
  apply Option.some.inj
  rw [← hfollows'.positionIn?_eq hpassed, positionsOf,
    ← hfollows.drain.positionIn?_eq (hfollows.hasPassed_drain ht)]

/-- The session after a token has been looked at. -/
theorem peek (h : s.IsAt text ds ts) :
  IsAt text ds ts { s with lexer := s.lexer.peek.2 }
  := by
  constructor
  case follows => apply h.follows.scan
  case place => apply (Lexer.scan_scan s.lexer).trans h.place
  case toCome => exact (Lexer.toCome_scan s.lexer).trans h.toCome
  case tokens => apply h.tokens
  case taken => apply h.taken
  case reported => apply h.reported

/-- The session after a token other than the mark of the end has been taken. -/
theorem next (h : s.IsAt text ds (t :: ts)) (ht : t.kind ≠ .eof) :
  IsAt text ds ts { s with lexer := s.lexer.next.2, taken := s.taken ++ [t] }
  := by
  constructor
  case follows => apply h.follows.next
  case place =>
    rw [List.length_append, List.length_singleton, Lexer.skip_succ, Lexer.next_congr h.place]
  case toCome => rw [Lexer.toCome_next, h.toCome, List.tail_cons]
  case tokens => rw [List.append_assoc, h.tokens, List.singleton_append]
  case taken =>
    intro u hu
    obtain hu | hu := List.mem_append.mp hu
    · apply h.taken u hu
    · obtain rfl := List.mem_singleton.mp hu
      exact ht
  case reported => apply h.reported

/-- The session after a diagnostic has been reported. -/
theorem report (h : s.IsAt text ds ts) (d : Diagnostic) :
  IsAt text (ds ++ [d]) ts { s with reported := s.reported ++ [d] }
  := by
  constructor
  case follows => apply h.follows
  case place => apply h.place
  case toCome => apply h.toCome
  case tokens => apply h.tokens
  case taken => apply h.taken
  case reported => rw [h.reported]

end Session.IsAt

namespace OnDemand

variable {α β : Type} {text : String}

/-- A reading that had reported `ds` has ended like that of a list of tokens: with the value and at
the tokens that are left, or with the faults of the failure and where it is. -/
def EndsLike (text : String) (ds : List Diagnostic)
    (ending : Option (Except Diagnostic α × Session)) :
    Except Failure (α × List Token) → Prop
  | .ok (a, rest) => ∃ s, ending = some (.ok a, s) ∧ s.IsAt text ds rest
  | .error failure => ∃ s d ds', ending = some (.error d, s) ∧ s.IsAt text ds' failure.rest
      ∧ s.lexer.starved = false
      ∧ ds' ++ [d] = ds ++ failure.faults.map (·.diagnose (positionsOf text))

/-- At the tokens `ts`, the part of a reading ends like that of the list of tokens. -/
def Simulates (text : String) (part : Action α) (ts : List Token)
    (result : Except Failure (α × List Token)) : Prop :=
  ∀ s ds, s.IsAt text ds ts → EndsLike text ds (part s) result

section

variable {part : Action α} {t : Token} {ts rest : List Token}
  {result : Except Failure (α × List Token)}

/-- The mark of the end is always to come. -/
theorem simulates_nil (part : Action α) (result : Except Failure (α × List Token)) :
  Simulates text part [] result
  := by
  intro s ds hs
  exact absurd rfl hs.ne_nil

theorem simulates_pure (a : α) (ts : List Token) :
  Simulates text (pure a) ts (.ok (a, ts))
  := fun s _ hs => ⟨s, rfl, hs⟩

/-- Parts that follow each other. -/
theorem Simulates.bind {f : α → Action β}
    {g : α × List Token → Except Failure (β × List Token)} (h : Simulates text part ts result)
    (hf : ∀ a rest, result = .ok (a, rest) → Simulates text (f a) rest (g (a, rest))) :
  Simulates text (part >>= f) ts (result >>= g)
  := by
  intro s ds hs
  cases result with
  | ok p =>
    obtain ⟨a, rest⟩ := p
    obtain ⟨s', hpart, hs'⟩ := h s ds hs
    rw [bind_of_ok hpart]
    exact hf a rest rfl s' ds hs'
  | error failure =>
    obtain ⟨s', d, ds', hpart, hs'⟩ := h s ds hs
    exact ⟨s', d, ds', bind_of_error hpart, hs'⟩

/-- A part after one that does not fail. -/
theorem Simulates.and_then {f : α → Action β} {a : α}
    {result : Except Failure (β × List Token)} (h : Simulates text part ts (.ok (a, rest)))
    (hf : Simulates text (f a) rest result) :
  Simulates text (part >>= f) ts result
  := by
  apply Simulates.bind (g := fun _ => result) h
  intro a' rest' heq
  cases heq
  exact hf

theorem simulates_peek (t : Token) (ts : List Token) :
  Simulates text peek (t :: ts) (.ok (t, t :: ts))
  := by
  intro s ds hs
  have hpeek : s.lexer.peek.1 = t := Lexer.peek_of_toCome hs.toCome
  exact ⟨_, by rw [peek, hpeek], hs.peek⟩

theorem simulates_advance (ht : t.kind ≠ .eof) (ts : List Token) :
  Simulates text advance (t :: ts) (.ok (t, ts))
  := by
  intro s ds hs
  have hnext : s.lexer.next.1 = t := Lexer.peek_of_toCome hs.toCome
  exact ⟨_, by rw [advance, hnext], hs.next ht⟩

theorem simulates_complain (complaint : Complaint) (ts : List Token) :
  Simulates text (complain (α := α) complaint) ts (refuse complaint ts)
  := by
  intro s ds hs
  obtain ⟨t, ts, rfl⟩ := List.exists_cons_of_ne_nil hs.ne_nil
  have hpeek : s.lexer.peek.1 = t := Lexer.peek_of_toCome hs.toCome
  refine ⟨_, _, ds, rfl, hs.peek, Lexer.not_starved_scan _, ?_⟩
  simp only [Fault.diagnose, hpeek, hs.resolve_peek]
  rfl

/-- What a construct adds to a failure is reported after it. -/
theorem Simulates.within (h : Simulates text part ts result) (complaint : Complaint) :
  Simulates text (within complaint part) ts (result.mapError (·.within complaint))
  := by
  intro s ds hs
  cases result with
  | ok p =>
    obtain ⟨a, rest⟩ := p
    obtain ⟨s', hpart, hs'⟩ := h s ds hs
    refine ⟨s', ?_, hs'⟩
    change (part s).bind _ = _
    rw [hpart]
    rfl
  | error failure =>
    obtain ⟨s', d, ds', hpart, hs', -, hds⟩ := h s ds hs
    have hcomplain := simulates_complain (α := α) complaint failure.rest _ _ (hs'.report d)
    obtain ⟨s'', d', ds'', hcomplain, hs'', fed, hds'⟩ := hcomplain
    refine ⟨s'', d', ds'', ?_, hs'', fed, ?_⟩
    · change (part s).bind _ = _
      rw [hpart]
      exact hcomplain
    · rw [hds', hds]
      simp [Failure.faults, Failure.within]

theorem simulates_consume {kind : Token.Kind} (hkind : kind ≠ .eof) (t : Token) (ts : List Token) :
  Simulates text (consume kind) (t :: ts)
    (.ok (if t.kind = kind then (some t, ts) else (none, t :: ts)))
  := by
  apply (simulates_peek t ts).and_then
  split
  · next h =>
    apply (simulates_advance (by rwa [h]) ts).and_then
    apply simulates_pure
  · apply simulates_pure

theorem simulates_consumeAnyOf (ops : List Operator) (t : Token) (ts : List Token) :
  Simulates text (consumeAnyOf ops) (t :: ts)
    (.ok (match Parser.operatorOf? ops t with
      | some op => (some (op, t.pos), ts)
      | none => (none, t :: ts)))
  := by
  apply (simulates_peek t ts).and_then
  cases hop : Parser.operatorOf? ops t with
  | some op =>
    apply (simulates_advance (kind_ne_of_operatorOf? hop) ts).and_then
    apply simulates_pure
  | none => apply simulates_pure

theorem simulates_expect {kind : Token.Kind} (hkind : kind ≠ .eof) (complaint : Complaint)
    (ts : List Token) :
  Simulates text (expect kind complaint) ts (Parser.expect kind complaint ts)
  := by
  cases ts with
  | nil => apply simulates_nil
  | cons t ts =>
    have hconsume : Simulates text _ _ _ := simulates_consume hkind t ts
    rw [Parser.expect]
    split at hconsume
    · next h =>
      rw [if_pos h]
      apply hconsume.and_then
      apply simulates_pure
    · next h =>
      rw [if_neg h]
      apply hconsume.and_then
      apply simulates_complain

end

/-! ### Expressions -/

/-- The part of a reading simulates the reading of all lists of at most `n` tokens. -/
def Implements (text : String) (n : Nat) (part : Action α)
    (run : List Token → Except Failure (α × List Token)) : Prop :=
  ∀ ts, ts.length ≤ n → Simulates text part ts (run ts)

section

variable {n : Nat} {operand : Action Expr} {p : Parser Expr}

/-- The operators of a level need no more fuel than there are tokens to come. -/
theorem Implements.chainFrom {ops : List Operator} (h : Implements text n operand p.run) :
  ∀ fuel left, fuel ≤ n →
    Implements text fuel (chainFrom ops operand fuel left) (Parser.chainFrom ops p left)
  := by
  intro fuel
  induction fuel with
  | zero =>
    intro left _ ts hts
    obtain rfl := List.length_eq_zero_iff.mp (Nat.le_zero.mp hts)
    apply simulates_nil
  | succ fuel ih =>
    intro left hfuel ts hts
    cases ts with
    | nil => apply simulates_nil
    | cons t ts =>
      have hts : ts.length ≤ fuel := Nat.le_of_succ_le_succ hts
      have hconsume : Simulates text _ _ _ := simulates_consumeAnyOf ops t ts
      rw [OnDemand.chainFrom, chainRound]
      cases hop : Parser.operatorOf? ops t with
      | some op =>
        rw [hop] at hconsume
        rw [Parser.chainFrom_cons hop]
        apply hconsume.and_then
        apply (h ts (by omega)).bind
        intro right rest hright
        have hlength := p.progress hright
        apply ih _ (by omega) rest (by omega)
      | none =>
        rw [hop] at hconsume
        rw [Parser.chainFrom, hop]
        apply hconsume.and_then
        apply simulates_pure

theorem Implements.chain (h : Implements text n operand p.run) (ops : List Operator) :
  Implements text n (chain n ops operand) (Parser.chain ops p).run
  := by
  intro ts hts
  apply (h ts hts).bind
  intro left rest hleft
  have hlength := p.progress hleft
  apply h.chainFrom n left (Nat.le_refl n) rest (by omega)

theorem Implements.levels (h : Implements text n operand p.run) (table : PrecedenceTable) :
  Implements text n (levels n table operand) (table.foldr Parser.chain p).run
  := by
  induction table with
  | nil => exact h
  | cons ops table ih => exact ih.chain ops

theorem Implements.enclosed (h : Implements text n operand p.run) {kind : Token.Kind}
    (hkind : kind ≠ .eof) (complaint : Complaint) (node : Expr → Token → Expr) :
  Implements text n (enclosed n kind complaint node operand)
    (Parser.enclosed kind complaint node p)
  := by
  intro ts hts
  apply (h.levels PrecedenceTable.standard ts hts).bind
  intro body rest _
  apply (simulates_expect hkind complaint rest).bind
  intro closing rest _
  apply simulates_pure

/-- The arguments of a call need no more fuel than there are tokens to come. -/
theorem Implements.arguments (h : Implements text n operand p.run) :
  ∀ fuel, fuel ≤ n → Implements text fuel (arguments operand fuel) (Parser.arguments p)
  := by
  intro fuel
  induction fuel with
  | zero =>
    intro _ ts hts
    obtain rfl := List.length_eq_zero_iff.mp (Nat.le_zero.mp hts)
    apply simulates_nil
  | succ fuel ih =>
    intro hfuel ts hts
    rw [OnDemand.arguments, argumentsRound, Parser.arguments_eq]
    apply ((h ts (by omega)).within .badArgument).bind
    intro e rest hread
    cases rest with
    | nil => apply simulates_nil
    | cons t rest =>
      have hread : p.run ts = .ok (e, t :: rest) := by
        cases hrun : p.run ts with
        | ok => rwa [hrun] at hread
        | error =>
          rw [hrun] at hread
          cases hread
      have hlength := p.progress hread
      rw [List.length_cons] at hlength
      apply (simulates_peek t rest).and_then
      change Simulates text _ _ (if t.isOp "," then Parser.arguments p rest >>= _ else _)
      split
      · next hcomma =>
        apply (simulates_advance (kind_ne_of_isOp hcomma) rest).and_then
        apply (ih (by omega) rest (by omega)).bind
        intro _ rest _
        apply simulates_pure
      · apply (simulates_expect (by simp) .noArgumentEnd (t :: rest)).bind
        intro closing rest _
        apply simulates_pure

theorem Implements.called (h : Implements text n operand p.run) (callee : Expr) (opening : Token) :
  Implements text n (called n operand callee opening) (Parser.called p callee opening)
  := by
  intro ts hts
  cases ts with
  | nil => apply simulates_nil
  | cons t ts =>
    have hconsume : Simulates text _ _ _ :=
      simulates_consume (show Token.Kind.rparen ≠ .eof by simp) t ts
    rw [Parser.called]
    change Simulates text _ _ (if t.kind = .rparen then _ else _)
    split at hconsume
    · next hkind =>
      rw [if_pos hkind]
      apply hconsume.and_then
      apply simulates_pure
    · next hkind =>
      rw [if_neg hkind]
      apply hconsume.and_then
      apply ((h.levels PrecedenceTable.standard).arguments n (Nat.le_refl n) _ hts).bind
      intro _ rest _
      apply simulates_pure

theorem Implements.named (h : Implements text n operand p.run) (name : Token) :
  Implements text n (named n operand name) (Parser.named p name)
  := by
  intro ts hts
  cases ts with
  | nil => apply simulates_nil
  | cons t ts =>
    have hts' : ts.length ≤ n := by
      rw [List.length_cons] at hts
      omega
    have hparen : Simulates text _ _ _ :=
      simulates_consume (show Token.Kind.lparen ≠ .eof by simp) t ts
    have hbracket : Simulates text _ _ _ :=
      simulates_consume (show Token.Kind.lbracket ≠ .eof by simp) t ts
    rw [Parser.named.eq_def]
    dsimp only
    split
    · next hkind =>
      rw [if_pos hkind] at hparen
      apply hparen.and_then
      apply h.called _ t ts hts'
    · next hkind =>
      rw [if_neg (by simp [hkind])] at hparen
      rw [if_pos hkind] at hbracket
      apply hparen.and_then
      apply hbracket.and_then
      rw [Parser.subscripted_eq_enclosed]
      apply h.enclosed (by simp) _ _ ts hts'
    · next hlparen hlbracket =>
      rw [if_neg hlparen] at hparen
      rw [if_neg hlbracket] at hbracket
      apply hparen.and_then
      apply hbracket.and_then
      apply simulates_pure

theorem Implements.operandOver (h : Implements text n operand p.run) :
  Implements text n (operandOver n operand) (Parser.operandOver p)
  := by
  intro ts hts
  cases ts with
  | nil => apply simulates_nil
  | cons t ts =>
    have hts' : ts.length ≤ n := by
      rw [List.length_cons] at hts
      omega
    rw [Parser.operandOver]
    apply (simulates_peek t ts).and_then
    cases hkind : t.kind with
    | lparen =>
      apply (simulates_advance (by simp [hkind]) ts).and_then
      apply h.enclosed (by simp) _ _ ts hts'
    | num =>
      apply (simulates_advance (by simp [hkind]) ts).and_then
      apply simulates_pure
    | ident =>
      apply (simulates_advance (by simp [hkind]) ts).and_then
      apply h.named t ts hts'
    | operator =>
      cases Sign.ofSymbol? t.text with
      | some sign =>
        apply (simulates_advance (by simp [hkind]) ts).and_then
        apply (h.chain PrecedenceTable.standard.tightest ts hts').bind
        intro e rest _
        apply simulates_pure
      | none => apply simulates_complain
    | eof | str | semi | lbrace | rbrace | rparen | lbracket | rbracket => apply simulates_complain

/-- Operands need no more fuel than there are tokens to come. -/
theorem implements_factor (text : String) (fuel : Nat) :
  ∀ k, Implements text fuel (factor fuel k) (Parser.factor k).run
  | 0 => fun ts _ => simulates_complain .tooDeep ts
  | k + 1 => (implements_factor text fuel k).operandOver

end

end OnDemand

end EquationLang
