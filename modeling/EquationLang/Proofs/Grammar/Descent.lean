import EquationLang.Proofs.Grammar.OnDemand

/-!
# A token is taken before a reading goes on

What a round of a loop leaves to the rounds after it, and an operand to the operands inside it, is
left to them only when a token has been taken, and this token is never the mark of the end
(`OnDemand.Advances`).  To see this, a reading that goes on in one way is compared to a reading that
goes on in another way, which does the same in all sessions after a token has been taken
(`OnDemand.AgreeAfter`).
-/

namespace EquationLang

/-- Between `s` and `s'`, the tokens `us` have been taken, and none of them marks the end. -/
structure Session.Takes (us : List Token) (s s' : Session) : Prop where
  taken : s'.taken = s.taken ++ us
  proper : ∀ t ∈ us, t.kind ≠ .eof

namespace Session

variable {us vs : List Token} {s s' s'' : Session}

theorem Takes.trans (h : s.Takes us s') (h' : s'.Takes vs s'') :
  s.Takes (us ++ vs) s''
  := by
  constructor
  · rw [h'.taken, h.taken, List.append_assoc]
  · intro t ht
    obtain ht | ht := List.mem_append.mp ht
    · apply h.proper t ht
    · apply h'.proper t ht

/-- At least one token has been taken between `s` and `s'`, and not the mark of the end. -/
def IsBefore (s s' : Session) : Prop := ∃ us, us ≠ [] ∧ s.Takes us s'

theorem IsBefore.trans_takes (h : s.IsBefore s') (h' : s'.Takes vs s'') :
  s.IsBefore s''
  := by
  obtain ⟨us, hne, hus⟩ := h
  exact ⟨us ++ vs, List.append_ne_nil_of_left_ne_nil hne vs, hus.trans h'⟩

theorem Takes.trans_isBefore (h : s.Takes us s') (h' : s'.IsBefore s'') :
  s.IsBefore s''
  := by
  obtain ⟨vs, hne, hvs⟩ := h'
  exact ⟨us ++ vs, List.append_ne_nil_of_right_ne_nil us hne, h.trans hvs⟩

end Session

namespace OnDemand

variable {α β : Type}

/-- In the session `s`, the two parts do the same, and take no mark of the end. -/
structure AgreeAt (s : Session) (part part' : Action α) : Prop where
  same : part s = part' s
  takes : ∀ ending s', part s = some (ending, s') → ∃ us, s.Takes us s'

/-- The two parts agree as soon as a token has been taken after the session `s`. -/
def AgreeAfter (s : Session) (part part' : Action α) : Prop :=
  ∀ s', s.IsBefore s' → AgreeAt s' part part'

section

variable {us : List Token} {s s' : Session} {part part' : Action α}

theorem agreeAt_of_taken_eq {ending : Except Diagnostic α} (h : part s = some (ending, s'))
    (htaken : s'.taken = s.taken) :
  AgreeAt s part part
  := by
  constructor
  · rfl
  · intro ending' s'' h'
    obtain ⟨rfl, rfl⟩ := Prod.mk.inj (Option.some.inj (h.symm.trans h'))
    exact ⟨[], ⟨by rw [htaken, List.append_nil], by simp⟩⟩

theorem agreeAt_pure (a : α) (s : Session) :
  AgreeAt s (pure a) (pure a)
  := agreeAt_of_taken_eq rfl rfl

theorem agreeAt_complain (complaint : Complaint) (s : Session) :
  AgreeAt s (complain (α := α) complaint) (complain complaint)
  := agreeAt_of_taken_eq rfl rfl

theorem agreeAt_exhausted (s : Session) :
  AgreeAt s (exhausted (α := α)) exhausted
  := by
  constructor
  · rfl
  · intro ending s' h
    cases h

/-- A part, and what is done after it. -/
theorem AgreeAt.bind {f f' : α → Action β} (h : AgreeAt s part part')
    (hf : ∀ a us s', part s = some (.ok a, s') → s.Takes us s' → AgreeAt s' (f a) (f' a)) :
  AgreeAt s (part >>= f) (part' >>= f')
  := by
  cases hpart : part s with
  | none =>
    constructor
    · rw [bind_of_none hpart, bind_of_none (h.same.symm.trans hpart)]
    · intro ending s' hend
      rw [bind_of_none hpart] at hend
      cases hend
  | some ending =>
    have hpart' : part' s = some ending := h.same.symm.trans hpart
    obtain ⟨us, hus⟩ := h.takes _ _ hpart
    obtain ⟨⟨d⟩ | ⟨a⟩, s₁⟩ := ending
    · constructor
      · rw [bind_of_error hpart, bind_of_error hpart']
      · intro ending s' hend
        rw [bind_of_error hpart] at hend
        cases hend
        exact ⟨us, hus⟩
    · have hmore := hf a us s₁ hpart hus
      constructor
      · rw [bind_of_ok hpart, bind_of_ok hpart', hmore.same]
      · intro ending s' hend
        rw [bind_of_ok hpart] at hend
        obtain ⟨vs, hvs⟩ := hmore.takes _ _ hend
        exact ⟨us ++ vs, hus.trans hvs⟩

theorem AgreeAfter.bind {f f' : α → Action β} (h : AgreeAfter s part part')
    (hf : ∀ a, AgreeAfter s (f a) (f' a)) :
  AgreeAfter s (part >>= f) (part' >>= f')
  := by
  intro s' hs
  apply (h s' hs).bind
  intro a us s'' _ hus
  apply hf a s'' (hs.trans_takes hus)

/-- Parts that agree after a session agree after all later ones. -/
theorem AgreeAfter.later (h : AgreeAfter s part part') (hs : s.Takes us s') :
  AgreeAfter s' part part'
  := by
  intro s'' hs'
  apply h s'' (hs.trans_isBefore hs')

theorem AgreeAt.within (h : AgreeAt s part part') (complaint : Complaint) :
  AgreeAt s (within complaint part) (within complaint part')
  := by
  constructor
  · change (part s).bind _ = (part' s).bind _
    rw [h.same]
  · intro ending s' hend
    change (part s).bind _ = _ at hend
    cases hpart : part s with
    | none =>
      rw [hpart] at hend
      cases hend
    | some ending' =>
      obtain ⟨us, hus⟩ := h.takes _ _ hpart
      rw [hpart] at hend
      obtain ⟨⟨d⟩ | ⟨a⟩, s₁⟩ := ending'
      · cases hend
        exact ⟨us, ⟨hus.taken, hus.proper⟩⟩
      · cases hend
        exact ⟨us, hus⟩

/-! ### Looking at a token and taking it -/

theorem agreeAt_peek {f f' : Token → Action α}
    (h : AgreeAt { s with lexer := s.lexer.peek.2 } (f s.lexer.peek.1) (f' s.lexer.peek.1)) :
  AgreeAt s (peek >>= f) (peek >>= f')
  := by
  constructor
  · exact h.same
  · intro ending s' hend
    obtain ⟨us, hus⟩ := h.takes ending s' hend
    exact ⟨us, ⟨hus.taken, hus.proper⟩⟩

/-- The token that is taken is the one that has been looked at. -/
theorem exists_advance (ht : s.lexer.peek.1.kind ≠ .eof) :
  ∃ t s', advance { s with lexer := s.lexer.peek.2 } = some (.ok t, s') ∧ s.IsBefore s'
  := by
  refine ⟨_, _, rfl, _, List.cons_ne_nil _ _, rfl, ?_⟩
  intro t ht'
  obtain rfl := List.mem_singleton.mp ht'
  change (s.lexer.scan.scan.pending.headD s.lexer.scan.scan.endToken).kind ≠ .eof
  rw [Lexer.scan_scan]
  exact ht

theorem agreeAt_advance {f f' : Token → Action α} (ht : s.lexer.peek.1.kind ≠ .eof)
    (h : ∀ t, AgreeAfter s (f t) (f' t)) :
  AgreeAt { s with lexer := s.lexer.peek.2 } (advance >>= f) (advance >>= f')
  := by
  obtain ⟨t, s₁, hadvance, hs⟩ := exists_advance ht
  have hmore := h t s₁ hs
  obtain ⟨us, -, hus⟩ := hs
  constructor
  · rw [bind_of_ok hadvance, bind_of_ok hadvance, hmore.same]
  · intro ending s' hend
    rw [bind_of_ok hadvance] at hend
    obtain ⟨vs, hvs⟩ := hmore.takes ending s' hend
    have hall := hus.trans hvs
    exact ⟨us ++ vs, ⟨hall.taken, hall.proper⟩⟩

theorem agreeAt_consume {kind : Token.Kind} (hkind : kind ≠ .eof) (s : Session) :
  AgreeAt s (consume kind) (consume kind)
  := by
  apply agreeAt_peek
  split
  · next h =>
    apply agreeAt_advance (by rwa [h])
    intro t s' _
    apply agreeAt_pure
  · apply agreeAt_pure

theorem isBefore_of_consume {kind : Token.Kind} (hkind : kind ≠ .eof) {t : Token}
    (h : consume kind s = some (.ok (some t), s')) :
  s.IsBefore s'
  := by
  rw [consume, bind_of_ok (show peek s = some (.ok s.lexer.peek.1, _) from rfl)] at h
  split at h
  · next hfirst =>
    obtain ⟨t', s₁, hadvance, hs⟩ := exists_advance (s := s) (by rwa [hfirst])
    rw [bind_of_ok hadvance] at h
    cases h
    exact hs
  · cases h

theorem agreeAt_consumeAnyOf (ops : List Operator) (s : Session) :
  AgreeAt s (consumeAnyOf ops) (consumeAnyOf ops)
  := by
  apply agreeAt_peek
  cases hop : Parser.operatorOf? ops s.lexer.peek.1 with
  | some op =>
    apply agreeAt_advance (kind_ne_of_operatorOf? hop)
    intro t s' _
    apply agreeAt_pure
  | none => apply agreeAt_pure

theorem isBefore_of_consumeAnyOf {ops : List Operator} {op : Operator × Nat}
    (h : consumeAnyOf ops s = some (.ok (some op), s')) :
  s.IsBefore s'
  := by
  rw [consumeAnyOf, bind_of_ok (show peek s = some (.ok s.lexer.peek.1, _) from rfl)] at h
  cases hop : Parser.operatorOf? ops s.lexer.peek.1 with
  | some op' =>
    obtain ⟨t, s₁, hadvance, hs⟩ := exists_advance (kind_ne_of_operatorOf? hop)
    simp only [hop] at h
    rw [bind_of_ok hadvance] at h
    cases h
    exact hs
  | none =>
    simp only [hop] at h
    cases h

theorem agreeAt_expect {kind : Token.Kind} (hkind : kind ≠ .eof) (complaint : Complaint)
    (s : Session) :
  AgreeAt s (expect kind complaint) (expect kind complaint)
  := by
  apply (agreeAt_consume hkind s).bind
  rintro (- | t) us s' _ _
  · apply agreeAt_complain
  · apply agreeAt_pure

end

/-! ### Rounds of loops -/

section

variable {s : Session} {operand operand' : Action Expr}

/-- The rounds after the first one begin after an operator. -/
theorem agreeAt_chainRound (h : AgreeAfter s operand operand') {more more' : Expr → Action Expr}
    (hmore : ∀ left, AgreeAfter s (more left) (more' left)) (ops : List Operator) (left : Expr) :
  AgreeAt s (chainRound ops operand more left) (chainRound ops operand' more' left)
  := by
  apply (agreeAt_consumeAnyOf ops s).bind
  rintro (- | ⟨op, opPos⟩) us s' hconsume _
  · apply agreeAt_pure
  · apply (h.bind fun right => hmore _) s' (isBefore_of_consumeAnyOf hconsume)

/-- The rounds after the first one begin after a comma. -/
theorem agreeAt_argumentsRound {arg arg' : Action Expr} (h : AgreeAt s arg arg')
    {more more' : Action (List Expr × Token)} (hmore : AgreeAfter s more more') :
  AgreeAt s (argumentsRound arg more) (argumentsRound arg' more')
  := by
  apply (h.within .badArgument).bind
  intro e us s' _ hus
  apply agreeAt_peek
  split
  · next hcomma =>
    apply agreeAt_advance (kind_ne_of_isOp hcomma)
    intro t
    apply (hmore.later hus).bind
    rintro ⟨es, closing⟩ s'' _
    apply agreeAt_pure
  · apply (agreeAt_expect (by simp) .noArgumentEnd _).bind
    intro closing us s'' _ _
    apply agreeAt_pure

/-- The rounds after the first one begin after a terminator. -/
theorem agreeAt_terminatorRound {more more' : Action Unit} (h : AgreeAfter s more more') :
  AgreeAt s (terminatorRound more) (terminatorRound more')
  := by
  apply (agreeAt_consume (by simp) s).bind
  rintro (- | t) us s' hconsume _
  · apply agreeAt_pure
  · apply h s' (isBefore_of_consume (by simp) hconsume)

/-! ### Expressions -/

theorem AgreeAfter.chainFrom (h : AgreeAfter s operand operand') (ops : List Operator)
    (fuel : Nat) :
  ∀ left, AgreeAfter s (chainFrom ops operand fuel left) (chainFrom ops operand' fuel left)
  := by
  induction fuel with
  | zero => exact fun _ s' _ => agreeAt_exhausted s'
  | succ fuel ih =>
    intro left s' hs
    obtain ⟨us, -, hus⟩ := hs
    apply agreeAt_chainRound (h.later hus) (fun left => (ih left).later hus)

theorem AgreeAfter.chain (h : AgreeAfter s operand operand') (fuel : Nat) (ops : List Operator) :
  AgreeAfter s (chain fuel ops operand) (chain fuel ops operand')
  := by
  apply h.bind
  intro left
  apply h.chainFrom

theorem AgreeAfter.levels (h : AgreeAfter s operand operand') (fuel : Nat)
    (table : PrecedenceTable) :
  AgreeAfter s (levels fuel table operand) (levels fuel table operand')
  := by
  induction table with
  | nil => exact h
  | cons ops table ih => exact ih.chain fuel ops

theorem AgreeAfter.enclosed (h : AgreeAfter s operand operand') (fuel : Nat) {kind : Token.Kind}
    (hkind : kind ≠ .eof) (complaint : Complaint) (node : Expr → Token → Expr) :
  AgreeAfter s (enclosed fuel kind complaint node operand)
    (enclosed fuel kind complaint node operand')
  := by
  apply (h.levels fuel PrecedenceTable.standard).bind
  intro body
  apply AgreeAfter.bind (fun s' _ => agreeAt_expect hkind complaint s')
  exact fun closing s' _ => agreeAt_pure _ s'

theorem AgreeAfter.arguments (h : AgreeAfter s operand operand') (fuel : Nat) :
  AgreeAfter s (arguments operand fuel) (arguments operand' fuel)
  := by
  induction fuel with
  | zero => exact fun s' _ => agreeAt_exhausted s'
  | succ fuel ih =>
    intro s' hs
    have harg := h s' hs
    obtain ⟨us, -, hus⟩ := hs
    apply agreeAt_argumentsRound harg (ih.later hus)

theorem AgreeAfter.called (h : AgreeAfter s operand operand') (fuel : Nat) (callee : Expr)
    (opening : Token) :
  AgreeAfter s (called fuel operand callee opening) (called fuel operand' callee opening)
  := by
  apply AgreeAfter.bind (fun s' _ => agreeAt_consume (by simp) s')
  rintro (- | closing)
  · apply ((h.levels fuel PrecedenceTable.standard).arguments fuel).bind
    rintro ⟨args, closing⟩ s' _
    apply agreeAt_pure
  · intro s' _
    apply agreeAt_pure

theorem AgreeAfter.named (h : AgreeAfter s operand operand') (fuel : Nat) (name : Token) :
  AgreeAfter s (named fuel operand name) (named fuel operand' name)
  := by
  apply AgreeAfter.bind (fun s' _ => agreeAt_consume (by simp) s')
  rintro (- | opening)
  · apply AgreeAfter.bind (fun s' _ => agreeAt_consume (by simp) s')
    rintro (- | opening)
    · intro s' _
      apply agreeAt_pure
    · apply h.enclosed fuel (by simp)
  · apply h.called

/-- The operands inside an operand begin after its first token. -/
theorem agreeAt_operandOver (h : AgreeAfter s operand operand') (fuel : Nat) :
  AgreeAt s (operandOver fuel operand) (operandOver fuel operand')
  := by
  apply agreeAt_peek
  cases hkind : s.lexer.peek.1.kind with
  | lparen =>
    apply agreeAt_advance (by simp [hkind])
    intro _
    apply h.enclosed fuel (by simp)
  | num =>
    apply agreeAt_advance (by simp [hkind])
    intro _ s' _
    apply agreeAt_pure
  | ident =>
    apply agreeAt_advance (by simp [hkind])
    intro _
    apply h.named
  | operator =>
    cases Sign.ofSymbol? s.lexer.peek.1.text with
    | some sign =>
      apply agreeAt_advance (by simp [hkind])
      intro _
      apply (h.chain fuel PrecedenceTable.standard.tightest).bind
      intro e s' _
      apply agreeAt_pure
    | none => apply agreeAt_complain
  | eof | str | semi | lbrace | rbrace | rparen | lbracket | rbracket => apply agreeAt_complain

/-- An operand takes no mark of the end. -/
theorem agreeAt_factor (fuel : Nat) :
  ∀ k s, AgreeAt s (factor fuel k) (factor fuel k)
  | 0, s => agreeAt_complain .tooDeep s
  | k + 1, _ => agreeAt_operandOver (fun s' _ => agreeAt_factor fuel k s') fuel

end

/-- In the session `s`, a reading goes on after a round of a loop, and inside an operand, only when
a token has been taken: two ways to go on that agree from then on make no difference. -/
structure Advances (s : Session) : Prop where
  chain : ∀ ops operand (more more' : Expr → Action Expr) left, AgreeAfter s operand operand →
    (∀ e, AgreeAfter s (more e) (more' e)) →
    AgreeAt s (chainRound ops operand more left) (chainRound ops operand more' left)
  arguments : ∀ arg more more', AgreeAt s arg arg → AgreeAfter s more more' →
    AgreeAt s (argumentsRound arg more) (argumentsRound arg more')
  terminators : ∀ more more', AgreeAfter s more more' →
    AgreeAt s (terminatorRound more) (terminatorRound more')
  operand : ∀ fuel operand operand', AgreeAfter s operand operand' →
    AgreeAt s (operandOver fuel operand) (operandOver fuel operand')
  /-- The operands of an equation take no mark of the end. -/
  factor : ∀ fuel k, AgreeAt s (factor fuel k) (factor fuel k)

theorem advances (s : Session) :
  Advances s
  where
  chain _ _ _ _ _ h hmore := agreeAt_chainRound h hmore _ _
  arguments _ _ _ h hmore := agreeAt_argumentsRound h hmore
  terminators _ _ h := agreeAt_terminatorRound h
  operand _ _ _ h := agreeAt_operandOver h _
  factor fuel k := agreeAt_factor fuel k s

end OnDemand

end EquationLang
