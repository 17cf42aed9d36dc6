import EquationLang.Proofs.Grammar.Levels
import EquationLang.Proofs.Token.Stretch

/-!
# What is read is canonical

An expression read off the front of a list of tokens is written with the tokens that were taken, is
canonical, is no deeper than allowed, and its reading ended where it had to
(`Parser.sound_joined`).
-/

namespace EquationLang.Parser

theorem bind_eq_ok_iff {α β : Type} {x : Except Failure α} {f : α → Except Failure β} {b : β} :
  (x >>= f) = .ok b ↔ ∃ a, x = .ok a ∧ f a = .ok b
  := by
  cases x <;> simp [bind, Except.bind]

/-- Every expression that `p` reads off proper tokens is one of the level `n`, with at most `k`
operands open at once, and is read to its end at this level. -/
def Sound (n k : Nat) (p : Parser Expr) : Prop :=
  ∀ ts rest e, (∀ t ∈ ts, t.IsProper) → p.run ts = .ok (e, rest) →
    ∃ us, ts = us ++ rest ∧ Reading n n k e us rest

/-! ### Binary operators -/

/-- Joining what has been read with a right operand, by an operator of the level. -/
theorem Reading.canonical_binary {n k : Nat} {left right : Expr} {t : Token} {op : Operator}
    {ls vs ts : List Token} (hleft : Reading n (n + 1) k left ls (t :: ts))
    (hop : operatorOf? (operators n) t = some op) (hspelled : right.Spelled vs)
    (hcanonical : right.Canonical) (hright : n < right.level) :
  (Expr.binary left t.pos op right).Spelled (ls ++ t :: vs)
    ∧ (Expr.binary left t.pos op right).Canonical ∧ op.level = n
  := by
  obtain ⟨hkind, htext, hmem⟩ := operatorOf?_eq_some_iff.mp hop
  have hlevel := mem_operators_iff.mp hmem
  refine ⟨?_, ?_, hlevel⟩
  · use ls, vs, hleft.spelled, hspelled
    rw [← hkind, ← htext]
  · apply Expr.Canonical.binary hleft.canonical hcanonical
    · rw [hlevel]
      apply hleft.level
    · rw [hlevel]
      apply hright
    · apply (hleft.stops.operator op hkind htext).2

/-- The reading goes on after the right operand where it ended. -/
theorem Reading.binary {n k : Nat} {left right : Expr} {t : Token} {op : Operator}
    {ls vs ts rest : List Token} (hleft : Reading n (n + 1) k left ls (t :: ts))
    (hop : operatorOf? (operators n) t = some op)
    (hright : Reading (n + 1) (n + 1) k right vs rest) :
  Reading n (n + 1) k (.binary left t.pos op right) (ls ++ t :: vs) rest
  := by
  obtain ⟨hspelled, hcanonical, hlevel⟩ :=
    hleft.canonical_binary hop hright.spelled hright.canonical hright.level
  constructor
  · apply hspelled
  · apply hcanonical
  · apply Nat.le_of_eq hlevel.symm
  · apply Nat.max_le_of_le_of_le hleft.nest hright.nest
  · constructor
    · apply hright.stops.name
    · intro op' hkind' htext'
      obtain ⟨hlt, hsigned⟩ := hright.stops.operator op' hkind' htext'
      use hlt
      rw [Expr.endsInSigned_binary_iff (hlevel ▸ hright.level)]
      intro hexp hends
      apply hsigned hexp hends.2

theorem reading_chainFrom {n k : Nat} {operand : Parser Expr} (h : Sound (n + 1) k operand)
    {left e : Expr} {ls ts rest : List Token} (hproper : ∀ t ∈ ts, t.IsProper)
    (hleft : Reading n (n + 1) k left ls ts)
    (hrun : chainFrom (operators n) operand left ts = .ok (e, rest)) :
  ∃ us, ts = us ++ rest ∧ Reading n n k e (ls ++ us) rest
  := by
  fun_induction chainFrom (operators n) operand left ts generalizing ls with
  | case1 left =>
    cases hrun
    use [], rfl
    rw [List.append_nil]
    exact { hleft with stops := hleft.stops.of_succ rfl }
  | case2 left t ts hnone =>
    cases hrun
    use [], rfl
    rw [List.append_nil]
    exact { hleft with stops := hleft.stops.of_succ hnone }
  | case3 => cases hrun
  | case4 left t ts op hop right rest' read shorter ih =>
    have hts : ∀ u ∈ ts, u.IsProper := fun u hu => hproper u (List.mem_cons_of_mem t hu)
    obtain ⟨vs, rfl, hright⟩ := h ts _ _ hts read
    have hrest : ∀ u ∈ rest', u.IsProper := fun u hu => hts u (List.mem_append_right vs hu)
    obtain ⟨us, rfl, he⟩ := ih hrest (hleft.binary hop hright) hrun
    use t :: (vs ++ us)
    constructor
    · simp
    · rw [List.append_assoc] at he
      exact he

theorem sound_chain {n k : Nat} {operand : Parser Expr} (h : Sound (n + 1) k operand) :
  Sound n k (chain (operators n) operand)
  := by
  intro ts rest e hproper hrun
  obtain ⟨⟨left, rest'⟩, first, more⟩ := bind_eq_ok_iff.mp hrun
  obtain ⟨ls, rfl, hleft⟩ := h ts _ _ hproper first
  have hrest : ∀ t ∈ rest', t.IsProper := fun t ht => hproper t (List.mem_append_right ls ht)
  have hleft' : Reading n (n + 1) k left ls rest' :=
    { hleft with level := Nat.le_of_succ_le hleft.level }
  obtain ⟨us, rfl, he⟩ := reading_chainFrom h hrest hleft' more
  exact ⟨ls ++ us, by rw [List.append_assoc], he⟩

theorem sound_joined_of_operand {n k : Nat} {operand : Parser Expr}
    (hn : n ≤ operandLevel)
    (h : Sound operandLevel k operand) :
  Sound n k (joined n operand)
  := by
  induction hn using Nat.decreasingInduction with
  | self => exact h
  | of_succ n hlt ih =>
    rw [joined_of_lt hlt]
    apply sound_chain ih

/-! ### Operands -/

theorem stops_of_not_ends {e : Expr} (hname : ¬ e.EndsInName) (hsigned : ¬ e.EndsInSigned)
    (t : Token) :
  Stops operandLevel e t
  := by
  constructor
  · intro h
    exact absurd h hname
  · intro op _ _
    exact ⟨op.level_lt, fun _ => hsigned⟩

/-- A token that is a name spells a variable. -/
theorem spelled_ident {name : Token} (hname : name.kind = .ident) :
  (Expr.ident name.pos name.text).Spelled [name]
  := by
  cases name
  cases hname
  rfl

theorem isName_of_isProper {name : Token} (h : name.IsProper) (hname : name.kind = .ident) :
  IsName name.text.toList
  := by
  rwa [Token.IsProper, hname] at h

section

variable {k : Nat} {operand : Parser Expr} (h : Sound operandLevel k operand)

include h

theorem sound_enclosed {kind : Token.Kind} {complaint : Complaint} {node : Expr → Token → Expr}
    {ts rest : List Token} {e : Expr} (hproper : ∀ t ∈ ts, t.IsProper)
    (hrun : enclosed kind complaint node operand ts = .ok (e, rest)) :
  ∃ us body closing, ts = us ++ closing :: rest ∧ e = node body closing ∧ closing.kind = kind
    ∧ body.Spelled us ∧ body.Canonical ∧ body.nest ≤ k
  := by
  obtain ⟨⟨body, rest'⟩, first, hrun⟩ := bind_eq_ok_iff.mp hrun
  obtain ⟨⟨closing, rest''⟩, last, hrun⟩ := bind_eq_ok_iff.mp hrun
  cases hrun
  obtain ⟨us, rfl, hbody⟩ := sound_joined_of_operand (Nat.zero_le _) h ts _ _ hproper first
  obtain ⟨rfl, hclosing⟩ := expect_eq_ok_iff.mp last
  exact ⟨us, body, closing, rfl, rfl, hclosing, hbody.spelled, hbody.canonical, hbody.nest⟩

theorem sound_parenthesized {opening : Token} {ts rest : List Token} {e : Expr}
    (hproper : ∀ t ∈ opening :: ts, t.IsProper) (hopening : opening.kind = .lparen)
    (hrun : parenthesized operand opening ts = .ok (e, rest)) :
  ∃ us, opening :: ts = us ++ rest ∧ Reading operandLevel operandLevel (k + 1) e us rest
  := by
  have hts : ∀ t ∈ ts, t.IsProper := fun t ht => hproper t (List.mem_cons_of_mem opening ht)
  rw [parenthesized_eq_enclosed] at hrun
  obtain ⟨us, body, closing, rfl, rfl, hclosing, hspelled, hcanonical, hnest⟩ :=
    sound_enclosed h hts hrun
  use opening :: (us ++ [closing])
  constructor
  · simp
  · constructor
    · use us, hspelled
      rw [Token.eq_of_isProper (c := '(') (hproper opening (by simp)) hopening rfl (by simp),
        Token.eq_of_isProper (c := ')') (hts closing (by simp)) hclosing rfl (by simp)]
      rfl
    · apply Expr.Canonical.paren hcanonical
    · apply Nat.le_refl
    · apply Nat.succ_le_succ hnest
    · apply stops_of_not_ends id id

theorem sound_subscripted {name opening : Token} {ts rest : List Token} {e : Expr}
    (hproper : ∀ t ∈ name :: opening :: ts, t.IsProper) (hname : name.kind = .ident)
    (hopening : opening.kind = .lbracket)
    (hrun : subscripted operand (.ident name.pos name.text) opening ts = .ok (e, rest)) :
  ∃ us, name :: opening :: ts = us ++ rest
    ∧ Reading operandLevel operandLevel (k + 1) e us rest
  := by
  have hts : ∀ t ∈ ts, t.IsProper := by
    intro t ht
    apply hproper t (List.mem_cons_of_mem name (List.mem_cons_of_mem opening ht))
  rw [subscripted_eq_enclosed] at hrun
  obtain ⟨us, subscript, closing, rfl, rfl, hclosing, hspelled, hcanonical, hnest⟩ :=
    sound_enclosed h hts hrun
  use name :: opening :: (us ++ [closing])
  constructor
  · simp
  · constructor
    · use [name], us
      refine ⟨spelled_ident hname, hspelled, ?_⟩
      rw [Token.eq_of_isProper (c := '[') (hproper opening (by simp)) hopening rfl (by simp),
        Token.eq_of_isProper (c := ']') (hts closing (by simp)) hclosing rfl (by simp)]
      rfl
    · apply Expr.Canonical.index _ hcanonical
      apply isName_of_isProper (hproper name List.mem_cons_self) hname
    · apply Nat.le_refl
    · apply Nat.succ_le_succ hnest
    · apply stops_of_not_ends id id

end

theorem eq_comma_of_isOp {t : Token} (h : t.isOp ",") :
  t = ⟨.operator, t.pos, ","⟩
  := by
  rw [Token.isOp, Bool.and_eq_true, decide_eq_true_iff, decide_eq_true_iff] at h
  rw [← h.1, ← h.2]

theorem sound_arguments {k : Nat} {arg : Parser Expr} (h : Sound 0 k arg) {ts rest : List Token}
    {es : List Expr} {closing : Token} (hproper : ∀ t ∈ ts, t.IsProper)
    (hrun : arguments arg ts = .ok ((es, closing), rest)) :
  ∃ us, ts = us ++ closing :: rest ∧ Expr.SpelledArgs es us ∧ (∀ e ∈ es, e.Canonical)
    ∧ Expr.nestAll es ≤ k ∧ closing.kind = .rparen ∧ es ≠ []
  := by
  fun_induction arguments arg ts generalizing es closing rest with
  | case1 | case2 | case5 => cases hrun
  | case3 ts e t rest' read shorter comma ih =>
    obtain ⟨⟨⟨es', closing'⟩, rest''⟩, more, hrun⟩ := bind_eq_ok_iff.mp hrun
    cases hrun
    obtain ⟨us, rfl, he⟩ := h ts _ _ hproper read
    have hrest : ∀ u ∈ rest', u.IsProper := fun u hu => hproper u (by simp [hu])
    obtain ⟨vs, rfl, hspelled, hcanonical, hnest, hclosing, hne⟩ := ih hrest more
    obtain ⟨e', es, rfl⟩ := List.exists_cons_of_ne_nil hne
    use us ++ t :: vs
    refine ⟨by simp, ?_, ?_, ?_, hclosing, List.cons_ne_nil e _⟩
    · use us, t.pos, vs, he.spelled, hspelled
      rw [← eq_comma_of_isOp comma]
    · intro e'' he''
      obtain rfl | he'' := List.mem_cons.mp he''
      · apply he.canonical
      · apply hcanonical e'' he''
    · apply Nat.max_le_of_le_of_le he.nest hnest
  | case4 ts e t rest' read shorter comma isEnd =>
    cases hrun
    obtain ⟨us, rfl, he⟩ := h ts _ _ hproper read
    use us, rfl, he.spelled
    refine ⟨?_, ?_, isEnd, List.cons_ne_nil e []⟩
    · intro e' he'
      obtain rfl := List.mem_singleton.mp he'
      apply he.canonical
    · apply Nat.max_le_of_le_of_le he.nest (Nat.zero_le k)

section

variable {k : Nat} {operand : Parser Expr} (h : Sound operandLevel k operand)

include h

theorem sound_called {name opening : Token} {ts rest : List Token} {e : Expr}
    (hproper : ∀ t ∈ name :: opening :: ts, t.IsProper) (hname : name.kind = .ident)
    (hopening : opening.kind = .lparen)
    (hrun : called operand (.ident name.pos name.text) opening ts = .ok (e, rest)) :
  ∃ us, name :: opening :: ts = us ++ rest
    ∧ Reading operandLevel operandLevel (k + 1) e us rest
  := by
  have hts : ∀ t ∈ ts, t.IsProper := by
    intro t ht
    apply hproper t (List.mem_cons_of_mem name (List.mem_cons_of_mem opening ht))
  obtain ⟨args, us, closing, rfl, hus, hargs, hcanonical, hnest, hclosing⟩ :
      ∃ args us closing, e = .call (.ident name.pos name.text) opening.pos args closing.pos
        ∧ ts = us ++ closing :: rest ∧ Expr.SpelledArgs args us ∧ (∀ arg ∈ args, arg.Canonical)
        ∧ Expr.nestAll args ≤ k ∧ closing.kind = .rparen := by
    rw [called] at hrun
    split at hrun
    · next hclosing =>
      cases hrun
      cases ts with
      | nil => cases hclosing
      | cons closing ts =>
        exact ⟨[], [], closing, rfl, rfl, rfl, by simp, Nat.zero_le k, hclosing⟩
    · obtain ⟨⟨⟨args, closing⟩, rest'⟩, more, hrun⟩ := bind_eq_ok_iff.mp hrun
      cases hrun
      obtain ⟨us, hus, hargs, hcanonical, hnest, hclosing, -⟩ :=
        sound_arguments (sound_joined_of_operand (Nat.zero_le _) h) hts more
      exact ⟨args, us, closing, rfl, hus, hargs, hcanonical, hnest, hclosing⟩
  subst hus
  use name :: opening :: (us ++ [closing])
  constructor
  · simp
  · constructor
    · use [name], us
      refine ⟨spelled_ident hname, hargs, ?_⟩
      rw [Token.eq_of_isProper (c := '(') (hproper opening (by simp)) hopening rfl (by simp),
        Token.eq_of_isProper (c := ')') (hts closing (by simp)) hclosing rfl (by simp)]
      rfl
    · apply Expr.Canonical.call _ hcanonical
      apply isName_of_isProper (hproper name List.mem_cons_self) hname
    · apply Nat.le_refl
    · apply Nat.succ_le_succ hnest
    · apply stops_of_not_ends id id

theorem sound_named {name : Token} {ts rest : List Token} {e : Expr}
    (hproper : ∀ t ∈ name :: ts, t.IsProper) (hname : name.kind = .ident)
    (hrun : named operand name ts = .ok (e, rest)) :
  ∃ us, name :: ts = us ++ rest ∧ Reading operandLevel operandLevel (k + 1) e us rest
  := by
  have hident (rest : List Token)
      (hrest : (lookahead rest).kind ≠ .lparen ∧ (lookahead rest).kind ≠ .lbracket) :
      Reading operandLevel operandLevel (k + 1) (.ident name.pos name.text) [name] rest := by
    constructor
    · apply spelled_ident hname
    · apply Expr.Canonical.ident (isName_of_isProper (hproper name List.mem_cons_self) hname)
    · apply Nat.le_refl
    · apply Nat.succ_le_succ (Nat.zero_le k)
    · constructor
      · apply fun _ => hrest
      · exact fun op _ _ => ⟨op.level_lt, fun _ => id⟩
  rw [named.eq_def] at hrun
  split at hrun
  · cases hrun
    use [name], rfl
    apply hident []
    simp [lookahead, Token.endOfText]
  · next t ts =>
    split at hrun
    · next hkind => apply sound_called h hproper hname hkind hrun
    · next hkind => apply sound_subscripted h hproper hname hkind hrun
    · next hlparen hlbracket =>
      cases hrun
      use [name], rfl
      apply hident (t :: ts) ⟨hlparen, hlbracket⟩

theorem sound_signed {t : Token} {sign : Sign} {ts rest : List Token} {inner : Expr}
    (hproper : ∀ u ∈ t :: ts, u.IsProper) (hkind : t.kind = .operator)
    (htext : t.text = sign.symbol) (hrun : (signed operand).run ts = .ok (inner, rest)) :
  ∃ us, t :: ts = us ++ rest
    ∧ Reading operandLevel operandLevel (k + 1) (.unary t.pos sign inner) us rest
  := by
  have hts : ∀ u ∈ ts, u.IsProper := fun u hu => hproper u (List.mem_cons_of_mem t hu)
  rw [signed_eq_joined] at hrun
  obtain ⟨us, rfl, hinner⟩ :=
    sound_joined_of_operand (Nat.le_of_lt (Operator.level_lt .exp)) h ts _ _ hts hrun
  use t :: us, rfl
  constructor
  · use us, hinner.spelled
    rw [← htext, ← hkind]
  · apply Expr.Canonical.unary hinner.canonical hinner.level
  · apply Nat.le_refl
  · apply Nat.succ_le_succ hinner.nest
  · constructor
    · apply hinner.stops.name
    · intro op hop htext
      use op.level_lt
      rintro rfl
      -- a power after the operand would have been read as a part of it
      exact absurd (hinner.stops.operator .exp hop htext).1 (Nat.lt_irrefl _)

theorem sound_operandOver {ts rest : List Token} {e : Expr} (hproper : ∀ t ∈ ts, t.IsProper)
    (hrun : operandOver operand ts = .ok (e, rest)) :
  ∃ us, ts = us ++ rest ∧ Reading operandLevel operandLevel (k + 1) e us rest
  := by
  rw [operandOver.eq_def] at hrun
  split at hrun
  · cases hrun
  · next t ts =>
    split at hrun
    · next hkind => apply sound_parenthesized h hproper hkind hrun
    · next hkind =>
      cases hrun
      use [t], rfl
      constructor
      · cases t
        cases hkind
        rfl
      · apply Expr.Canonical.literal
        have hnumeral := hproper t List.mem_cons_self
        rwa [Token.IsProper, hkind] at hnumeral
      · apply Nat.le_refl
      · apply Nat.succ_le_succ (Nat.zero_le k)
      · apply stops_of_not_ends id id
    · next hkind => apply sound_named h hproper hkind hrun
    · next hkind =>
      split at hrun
      · next sign hsign =>
        obtain ⟨⟨inner, rest'⟩, first, hrun⟩ := bind_eq_ok_iff.mp hrun
        cases hrun
        apply sound_signed h hproper hkind (Sign.ofSymbol?_eq_some_iff.mp hsign).symm first
      · cases hrun
    · cases hrun

end

/-- An operand that is read is canonical. -/
theorem sound_factor :
  ∀ k : Nat, Sound operandLevel k (factor k)
  | 0 => by
      intro ts rest e _ hrun
      cases hrun
  | k + 1 => by
      intro ts rest e hproper hrun
      apply sound_operandOver (sound_factor k) hproper hrun

/-- An expression that is read is canonical. -/
theorem sound_joined {n : Nat} (hn : n ≤ operandLevel) (k : Nat) :
  Sound n k (joined n (factor k))
  := sound_joined_of_operand hn (sound_factor k)

end EquationLang.Parser
