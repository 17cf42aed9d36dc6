import EquationLang.Proofs.Grammar.Completeness
import EquationLang.Proofs.Grammar.Soundness

/-!
# Where reading stops

When an expression cannot be read, what has been taken can be completed to a canonical expression
(`Parser.Completes`), and no other tokens after the one that was found help, nor does more depth
(`Parser.Failing`).  The complaints are all about that token.
-/

namespace EquationLang.Parser

theorem bind_eq_error_iff {α β : Type} {x : Except Failure α} {f : α → Except Failure β}
    {failure : Failure} :
  (x >>= f) = .error failure ↔ x = .error failure ∨ ∃ a, x = .ok a ∧ f a = .error failure
  := by
  cases x <;> simp [bind, Except.bind]

/-- The tokens are the first ones of a canonical expression of the level `n`. -/
def Completes (n : Nat) (ts : List Token) : Prop :=
  ∃ e more, Expr.Spelled e (ts ++ more) ∧ e.Canonical ∧ n ≤ e.level

theorem Completes.mono {n m : Nat} {ts : List Token} (h : Completes m ts) (hnm : n ≤ m) :
  Completes n ts
  := by
  obtain ⟨e, more, hspelled, hcanonical, hlevel⟩ := h
  exact ⟨e, more, hspelled, hcanonical, hnm.trans hlevel⟩

theorem completes_nil :
  Completes operandLevel []
  := by
  refine ⟨.literal 0 "0", [⟨.num, 0, "0"⟩], rfl, .literal ?_, Nat.le_refl _⟩
  have htext : "0".toList = ['0'] := by decide
  rw [htext]
  refine ⟨⟨'0', rfl, rfl⟩, ['0'], [], [], ?_, .inl rfl, .inl rfl, rfl⟩
  intro c hc
  obtain rfl := List.mem_singleton.mp hc
  rfl

/-- The failure is about the token that was found, and if it is not about depth, every reading fails
that takes the tokens `before` up to that token, with any bound on the depth from `k` on. -/
structure Failing {α : Type} (run : Nat → List Token → Except Failure α) (k : Nat)
    (before : List Token) (failure : Failure) : Prop where
  found : ∀ fault ∈ failure.faults, fault.found = lookahead failure.rest
  again : failure.cause.complaint ≠ .tooDeep → ∀ k' rest, k ≤ k' →
    rest.head? = failure.rest.head? → ∃ failure', run k' (before ++ rest) = .error failure'

section

variable {α β : Type} {k : Nat} {before : List Token}
  {run : Nat → List Token → Except Failure α} {run' : Nat → List Token → Except Failure β}

/-- A complaint about the first of the tokens that are left. -/
theorem failing_refuse {complaint : Complaint} {ts : List Token}
    (h : ∀ k' rest, k ≤ k' → rest.head? = ts.head? →
      ∃ failure', run k' (before ++ rest) = .error failure') :
  Failing run k before ⟨⟨complaint, lookahead ts⟩, [], ts⟩
  := by
  constructor
  · simp [Failure.faults]
  · intro _ k' rest hk hrest
    apply h k' rest hk hrest

/-- The failure of a part is one of the whole, if the whole fails whenever the part does. -/
theorem Failing.of_part {before' : List Token} {failure : Failure}
    (h : Failing run k before failure)
    (hpart : ∀ k' rest failure', k ≤ k' → rest.head? = failure.rest.head? →
      run k' (before ++ rest) = .error failure' →
      ∃ failure'', run' k' (before' ++ rest) = .error failure'') :
  Failing run' k before' failure
  := by
  constructor
  · apply h.found
  · intro hcause k' rest hk hrest
    obtain ⟨failure', hrun⟩ := h.again hcause k' rest hk hrest
    apply hpart k' rest failure' hk hrest hrun

end

theorem lookahead_congr {rest rest' : List Token} (h : rest'.head? = rest.head?) :
  lookahead rest' = lookahead rest
  := by
  rw [lookahead, List.headD_eq_head?_getD, h, ← List.headD_eq_head?_getD, ← lookahead]

theorem head?_append_congr {ts rest rest' : List Token} (h : rest'.head? = rest.head?) :
  (ts ++ rest').head? = (ts ++ rest).head?
  := by
  rw [List.head?_append, List.head?_append, h]

/-- What has been read is read again before the same token, with any larger bound on the depth. -/
theorem Reading.again {n k k' : Nat} {e : Expr} {us rest rest' : List Token}
    (h : Reading n n k e us rest) (hn : n ≤ operandLevel) (hk : k ≤ k')
    (hrest : rest'.head? = rest.head?) :
  (joined n (factor k')).run (us ++ rest') = .ok (e, rest')
  := by
  apply run_joined_of_reading hn
  exact { h with
    nest := h.nest.trans hk
    stops := lookahead_congr hrest ▸ h.stops }

/-- What is known about the failures of reading an expression of the level `n`. -/
def FailsAt (n k : Nat) : Prop :=
  ∀ ts failure, (∀ t ∈ ts, t.IsProper) → (joined n (factor k)).run ts = .error failure →
    ∃ before, ts = before ++ failure.rest ∧ Completes n before
      ∧ Failing (fun k => (joined n (factor k)).run) k before failure

/-! ### Binary operators -/

theorem failing_chainFrom {n k : Nat} (hn : n < operandLevel) (h : FailsAt (n + 1) k)
    {left : Expr} {ls ts : List Token} {failure : Failure} (hproper : ∀ t ∈ ts, t.IsProper)
    (hleft : Reading n (n + 1) k left ls ts)
    (hrun : chainFrom (operators n) (joined (n + 1) (factor k)) left ts = .error failure) :
  ∃ before, ts = before ++ failure.rest ∧ Completes n (ls ++ before)
    ∧ Failing (fun k => chainFrom (operators n) (joined (n + 1) (factor k)) left) k before failure
  := by
  generalize hoperand : joined (n + 1) (factor k) = operand at hrun
  fun_induction chainFrom (operators n) operand left ts generalizing ls with
  | case1 | case2 => cases hrun
  | case3 left t ts op hop failure' read =>
    cases hrun
    subst hoperand
    have hts : ∀ u ∈ ts, u.IsProper := fun u hu => hproper u (List.mem_cons_of_mem t hu)
    obtain ⟨before, hbefore, hcompletes, hfailing⟩ := h ts failure hts read
    refine ⟨t :: before, congrArg (t :: ·) hbefore, ?_, hfailing.of_part ?_⟩
    · obtain ⟨right, more, hspelled, hcanonical, hlevel⟩ := hcompletes
      obtain ⟨hspelled', hcanonical', hop⟩ :=
        hleft.canonical_binary hop hspelled hcanonical hlevel
      refine ⟨_, more, ?_, hcanonical', Nat.le_of_eq hop.symm⟩
      rw [List.append_assoc]
      exact hspelled'
    · intro k' rest failure' hk hrest hrun
      use failure'
      apply chainFrom_of_error left hop hrun
  | case4 left t ts op hop right rest' read shorter ih =>
    subst hoperand
    have hts : ∀ u ∈ ts, u.IsProper := fun u hu => hproper u (List.mem_cons_of_mem t hu)
    obtain ⟨vs, rfl, hright⟩ := sound_joined hn k ts _ _ hts read
    have hrest' : ∀ u ∈ rest', u.IsProper := fun u hu => hts u (List.mem_append_right vs hu)
    obtain ⟨before, rfl, hcompletes, hfailing⟩ :=
      ih hrest' (hleft.binary hop hright) hrun
    refine ⟨t :: (vs ++ before), by simp, ?_, hfailing.of_part ?_⟩
    · rw [List.append_assoc] at hcompletes
      exact hcompletes
    · intro k' rest failure' hk hrest hrun
      use failure'
      rw [List.cons_append, List.append_assoc]
      rw [chainFrom_of_ok hop (hright.again hn hk (head?_append_congr hrest))]
      exact hrun

theorem failsAt_of_succ {n k : Nat} (hn : n < operandLevel) (h : FailsAt (n + 1) k) :
  FailsAt n k
  := by
  intro ts failure hproper hrun
  rw [joined_of_lt hn] at hrun
  obtain first | ⟨⟨left, rest'⟩, first, more⟩ := bind_eq_error_iff.mp hrun
  · obtain ⟨before, hbefore, hcompletes, hfailing⟩ := h ts failure hproper first
    refine ⟨before, hbefore, hcompletes.mono (Nat.le_succ n), hfailing.of_part ?_⟩
    intro k' rest failure' hk hrest hrun
    use failure'
    rw [joined_of_lt hn]
    apply bind_eq_error_iff.mpr (.inl hrun)
  · obtain ⟨ls, rfl, hleft⟩ := sound_joined hn k ts _ _ hproper first
    have hrest' : ∀ u ∈ rest', u.IsProper := fun u hu => hproper u (List.mem_append_right ls hu)
    obtain ⟨before, rfl, hcompletes, hfailing⟩ := failing_chainFrom hn h hrest'
      { hleft with level := Nat.le_of_succ_le hleft.level } more
    refine ⟨ls ++ before, by simp, hcompletes, hfailing.of_part ?_⟩
    intro k' rest failure' hk hrest hrun
    use failure'
    rw [joined_of_lt hn, List.append_assoc,
      run_chain (hleft.again hn hk (head?_append_congr hrest))]
    exact hrun

theorem FailsAt.mono {n k : Nat} (h : FailsAt operandLevel k) (hn : n ≤ operandLevel) :
  FailsAt n k
  := by
  induction hn using Nat.decreasingInduction with
  | self => exact h
  | of_succ n hlt ih => exact failsAt_of_succ hlt ih

/-! ### Operands -/

theorem expect_of_error {kind : Token.Kind} {complaint : Complaint} {ts : List Token}
    {failure : Failure} (h : expect kind complaint ts = .error failure) :
  failure = ⟨⟨complaint, lookahead ts⟩, [], ts⟩
    ∧ ∀ rest, rest.head? = ts.head? → ∃ failure', expect kind complaint rest = .error failure'
  := by
  cases ts with
  | nil =>
    cases h
    use rfl
    intro rest hrest
    obtain rfl := List.head?_eq_none_iff.mp hrest
    exact ⟨_, rfl⟩
  | cons t ts =>
    rw [expect] at h
    split at h
    · cases h
    · next hkind =>
      cases h
      use rfl
      intro rest hrest
      obtain ⟨rest, rfl⟩ := List.head?_eq_some_iff.mp hrest
      rw [expect, if_neg hkind]
      exact ⟨_, rfl⟩

section

variable {k : Nat} (h : FailsAt operandLevel k)

include h

theorem failing_enclosed {kind : Token.Kind} {complaint : Complaint}
    {node : Expr → Token → Expr} {ts : List Token} {failure : Failure}
    (hproper : ∀ t ∈ ts, t.IsProper)
    (hrun : enclosed kind complaint node (factor k) ts = .error failure) :
  ∃ before, ts = before ++ failure.rest ∧ Completes 0 before
    ∧ Failing (fun k => enclosed kind complaint node (factor k)) k before failure
  := by
  obtain first | ⟨⟨body, rest'⟩, first, more⟩ := bind_eq_error_iff.mp hrun
  · obtain ⟨before, hbefore, hcompletes, hfailing⟩ :=
      h.mono (Nat.zero_le _) ts failure hproper first
    refine ⟨before, hbefore, hcompletes, hfailing.of_part ?_⟩
    intro k' rest failure' hk hrest hrun
    use failure'
    apply bind_eq_error_iff.mpr (.inl hrun)
  · obtain ⟨us, rfl, hbody⟩ := sound_joined (Nat.zero_le _) k ts _ _ hproper first
    obtain last | ⟨⟨closing, rest''⟩, last, more⟩ := bind_eq_error_iff.mp more
    · obtain ⟨rfl, hlast⟩ := expect_of_error last
      refine ⟨us, rfl, ⟨body, [], ?_, hbody.canonical, Nat.zero_le _⟩, failing_refuse ?_⟩
      · rw [List.append_nil]
        apply hbody.spelled
      · intro k' rest hk hrest
        obtain ⟨failure', hlast⟩ := hlast rest hrest
        use failure'
        refine bind_eq_error_iff.mpr (.inr ⟨(body, rest), ?_, ?_⟩)
        · apply hbody.again (Nat.zero_le _) hk hrest
        · apply bind_eq_error_iff.mpr (.inl hlast)
    · cases more

theorem failing_parenthesized {opening : Token} {ts : List Token} {failure : Failure}
    (hproper : ∀ t ∈ opening :: ts, t.IsProper) (hopening : opening.kind = .lparen)
    (hrun : parenthesized (factor k) opening ts = .error failure) :
  ∃ before, ts = before ++ failure.rest ∧ Completes operandLevel (opening :: before)
    ∧ Failing (fun k => parenthesized (factor k) opening) k before failure
  := by
  have hts : ∀ t ∈ ts, t.IsProper := fun t ht => hproper t (List.mem_cons_of_mem opening ht)
  simp only [parenthesized_eq_enclosed] at hrun ⊢
  obtain ⟨before, hbefore, hcompletes, hfailing⟩ := failing_enclosed h hts hrun
  refine ⟨before, hbefore, ?_, hfailing⟩
  obtain ⟨body, more, hspelled, hcanonical, -⟩ := hcompletes
  refine ⟨.paren opening.pos body 0, more ++ [⟨.rparen, 0, ")"⟩], ⟨_, hspelled, ?_⟩,
    .paren hcanonical, Nat.le_refl _⟩
  rw [Token.eq_of_isProper (c := '(') (hproper opening (by simp)) hopening rfl (by simp)]
  simp

theorem failing_subscripted {name opening : Token} {ts : List Token} {failure : Failure}
    (hproper : ∀ t ∈ name :: opening :: ts, t.IsProper) (hname : name.kind = .ident)
    (hopening : opening.kind = .lbracket)
    (hrun : subscripted (factor k) (.ident name.pos name.text) opening ts = .error failure) :
  ∃ before, ts = before ++ failure.rest ∧ Completes operandLevel (name :: opening :: before)
    ∧ Failing (fun k => subscripted (factor k) (.ident name.pos name.text) opening) k before failure
  := by
  have hts : ∀ t ∈ ts, t.IsProper := by
    intro t ht
    apply hproper t (List.mem_cons_of_mem name (List.mem_cons_of_mem opening ht))
  simp only [subscripted_eq_enclosed] at hrun ⊢
  obtain ⟨before, hbefore, hcompletes, hfailing⟩ := failing_enclosed h hts hrun
  refine ⟨before, hbefore, ?_, hfailing⟩
  obtain ⟨subscript, more, hspelled, hcanonical, -⟩ := hcompletes
  refine ⟨.index (.ident name.pos name.text) opening.pos subscript 0, more ++ [⟨.rbracket, 0, "]"⟩],
    ⟨[name], _, spelled_ident hname, hspelled, ?_⟩, .index ?_ hcanonical, Nat.le_refl _⟩
  · rw [Token.eq_of_isProper (c := '[') (hproper opening (by simp)) hopening rfl (by simp)]
    simp
  · apply isName_of_isProper (hproper name List.mem_cons_self) hname

end

/-- The tokens are the first ones of the arguments of a call. -/
def CompletesArgs (ts : List Token) : Prop :=
  ∃ args more, Expr.SpelledArgs args (ts ++ more) ∧ (∀ arg ∈ args, arg.Canonical) ∧ args ≠ []

theorem arguments_of_error {arg : Parser Expr} {ts : List Token} {failure : Failure}
    (hrun : arg.run ts = .error failure) :
  arguments arg ts = .error (failure.within .badArgument)
  := by
  rw [arguments.eq_def]
  split
  · simp_all
  · simp_all
  · simp_all

theorem arguments_of_ok_nil {arg : Parser Expr} {ts : List Token} {e : Expr}
    (hrun : arg.run ts = .ok (e, [])) :
  arguments arg ts = refuse .noArgumentEnd []
  := by
  rw [arguments.eq_def]
  split
  · simp_all
  · rfl
  · simp_all

/-- The first argument, and what comes after it. -/
theorem arguments_eq (arg : Parser Expr) (ts : List Token) :
  arguments arg ts
    = (arg.run ts).mapError (·.within .badArgument) >>= fun (e, rest) =>
      if (lookahead rest).isOp "," then
        arguments arg rest.tail >>= fun ((es, closing), rest) =>
          .ok ((e :: es, closing), rest)
      else
        expect .rparen .noArgumentEnd rest >>= fun (closing, rest) =>
          .ok (([e], closing), rest)
  := by
  cases hrun : arg.run ts with
  | error failure => exact arguments_of_error hrun
  | ok p =>
    obtain ⟨e, rest⟩ := p
    cases rest with
    | nil => exact arguments_of_ok_nil hrun
    | cons t rest =>
      rw [arguments_of_ok hrun]
      change _ = if t.isOp "," then _ else expect .rparen .noArgumentEnd (t :: rest) >>= _
      rw [expect]
      split
      · rfl
      · split <;> rfl

theorem Reading.completesArgs {k : Nat} {e : Expr} {us rest : List Token}
    (h : Reading 0 0 k e us rest) :
  CompletesArgs us
  := by
  refine ⟨[e], [], ?_, ?_, List.cons_ne_nil e []⟩
  · rw [List.append_nil]
    apply h.spelled
  · simpa using h.canonical

theorem CompletesArgs.cons {k : Nat} {e : Expr} {us ts rest : List Token} {t : Token}
    (h : CompletesArgs ts) (he : Reading 0 0 k e us rest) (ht : t.isOp ",") :
  CompletesArgs (us ++ t :: ts)
  := by
  obtain ⟨args, more, hspelled, hcanonical, hne⟩ := h
  obtain ⟨arg, args, rfl⟩ := List.exists_cons_of_ne_nil hne
  refine ⟨e :: arg :: args, more, ⟨us, t.pos, ts ++ more, he.spelled, hspelled, ?_⟩, ?_,
    List.cons_ne_nil e _⟩
  · rw [← eq_comma_of_isOp ht, List.append_assoc]
    rfl
  · intro arg' harg'
    obtain rfl | harg' := List.mem_cons.mp harg'
    · apply he.canonical
    · apply hcanonical arg' harg'

theorem found_within {complaint : Complaint} {failure : Failure}
    (h : ∀ fault ∈ failure.faults, fault.found = lookahead failure.rest) :
  ∀ fault ∈ (failure.within complaint).faults,
    fault.found = lookahead (failure.within complaint).rest
  := by
  intro fault hfault
  obtain hfault | hfault := List.mem_append.mp (show fault ∈ failure.faults ++ [_] from hfault)
  · apply h fault hfault
  · obtain rfl := List.mem_singleton.mp hfault
    rfl

theorem failing_arguments {k : Nat} (h : FailsAt 0 k) {ts : List Token} {failure : Failure}
    (hproper : ∀ t ∈ ts, t.IsProper)
    (hrun : arguments (expression (factor k)) ts = .error failure) :
  ∃ before, ts = before ++ failure.rest ∧ CompletesArgs before
    ∧ Failing (fun k => arguments (expression (factor k))) k before failure
  := by
  generalize harg : expression (factor k) = arg at hrun
  fun_induction arguments arg ts generalizing failure with
  | case1 ts failure' read =>
    cases hrun
    subst harg
    obtain ⟨before, hbefore, hcompletes, hfailing⟩ := h ts failure' hproper read
    refine ⟨before, hbefore, ?_, found_within hfailing.found, ?_⟩
    · obtain ⟨arg, more, hspelled, hcanonical, -⟩ := hcompletes
      exact ⟨[arg], more, hspelled, by simpa using hcanonical, by simp⟩
    · intro hcause k' rest hk hrest
      obtain ⟨failure'', hrun⟩ := hfailing.again hcause k' rest hk hrest
      exact ⟨_, arguments_of_error hrun⟩
  | case2 ts e read =>
    cases hrun
    subst harg
    obtain ⟨us, rfl, he⟩ := sound_joined (Nat.zero_le _) k ts _ _ hproper read
    refine ⟨us, rfl, he.completesArgs, failing_refuse ?_⟩
    intro k' rest hk hrest
    obtain rfl := List.head?_eq_none_iff.mp hrest
    exact ⟨_, arguments_of_ok_nil (he.again (Nat.zero_le _) hk rfl)⟩
  | case3 ts e t rest' read shorter comma ih =>
    subst harg
    obtain ⟨us, rfl, he⟩ := sound_joined (Nat.zero_le _) k ts _ _ hproper read
    have hrest' : ∀ u ∈ rest', u.IsProper := fun u hu => hproper u (by simp [hu])
    obtain more | ⟨_, -, more⟩ := bind_eq_error_iff.mp hrun
    · obtain ⟨before, rfl, hcompletes, hfailing⟩ := ih hrest' more
      refine ⟨us ++ t :: before, by simp, hcompletes.cons he comma, hfailing.of_part ?_⟩
      intro k' rest failure' hk hrest hrun
      use failure'
      have hagain : (expression (factor k')).run (us ++ t :: (before ++ rest))
          = .ok (e, t :: (before ++ rest)) := he.again (Nat.zero_le _) hk rfl
      rw [List.append_assoc, List.cons_append, arguments_of_ok hagain, if_pos comma]
      apply bind_eq_error_iff.mpr (.inl hrun)
    · cases more
  | case4 => cases hrun
  | case5 ts e t rest' read shorter comma isEnd =>
    cases hrun
    subst harg
    obtain ⟨us, rfl, he⟩ := sound_joined (Nat.zero_le _) k ts _ _ hproper read
    refine ⟨us, rfl, he.completesArgs, failing_refuse ?_⟩
    intro k' rest hk hrest
    obtain ⟨rest, rfl⟩ := List.head?_eq_some_iff.mp hrest
    have hagain : (expression (factor k')).run (us ++ t :: rest) = .ok (e, t :: rest) :=
      he.again (Nat.zero_le _) hk rfl
    rw [arguments_of_ok hagain, if_neg comma, if_neg isEnd]
    exact ⟨_, rfl⟩

theorem operandOver_of_not_startsOperand {t : Token} (h : ¬ t.StartsOperand)
    (operand : Parser Expr) (ts : List Token) :
  operandOver operand (t :: ts) = refuse .noOperand (t :: ts)
  := by
  rw [operandOver]
  split
  · next hkind => exact absurd (.inr (.inr (.inl hkind))) h
  · next hkind => exact absurd (.inr (.inl hkind)) h
  · next hkind => exact absurd (.inl hkind) h
  · next hkind =>
    split
    · next sign hsign =>
      have htext := Sign.ofSymbol?_eq_some_iff.mp hsign
      exact absurd (.inr (.inr (.inr ⟨sign, hkind, htext.symm⟩))) h
    · rfl
  · rfl

section

variable {k : Nat} (h : FailsAt operandLevel k)

include h

theorem failing_called {name opening : Token} {ts : List Token} {failure : Failure}
    (hproper : ∀ t ∈ name :: opening :: ts, t.IsProper) (hname : name.kind = .ident)
    (hopening : opening.kind = .lparen)
    (hrun : called (factor k) (.ident name.pos name.text) opening ts = .error failure) :
  ∃ before, ts = before ++ failure.rest ∧ Completes operandLevel (name :: opening :: before)
    ∧ Failing (fun k => called (factor k) (.ident name.pos name.text) opening) k before failure
  := by
  have hts : ∀ t ∈ ts, t.IsProper := by
    intro t ht
    apply hproper t (List.mem_cons_of_mem name (List.mem_cons_of_mem opening ht))
  rw [called] at hrun
  split at hrun
  · cases hrun
  · next hclosing =>
    obtain first | ⟨_, -, more⟩ := bind_eq_error_iff.mp hrun
    · obtain ⟨before, rfl, hcompletes, hfailing⟩ :=
        failing_arguments (h.mono (Nat.zero_le _)) hts first
      refine ⟨before, rfl, ?_, hfailing.of_part ?_⟩
      · obtain ⟨args, more, hspelled, hcanonical, -⟩ := hcompletes
        refine ⟨.call (.ident name.pos name.text) opening.pos args 0, more ++ [⟨.rparen, 0, ")"⟩],
          ⟨[name], _, spelled_ident hname, hspelled, ?_⟩, .call ?_ hcanonical, Nat.le_refl _⟩
        · rw [Token.eq_of_isProper (c := '(') (hproper opening (by simp)) hopening rfl (by simp)]
          simp
        · apply isName_of_isProper (hproper name List.mem_cons_self) hname
      · intro k' rest failure' hk hrest hrun
        use failure'
        rw [called, lookahead_congr (head?_append_congr hrest), if_neg hclosing]
        apply bind_eq_error_iff.mpr (.inl hrun)
    · cases more

theorem failing_named {name : Token} {ts : List Token} {failure : Failure}
    (hproper : ∀ t ∈ name :: ts, t.IsProper) (hname : name.kind = .ident)
    (hrun : named (factor k) name ts = .error failure) :
  ∃ before, ts = before ++ failure.rest ∧ Completes operandLevel (name :: before)
    ∧ Failing (fun k => named (factor k) name) k before failure
  := by
  rw [named.eq_def] at hrun
  split at hrun
  · cases hrun
  · next t ts =>
    split at hrun
    · next hkind =>
      obtain ⟨before, rfl, hcompletes, hfailing⟩ := failing_called h hproper hname hkind hrun
      refine ⟨t :: before, rfl, hcompletes, hfailing.of_part ?_⟩
      intro k' rest failure' hk hrest hrun
      use failure'
      simp only [List.cons_append, named, hkind]
      exact hrun
    · next hkind =>
      obtain ⟨before, rfl, hcompletes, hfailing⟩ := failing_subscripted h hproper hname hkind hrun
      refine ⟨t :: before, rfl, hcompletes, hfailing.of_part ?_⟩
      intro k' rest failure' hk hrest hrun
      use failure'
      simp only [List.cons_append, named, hkind]
      exact hrun
    · cases hrun

theorem failing_signed {t : Token} {sign : Sign} {ts : List Token} {failure : Failure}
    (hproper : ∀ u ∈ t :: ts, u.IsProper) (hkind : t.kind = .operator)
    (htext : t.text = sign.symbol) (hrun : (signed (factor k)).run ts = .error failure) :
  ∃ before, ts = before ++ failure.rest ∧ Completes operandLevel (t :: before)
    ∧ Failing (fun k => (signed (factor k)).run) k before failure
  := by
  have hts : ∀ u ∈ ts, u.IsProper := fun u hu => hproper u (List.mem_cons_of_mem t hu)
  obtain ⟨before, hbefore, hcompletes, hfailing⟩ :=
    h.mono (Nat.le_of_lt (Operator.level_lt .exp)) ts failure hts hrun
  refine ⟨before, hbefore, ?_, hfailing⟩
  obtain ⟨operand, more, hspelled, hcanonical, hlevel⟩ := hcompletes
  refine ⟨.unary t.pos sign operand, more, ⟨_, hspelled, ?_⟩, .unary hcanonical hlevel,
    Nat.le_refl _⟩
  rw [← htext, ← hkind]
  rfl

theorem failing_operandOver {ts : List Token} {failure : Failure}
    (hproper : ∀ t ∈ ts, t.IsProper) (hrun : operandOver (factor k) ts = .error failure) :
  ∃ before, ts = before ++ failure.rest ∧ Completes operandLevel before
    ∧ Failing (fun k => operandOver (factor k)) k before failure
  := by
  cases ts with
  | nil =>
    cases hrun
    refine ⟨[], rfl, completes_nil, failing_refuse ?_⟩
    intro k' rest _ hrest
    obtain rfl := List.head?_eq_none_iff.mp hrest
    exact ⟨_, rfl⟩
  | cons t ts =>
    by_cases hstart : t.StartsOperand
    · obtain hkind | hkind | hkind | ⟨sign, hkind, htext⟩ := hstart
      · simp only [operandOver, hkind] at hrun
        obtain ⟨before, rfl, hcompletes, hfailing⟩ := failing_named h hproper hkind hrun
        refine ⟨t :: before, rfl, hcompletes, hfailing.of_part ?_⟩
        intro k' rest failure' hk hrest hrun
        use failure'
        simp only [List.cons_append, operandOver, hkind]
        exact hrun
      · simp only [operandOver, hkind] at hrun
        cases hrun
      · simp only [operandOver, hkind] at hrun
        obtain ⟨before, rfl, hcompletes, hfailing⟩ := failing_parenthesized h hproper hkind hrun
        refine ⟨t :: before, rfl, hcompletes, hfailing.of_part ?_⟩
        intro k' rest failure' hk hrest hrun
        use failure'
        simp only [List.cons_append, operandOver, hkind]
        exact hrun
      · have hsign := Sign.ofSymbol?_eq_some_iff.mpr htext.symm
        simp only [operandOver, hkind, hsign] at hrun
        obtain first | ⟨_, -, more⟩ := bind_eq_error_iff.mp hrun
        · obtain ⟨before, rfl, hcompletes, hfailing⟩ := failing_signed h hproper hkind htext first
          refine ⟨t :: before, rfl, hcompletes, hfailing.of_part ?_⟩
          intro k' rest failure' hk hrest hrun
          use failure'
          simp only [List.cons_append, operandOver, hkind, hsign]
          apply bind_eq_error_iff.mpr (.inl hrun)
        · cases more
    · rw [operandOver_of_not_startsOperand hstart] at hrun
      cases hrun
      refine ⟨[], rfl, completes_nil, failing_refuse ?_⟩
      intro k' rest _ hrest
      obtain ⟨rest, rfl⟩ := List.head?_eq_some_iff.mp hrest
      exact ⟨_, operandOver_of_not_startsOperand hstart _ _⟩

end

/-- Where an operand cannot be read. -/
theorem failsAt_factor :
  ∀ k : Nat, FailsAt operandLevel k
  | 0 => by
      intro ts failure _ hrun
      cases hrun
      refine ⟨[], rfl, completes_nil, by simp [Failure.faults], ?_⟩
      intro hcause
      exact absurd rfl hcause
  | k + 1 => by
      intro ts failure hproper hrun
      obtain ⟨before, hbefore, hcompletes, hfailing⟩ :=
        failing_operandOver (failsAt_factor k) hproper hrun
      refine ⟨before, hbefore, hcompletes, hfailing.found, ?_⟩
      intro hcause k' rest hk hrest
      obtain ⟨k', rfl⟩ := Nat.exists_eq_succ_of_ne_zero (Nat.ne_zero_of_lt hk)
      apply hfailing.again hcause k' rest (Nat.le_of_succ_le_succ hk) hrest

/-- Where an expression cannot be read. -/
theorem failsAt_joined {n : Nat} (hn : n ≤ operandLevel) (k : Nat) :
  FailsAt n k
  := (failsAt_factor k).mono hn

end EquationLang.Parser
