import EquationLang.Proofs.Dependency.References
import EquationLang.Proofs.Grammar.Acceptance

/-!
# References are read off the tokens

In the tokens of an accepted equation, a name is called exactly if an opening paren comes right
after it.  So the references of the equation are the names that no opening paren comes after
(`references_of_tokens`).
-/

namespace EquationLang

/-- The texts of the names among the tokens that no opening paren comes right after. -/
def mentions : List Token → List String
  | [] => []
  | t :: ts =>
    if t.kind = .ident ∧ ts.head?.map Token.kind ≠ some .lparen then t.text :: mentions ts
    else mentions ts

theorem mentions_cons_of_kind_ne {t : Token} (h : t.kind ≠ .ident) (ts : List Token) :
  mentions (t :: ts) = mentions ts
  := by
  rw [mentions, if_neg]
  rintro ⟨hkind, -⟩
  exact h hkind

theorem mentions_eq_nil {ts : List Token} (h : ∀ t ∈ ts, t.kind ≠ .ident) :
  mentions ts = []
  := by
  induction ts with
  | nil => rfl
  | cons t ts ih =>
    obtain ⟨hfirst, hrest⟩ := List.forall_mem_cons.mp h
    rw [mentions_cons_of_kind_ne hfirst, ih hrest]

namespace Expr

/-- Where no opening paren comes after the tokens of the expression, its variables are the names
that are mentioned. -/
def Mentioned (e : Expr) : Prop :=
  ∀ us rest, e.Spelled us → rest.head?.map Token.kind ≠ some .lparen →
    mentions (us ++ rest) = e.variableNames ++ mentions rest

theorem mentioned_ident (pos : Nat) (name : String) :
  (ident pos name).Mentioned
  := by
  rintro us rest rfl hrest
  rw [List.singleton_append, mentions, if_pos ⟨rfl, hrest⟩]
  rfl

theorem mentioned_literal (pos : Nat) (value : String) :
  (literal pos value).Mentioned
  := by
  rintro us rest rfl -
  apply mentions_cons_of_kind_ne
  simp

theorem Mentioned.paren {lparen rparen : Nat} {body : Expr} (h : body.Mentioned) :
  (paren lparen body rparen).Mentioned
  := by
  rintro us rest ⟨vs, hbody, rfl⟩ -
  rw [List.cons_append, List.append_assoc, mentions_cons_of_kind_ne (by simp),
    h vs _ hbody (by simp), List.singleton_append, mentions_cons_of_kind_ne (by simp)]
  rfl

theorem Mentioned.unary {opPos : Nat} {sign : Sign} {operand : Expr} (h : operand.Mentioned) :
  (unary opPos sign operand).Mentioned
  := by
  rintro us rest ⟨vs, hoperand, rfl⟩ hrest
  rw [List.cons_append, mentions_cons_of_kind_ne (by simp), h vs rest hoperand hrest]
  rfl

theorem Mentioned.binary {left right : Expr} {opPos : Nat} {op : Operator} (hl : left.Mentioned)
    (hr : right.Mentioned) :
  (binary left opPos op right).Mentioned
  := by
  rintro us rest ⟨vs, ws, hleft, hright, rfl⟩ hrest
  rw [List.append_assoc, List.cons_append, hl vs _ hleft (by simp),
    mentions_cons_of_kind_ne (by simp), hr ws rest hright hrest, ← List.append_assoc]
  rfl

theorem Mentioned.index {base subscript : Expr} {lbrack rbrack : Nat} (hb : base.Mentioned)
    (hs : subscript.Mentioned) :
  (index base lbrack subscript rbrack).Mentioned
  := by
  rintro us rest ⟨vs, ws, hbase, hsubscript, rfl⟩ -
  rw [List.append_assoc, List.cons_append, List.append_assoc, hb vs _ hbase (by simp),
    mentions_cons_of_kind_ne (by simp), hs ws _ hsubscript (by simp), List.singleton_append,
    mentions_cons_of_kind_ne (by simp), ← List.append_assoc]
  rfl

/-- The variables of the arguments of a call are the names mentioned up to the closing paren. -/
theorem mentions_args {args : List Expr} (h : ∀ arg ∈ args, arg.Mentioned) {us : List Token}
    (hus : SpelledArgs args us) {rest : List Token}
    (hrest : rest.head?.map Token.kind ≠ some .lparen) :
  mentions (us ++ rest) = variableNamesAll args ++ mentions rest
  := by
  induction args generalizing us with
  | nil =>
    obtain rfl := hus
    rfl
  | cons arg args ih =>
    obtain ⟨harg, hargs⟩ := List.forall_mem_cons.mp h
    cases args with
    | nil =>
      rw [harg us rest hus hrest, variableNamesAll, variableNamesAll, List.append_nil]
    | cons next args =>
      obtain ⟨vs, pos, ws, hvs, hws, rfl⟩ := hus
      rw [List.append_assoc, List.cons_append, harg vs _ hvs (by simp),
        mentions_cons_of_kind_ne (by simp), ih hargs hws, ← List.append_assoc]
      rfl

theorem Mentioned.call {pos lparen rparen : Nat} {name : String} {args : List Expr}
    (h : ∀ arg ∈ args, arg.Mentioned) :
  (call (.ident pos name) lparen args rparen).Mentioned
  := by
  rintro us rest ⟨vs, ws, rfl, hargs, rfl⟩ -
  have hname (ts : List Token) :
      mentions (⟨.ident, pos, name⟩ :: ⟨.lparen, lparen, "("⟩ :: ts) = mentions ts := by
    rw [mentions, if_neg (by simp), mentions_cons_of_kind_ne (by simp)]
  simp only [List.append_assoc, List.cons_append, List.nil_append]
  rw [hname, mentions_args h hargs (by simp), mentions_cons_of_kind_ne (by simp)]
  rfl

theorem Canonical.mentioned {e : Expr} (h : e.Canonical) :
  e.Mentioned
  := by
  induction h with
  | ident => apply mentioned_ident
  | literal => apply mentioned_literal
  | paren _ ih => apply ih.paren
  | index _ _ ih => apply (mentioned_ident _ _).index ih
  | call _ _ ih => apply Mentioned.call ih
  | unary _ _ ih => apply ih.unary
  | binary _ _ _ _ _ ihl ihr => apply ihl.binary ihr

end Expr

/-- In the tokens of an equation, only those of its expression are names. -/
theorem IsEquation.mentions_eq {e : Expr} {ts : List Token} (h : IsEquation e ts)
    (hcanonical : e.Canonical) :
  mentions ts = e.variableNames
  := by
  obtain ⟨us, semis, last, rfl, hspelled, hsemis, hne, hlast⟩ := h
  rw [hcanonical.mentioned us _ hspelled, mentions_eq_nil, List.append_nil]
  · intro t ht
    obtain ht | ht := List.mem_append.mp ht
    · simp [hsemis t ht]
    · simp [List.mem_singleton.mp ht, hlast]
  · obtain ⟨semi, semis, rfl⟩ := List.exists_cons_of_ne_nil hne
    simp [hsemis semi]

/-- The references of an accepted equation are the names among its tokens that no opening paren
comes right after, in the same order; and its identifiers are the set of their canonical names. -/
theorem references_of_tokens {name eqn : String} {e : Expr} (h : parse name eqn = .ok e) :
  e.references = mentions (equationTokens eqn)
    ∧ (∀ identifier, identifier ∈ e.identifierSet
      ↔ ∃ reference ∈ mentions (equationTokens eqn), canonicalize reference = identifier)
    ∧ e.identifierSet.Pairwise (· < ·)
  := by
  obtain ⟨-, hequation, hcanonical, -⟩ := parse_eq_ok_iff.mp h
  have hreferences : e.references = mentions (equationTokens eqn) := by
    rw [hequation.mentions_eq hcanonical, Expr.references, Expr.inspect_visit]
    simp
  use hreferences
  rw [← hreferences]
  apply e.identifierSet_spec

/-- A name that is called may be a reference in another place, and what looks like a call in a
comment is none. -/
theorem references_of_nested_calls :
  ∃ e, parse "y" "f (g(B), b[max(a, f)])(B) - -A_1 ^ F // x(" = .ok e
    ∧ e.references = ["B", "b", "a", "f", "B", "A_1", "F"]
    ∧ "a_1" ∈ e.identifierSet ∧ "max" ∉ e.identifierSet
  := by
  have hparse : parse "y" "f (g(B), b[max(a, f)])(B) - -A_1 ^ F // x(" = .ok
      (.binary (.binary (.call (.ident 0 "f") 2 [.call (.ident 3 "g") 4 [.ident 5 "B"] 6,
          .index (.ident 9 "b") 10 (.call (.ident 11 "max") 14 [.ident 15 "a", .ident 18 "f"] 19)
            20] 21) 22 .mul (.paren 22 (.ident 23 "B") 24)) 26 .sub
        (.unary 28 .negative (.binary (.ident 29 "A_1") 33 .exp (.ident 35 "F")))) := by
    decide +kernel
  have hmentions : mentions (equationTokens "f (g(B), b[max(a, f)])(B) - -A_1 ^ F // x(")
      = ["B", "b", "a", "f", "B", "A_1", "F"] := by
    decide +kernel
  obtain ⟨hreferences, hidentifiers, -⟩ := references_of_tokens hparse
  rw [hmentions] at hreferences hidentifiers
  refine ⟨_, hparse, hreferences, ?_, ?_⟩
  · rw [hidentifiers]
    decide +kernel
  · rw [hidentifiers]
    decide +kernel

end EquationLang
