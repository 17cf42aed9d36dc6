import EquationLang.Proofs.Grammar.Acceptance
import Mathlib.Data.List.Forall2

/-!
# Beginnings of equations

The grammar looks at the kinds of tokens, and at the texts of operators.  A list of tokens is viable
if the tokens of some equation, however deep, begin with tokens of the same shapes.  Such an
equation can be found among those that begin with the tokens themselves (`exists_of_isViable`).
-/

namespace EquationLang

/-- What the grammar looks at: the kind of a token, and the text of an operator. -/
def Token.shape (t : Token) : Token.Kind × Option String :=
  (t.kind, if t.kind = .operator then some t.text else none)

/-- The shapes of the tokens of equations, with no bound on the depth of the expression. -/
def IsSentence (shapes : List (Token.Kind × Option String)) : Prop :=
  ∃ e ts, e.Canonical ∧ IsEquation e ts ∧ ts.map Token.shape = shapes

/-- The tokens have the shapes of the first tokens of an equation. -/
def IsViable (ts : List Token) : Prop := ∃ more, IsSentence (ts.map Token.shape ++ more)

/-- What comes before viable tokens is viable. -/
theorem IsViable.of_append {ts us : List Token} (h : IsViable (ts ++ us)) :
  IsViable ts
  := by
  obtain ⟨more, h⟩ := h
  rw [List.map_append, List.append_assoc] at h
  exact ⟨_, h⟩

theorem isViable_of_isEquation {e : Expr} {ts more : List Token} (hcanonical : e.Canonical)
    (h : IsEquation e (ts ++ more)) :
  IsViable ts
  := ⟨more.map Token.shape, e, ts ++ more, hcanonical, h, List.map_append⟩

namespace Token

/-- The token `u` has the shape of `t`, and a proper text if `t` has one. -/
structure Resembles (u t : Token) : Prop where
  shape : u.shape = t.shape
  isProper : t.IsProper → u.IsProper

theorem resembles_refl (t : Token) :
  t.Resembles t
  := ⟨rfl, id⟩

theorem Resembles.kind {u t : Token} (h : u.Resembles t) :
  u.kind = t.kind
  := congrArg Prod.fst h.shape

theorem Resembles.eq_operator {u : Token} {pos : Nat} {text : String}
    (h : u.Resembles ⟨.operator, pos, text⟩) :
  u = ⟨.operator, u.pos, text⟩
  := by
  have hkind : u.kind = .operator := h.kind
  have htext := congrArg Prod.snd h.shape
  simp only [Token.shape, hkind, if_true, Option.some.injEq] at htext
  rw [← hkind, ← htext]

theorem Resembles.eq_ident {u : Token} {pos : Nat} {name : String}
    (h : u.Resembles ⟨.ident, pos, name⟩) (hname : IsName name.toList) :
  u = ⟨.ident, u.pos, u.text⟩ ∧ IsName u.text.toList
  := by
  have hkind : u.kind = .ident := h.kind
  have hproper := h.isProper hname
  rw [IsProper, hkind] at hproper
  use by rw [← hkind]
  exact hproper

theorem Resembles.eq_num {u : Token} {pos : Nat} {value : String}
    (h : u.Resembles ⟨.num, pos, value⟩) (hvalue : IsNumeral value.toList) :
  u = ⟨.num, u.pos, u.text⟩ ∧ IsNumeral u.text.toList
  := by
  have hkind : u.kind = .num := h.kind
  have hproper := h.isProper hvalue
  rw [IsProper, hkind] at hproper
  use by rw [← hkind]
  exact hproper

theorem isProper_of_punctuation? {c : Char} {kind : Kind} (h : punctuation? c = some kind)
    (pos : Nat) :
  IsProper ⟨kind, pos, String.singleton c⟩
  := by
  have hlexeme := isLexeme_of_punctuation? h
  rw [IsProper, String.toList_singleton]
  split
  · trivial
  · trivial
  · trivial
  · exact hlexeme

/-- A token that resembles one that opens or closes something is written like it. -/
theorem Resembles.eq_mark {u : Token} {pos : Nat} {kind : Kind} {c : Char}
    (h : u.Resembles ⟨kind, pos, String.singleton c⟩) (hc : punctuation? c = some kind)
    (hkind : kind ≠ .operator) :
  u = ⟨kind, u.pos, String.singleton c⟩
  := eq_of_isProper (h.isProper (isProper_of_punctuation? hc pos)) h.kind hc hkind

end Token

theorem exists_append_of_forall₂ {R : Token → Token → Prop} {us ts ts' : List Token}
    (h : List.Forall₂ R us (ts ++ ts')) :
  ∃ vs vs', us = vs ++ vs' ∧ List.Forall₂ R vs ts ∧ List.Forall₂ R vs' ts'
  := ⟨_, _, (List.take_append_drop ts.length us).symm, List.forall₂_take_append us ts ts' h,
    List.forall₂_drop_append us ts ts' h⟩

theorem exists_singleton_of_forall₂ {R : Token → Token → Prop} {us : List Token} {t : Token}
    (h : List.Forall₂ R us [t]) :
  ∃ u, us = [u] ∧ R u t
  := by
  obtain ⟨u, rest, hu, hrest, rfl⟩ := List.forall₂_cons_right_iff.mp h
  obtain rfl := List.forall₂_nil_right_iff.mp hrest
  exact ⟨u, rfl, hu⟩

/-- Tokens related to a stretch between two tokens are a stretch between two tokens. -/
theorem exists_enclosed_of_forall₂ {R : Token → Token → Prop} {us ts : List Token} {t t' : Token}
    (h : List.Forall₂ R us (t :: (ts ++ [t']))) :
  ∃ u vs u', us = u :: (vs ++ [u']) ∧ R u t ∧ List.Forall₂ R vs ts ∧ R u' t'
  := by
  obtain ⟨u, rest, hu, hrest, rfl⟩ := List.forall₂_cons_right_iff.mp h
  obtain ⟨vs, last, rfl, hvs, hlast⟩ := exists_append_of_forall₂ hrest
  obtain ⟨u', rfl, hu'⟩ := exists_singleton_of_forall₂ hlast
  exact ⟨u, vs, u', rfl, hu, hvs, hu'⟩

namespace Expr

/-- The tokens `us` spell an expression as canonical as `e`. -/
def Respelled (e : Expr) (us : List Token) : Prop :=
  ∃ e' : Expr, e'.Spelled us ∧ e'.Canonical ∧ e'.level = e.level
    ∧ (e'.EndsInSigned ↔ e.EndsInSigned)

theorem exists_respelled_args {args : List Expr}
    (h : ∀ arg ∈ args, ∀ us ts : List Token, arg.Spelled ts →
      List.Forall₂ Token.Resembles us ts → arg.Respelled us)
    {us ts : List Token} (hts : SpelledArgs args ts) (hus : List.Forall₂ Token.Resembles us ts) :
  ∃ args', SpelledArgs args' us ∧ (∀ arg ∈ args', arg.Canonical) ∧ args'.length = args.length
  := by
  induction args generalizing us ts with
  | nil =>
    obtain rfl : ts = [] := hts
    obtain rfl := List.forall₂_nil_right_iff.mp hus
    exact ⟨[], rfl, by simp, rfl⟩
  | cons arg args ih =>
    cases args with
    | nil =>
      obtain ⟨arg', hspelled, hcanonical, -⟩ := h arg List.mem_cons_self us ts hts hus
      exact ⟨[arg'], hspelled, by simpa using hcanonical, rfl⟩
    | cons next args =>
      obtain ⟨ts₁, pos, ts₂, hts₁, hts₂, rfl⟩ := hts
      obtain ⟨us₁, rest, rfl, hus₁, hrest⟩ := exists_append_of_forall₂ hus
      obtain ⟨comma, us₂, hcomma, hus₂, rfl⟩ := List.forall₂_cons_right_iff.mp hrest
      obtain ⟨arg', hspelled, hcanonical, -⟩ := h arg List.mem_cons_self us₁ ts₁ hts₁ hus₁
      obtain ⟨args', hspelled', hcanonical', hlength⟩ :=
        ih (fun arg harg => h arg (List.mem_cons_of_mem _ harg)) hts₂ hus₂
      obtain ⟨next', args', rfl⟩ := List.exists_cons_of_length_eq_add_one hlength
      refine ⟨arg' :: next' :: args', ⟨us₁, comma.pos, us₂, hspelled, hspelled', ?_⟩, ?_, ?_⟩
      · rw [← hcomma.eq_operator]
      · simpa [hcanonical] using hcanonical'
      · rw [List.length_cons, hlength]
        rfl

/-- Tokens that resemble those of a canonical expression spell a canonical expression. -/
theorem Canonical.respelled {e : Expr} (h : e.Canonical) {us ts : List Token} (hts : e.Spelled ts)
    (hus : List.Forall₂ Token.Resembles us ts) :
  e.Respelled us
  := by
  induction h generalizing us ts with
  | ident hname =>
    obtain rfl := hts
    obtain ⟨u, rfl, hu⟩ := exists_singleton_of_forall₂ hus
    obtain ⟨heq, hname'⟩ := hu.eq_ident hname
    exact ⟨.ident u.pos u.text, congrArg ([·]) heq, .ident hname', rfl, .rfl⟩
  | literal hvalue =>
    obtain rfl := hts
    obtain ⟨u, rfl, hu⟩ := exists_singleton_of_forall₂ hus
    obtain ⟨heq, hvalue'⟩ := hu.eq_num hvalue
    exact ⟨.literal u.pos u.text, congrArg ([·]) heq, .literal hvalue', rfl, .rfl⟩
  | paren hbody ih =>
    obtain ⟨ts, hts, rfl⟩ := hts
    obtain ⟨opening, vs, closing, rfl, hopening, hvs, hclosing⟩ := exists_enclosed_of_forall₂ hus
    obtain ⟨body', hspelled, hcanonical, -⟩ := ih hts hvs
    refine ⟨.paren opening.pos body' closing.pos, ⟨vs, hspelled, ?_⟩, .paren hcanonical, rfl, .rfl⟩
    rw [hopening.eq_mark (c := '(') rfl (by simp), hclosing.eq_mark (c := ')') rfl (by simp)]
    rfl
  | index hname hsubscript ih =>
    obtain ⟨_, ts, rfl, hts, rfl⟩ := hts
    obtain ⟨name, rest, hbase, hrest, rfl⟩ := List.forall₂_cons_right_iff.mp hus
    obtain ⟨opening, vs, closing, rfl, hopening, hvs, hclosing⟩ :=
      exists_enclosed_of_forall₂ hrest
    obtain ⟨heq, hname'⟩ := hbase.eq_ident hname
    obtain ⟨subscript', hspelled, hcanonical, -⟩ := ih hts hvs
    refine ⟨.index (.ident name.pos name.text) opening.pos subscript' closing.pos,
      ⟨[name], vs, congrArg ([·]) heq, hspelled, ?_⟩, .index hname' hcanonical, rfl, .rfl⟩
    rw [hopening.eq_mark (c := '[') rfl (by simp), hclosing.eq_mark (c := ']') rfl (by simp)]
    rfl
  | call hname hargs ih =>
    obtain ⟨_, ts, rfl, hts, rfl⟩ := hts
    obtain ⟨name, rest, hcallee, hrest, rfl⟩ := List.forall₂_cons_right_iff.mp hus
    obtain ⟨opening, vs, closing, rfl, hopening, hvs, hclosing⟩ :=
      exists_enclosed_of_forall₂ hrest
    obtain ⟨heq, hname'⟩ := hcallee.eq_ident hname
    obtain ⟨args', hspelled, hcanonical, -⟩ :=
      exists_respelled_args (fun arg harg _ _ => ih arg harg) hts hvs
    refine ⟨.call (.ident name.pos name.text) opening.pos args' closing.pos,
      ⟨[name], vs, congrArg ([·]) heq, hspelled, ?_⟩, .call hname' hcanonical, rfl, .rfl⟩
    rw [hopening.eq_mark (c := '(') rfl (by simp), hclosing.eq_mark (c := ')') rfl (by simp)]
    rfl
  | unary hoperand hlevel ih =>
    next pos sign operand =>
    obtain ⟨ts, hts, rfl⟩ := hts
    obtain ⟨mark, vs, hmark, hvs, rfl⟩ := List.forall₂_cons_right_iff.mp hus
    obtain ⟨operand', hspelled, hcanonical, hlevel', -⟩ := ih hts hvs
    refine ⟨.unary mark.pos sign operand', ⟨vs, hspelled, ?_⟩, .unary hcanonical ?_, rfl, .rfl⟩
    · rw [← hmark.eq_operator]
    · rw [hlevel']
      exact hlevel
  | binary hleft hright hle hlt hsigned ihl ihr =>
    next pos op left right =>
    obtain ⟨ts₁, ts₂, hts₁, hts₂, rfl⟩ := hts
    obtain ⟨us₁, rest, rfl, hus₁, hrest⟩ := exists_append_of_forall₂ hus
    obtain ⟨mark, us₂, hmark, hus₂, rfl⟩ := List.forall₂_cons_right_iff.mp hrest
    obtain ⟨left', hl, hleft', hlevell, hsignedl⟩ := ihl hts₁ hus₁
    obtain ⟨right', hr, hright', hlevelr, hsignedr⟩ := ihr hts₂ hus₂
    have hlt' : op.level < right'.level := hlevelr ▸ hlt
    refine ⟨.binary left' mark.pos op right', ⟨us₁, us₂, hl, hr, ?_⟩, ?_, rfl, ?_⟩
    · rw [← hmark.eq_operator]
    · apply Canonical.binary hleft' hright' (hlevell ▸ hle) hlt'
      rw [hsignedl]
      exact hsigned
    · rw [endsInSigned_binary_iff hlt, endsInSigned_binary_iff hlt', hsignedr]

end Expr

theorem forall₂_resembles {us ts : List Token} (h : us.map Token.shape = ts.map Token.shape)
    (hproper : ∀ u ∈ us, u.IsProper) :
  List.Forall₂ Token.Resembles us ts
  := by
  induction us generalizing ts with
  | nil =>
    obtain rfl := List.map_eq_nil_iff.mp h.symm
    exact .nil
  | cons u us ih =>
    obtain ⟨t, ts, rfl, ht, hts⟩ := List.map_eq_cons_iff.mp h.symm
    apply List.Forall₂.cons
    · exact ⟨ht.symm, fun _ => hproper u List.mem_cons_self⟩
    · apply ih hts.symm
      intro u hu
      apply hproper u (List.mem_cons_of_mem _ hu)

theorem map_kind_of_resembles {us ts : List Token} (h : List.Forall₂ Token.Resembles us ts) :
  us.map Token.kind = ts.map Token.kind
  := by
  induction h with
  | nil => rfl
  | cons hu _ ih => rw [List.map_cons, List.map_cons, hu.kind, ih]

/-- Tokens that resemble those of an equation of a canonical expression are those of such an
equation. -/
theorem exists_isEquation_of_resembles {e : Expr} {us ts : List Token} (hcanonical : e.Canonical)
    (h : IsEquation e ts) (hus : List.Forall₂ Token.Resembles us ts) :
  ∃ e' : Expr, e'.Canonical ∧ IsEquation e' us
  := by
  obtain ⟨body, semis, last, rfl, hspelled, hsemis, hne, hlast⟩ := h
  obtain ⟨body', rest, rfl, hbody, hrest⟩ := exists_append_of_forall₂ hus
  obtain ⟨semis', rest, rfl, hsemis', hrest⟩ := exists_append_of_forall₂ hrest
  obtain ⟨last', rfl, hlast'⟩ := exists_singleton_of_forall₂ hrest
  obtain ⟨e', hspelled', hcanonical', -⟩ := hcanonical.respelled hspelled hbody
  refine ⟨e', hcanonical', body', semis', last', rfl, hspelled', ?_, ?_, ?_⟩
  · intro t ht
    have hkind := List.mem_map_of_mem (f := Token.kind) ht
    rw [map_kind_of_resembles hsemis'] at hkind
    obtain ⟨semi, hsemi, heq⟩ := List.mem_map.mp hkind
    rw [← heq, hsemis semi hsemi]
  · rintro rfl
    apply hne (List.forall₂_nil_left_iff.mp hsemis')
  · rw [hlast'.kind, hlast]

/-- Viable tokens are the first ones of an equation. -/
theorem exists_of_isViable {us : List Token} (h : IsViable us) (hproper : ∀ u ∈ us, u.IsProper) :
  ∃ e more, Expr.Canonical e ∧ IsEquation e (us ++ more)
  := by
  obtain ⟨shapes, e, ts, hcanonical, hts, hshapes⟩ := h
  obtain ⟨vs, more, rfl, hvs, -⟩ := List.map_eq_append_iff.mp hshapes
  have hus : List.Forall₂ Token.Resembles (us ++ more) (vs ++ more) := by
    apply List.rel_append (forall₂_resembles hvs.symm hproper)
    apply List.forall₂_same.mpr
    intro t _
    apply t.resembles_refl
  obtain ⟨e', hcanonical', he'⟩ := exists_isEquation_of_resembles hcanonical hts hus
  exact ⟨e', more, hcanonical', he'⟩

end EquationLang
