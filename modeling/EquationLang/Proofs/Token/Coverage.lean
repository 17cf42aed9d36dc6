import EquationLang.Proofs.Token.Layout
import Mathlib.Data.List.Chain

/-!
# Reading a text loses and invents nothing

`Covers cs ts` says what tokens `ts` that cover the text `cs` have in common with it: the text of
each token stands in its place, the tokens come in order, between them are only blanks and comments,
and an operator is inserted exactly between a closing paren and an opening one that follows at once.
The tokens of every text cover it up to the mark of the end, which stands at the end of the text
unless there is a fault (`tokens_cover_text`).
-/

namespace EquationLang

namespace Token

theorem isInserted_iff {cs : List Char} {t : Token} :
  t.isInserted cs ↔ t.kind = .operator ∧ t.text = "*" ∧ charAt? cs t.pos = some '('
  := by
  simp [isInserted, isOp, and_assoc]

/-- A token whose text stands in its place has not been inserted. -/
theorem isInserted_eq_false_of_slice? {cs : List Char} {t : Token}
    (h : slice? cs t.pos t.stop = some t.text.toList) :
  t.isInserted cs = false
  := by
  apply Bool.eq_false_iff.mpr
  intro hinserted
  obtain ⟨-, htext, hparen⟩ := isInserted_iff.mp hinserted
  have htimes : "*".toList = ['*'] := by decide
  rw [htext, htimes] at h
  rw [charAt?_of_slice? h] at hparen
  cases hparen

/-- The closing paren `t` is followed at once by the opening paren `u`. -/
def Adjoins (t u : Token) : Prop := t.kind = .rparen ∧ u.kind = .lparen ∧ t.stop = u.pos

theorem sourceStart_le_pos (t : Token) :
  t.sourceStart ≤ t.pos
  := by
  rw [sourceStart]
  split
  · exact Nat.sub_le _ _
  · exact Nat.le_refl _

theorem pos_le_sourceStop (cs : List Char) (t : Token) :
  t.pos ≤ t.sourceStop cs
  := by
  have hstop : t.pos ≤ t.stop := Nat.le_add_right _ _
  rw [sourceStop]
  split
  · exact Nat.le_refl _
  · split
    · exact Nat.le_succ_of_le hstop
    · exact hstop

theorem sourceStop_le_stop (cs : List Char) {t : Token} (h : t.kind ≠ .str) :
  t.sourceStop cs ≤ t.stop
  := by
  rw [sourceStop, if_neg h]
  split
  · exact Nat.le_add_right _ _
  · exact Nat.le_refl _

end Token

namespace Laid

variable {cs : List Char} {start : Nat} {ts : List Token}

/-- An operator between a closing paren and an opening one has been inserted. -/
theorem isInserted_of_slice? (hslice : slice? cs start (start + 2) = some [')', '(']) :
  Token.isInserted cs ⟨.operator, start + 1, "*"⟩
  := by
  apply Token.isInserted_iff.mpr
  use rfl, rfl
  apply charAt?_of_slice? (slice?_of_append [')'] hslice).2

theorem sourceStop_written {t : Token} (hkind : t.kind ≠ .str)
    (hslice : slice? cs t.pos t.stop = some t.text.toList) :
  t.sourceStop cs = t.stop
  := by
  rw [Token.sourceStop, Token.isInserted_eq_false_of_slice? hslice]
  simp [hkind]

theorem sourceStop_quoted {stop : Nat} {body : List Char}
    (hslice : slice? cs start stop = some ('"' :: (body ++ ['"']))) :
  Token.sourceStop cs ⟨.str, start + 1, String.ofList body⟩ = stop
  := by
  obtain ⟨_, _, _, _, rfl⟩ := slice?_eq_some_iff.mp hslice
  have hquote : '"'.utf8Size = 1 := by decide
  simp [Token.sourceStop, Token.isInserted, Token.isOp, Token.stop, utf8ByteSize_ofList, hquote]
  omega

/-- Tokens that lie over a text from an offset on begin there or later. -/
theorem le_sourceStart (h : Laid cs start ts) :
  ∀ t ∈ ts, start ≤ t.sourceStart
  := by
  induction h with
  | stop => simp [Token.sourceStart, Token.endOfText]
  | blank _ _ _ ih =>
    intro t ht
    exact Nat.le_of_add_right_le (ih t ht)
  | comment hslice _ _ _ ih =>
    obtain ⟨_, _, _, _, rfl⟩ := slice?_eq_some_iff.mp hslice
    intro t ht
    exact Nat.le_of_add_right_le (ih t ht)
  | written hkind _ _ _ _ ih =>
    intro t ht
    obtain rfl | ht := List.mem_cons.mp ht
    · rw [Token.sourceStart, if_neg hkind.1]
    · exact Nat.le_of_add_right_le (ih t ht)
  | quoted hslice _ _ ih =>
    obtain ⟨_, _, _, _, rfl⟩ := slice?_eq_some_iff.mp hslice
    intro t ht
    obtain rfl | ht := List.mem_cons.mp ht
    · simp [Token.sourceStart]
    · exact Nat.le_of_add_right_le (ih t ht)
  | inserted _ _ ih =>
    intro t ht
    obtain rfl | ht := List.mem_cons.mp ht
    · simp [Token.sourceStart]
    obtain rfl | ht := List.mem_cons.mp ht
    · simp [Token.sourceStart]
    · exact Nat.le_of_succ_le (ih t ht)

/-- The text of a token that has not been inserted stands in its place. -/
theorem slice?_of_mem (h : Laid cs start ts) :
  ∀ t ∈ ts, t.isInserted cs = false → slice? cs t.pos t.stop = some t.text.toList
  := by
  induction h with
  | stop hslice =>
    intro t ht _
    obtain rfl := List.mem_singleton.mp ht
    exact hslice
  | blank _ _ _ ih => exact ih
  | comment _ _ _ _ ih => exact ih
  | written _ hslice _ _ _ ih =>
    intro t ht hinserted
    obtain rfl | ht := List.mem_cons.mp ht
    · exact hslice
    · exact ih t ht hinserted
  | quoted hslice _ _ ih =>
    intro t ht hinserted
    obtain rfl | ht := List.mem_cons.mp ht
    · have hbody := (slice?_of_append _ (slice?_of_append ['"'] hslice).2).1
      rw [Token.stop, String.toList_ofList, utf8ByteSize_ofList]
      exact hbody
    · exact ih t ht hinserted
  | inserted hslice _ ih =>
    intro t ht hinserted
    obtain rfl | ht := List.mem_cons.mp ht
    · have htext : ")".toList = [')'] := by decide
      rw [htext]
      exact (slice?_of_append [')'] hslice).1
    obtain rfl | ht := List.mem_cons.mp ht
    · rw [isInserted_of_slice? hslice] at hinserted
      cases hinserted
    · exact ih t ht hinserted

/-- Before the first token and between two neighbouring ones there is a gap. -/
theorem isGap (h : Laid cs start ts) :
  (∀ t ∈ ts.head?, IsGap cs start t.sourceStart)
    ∧ ts.IsChain fun t u => IsGap cs (t.sourceStop cs) u.sourceStart
  := by
  induction h with
  | stop =>
    constructor
    · intro t ht
      obtain rfl := Option.mem_some.mp ht
      apply IsGap.done
    · apply List.IsChain.singleton
  | blank hc hblank _ ih =>
    constructor
    · intro t ht
      apply IsGap.blank hc hblank (ih.1 t ht)
    · exact ih.2
  | comment hslice hbody hend _ ih =>
    constructor
    · intro t ht
      apply IsGap.comment hslice hbody hend (ih.1 t ht)
    · exact ih.2
  | @written t ts hkind hslice _ _ _ ih =>
    constructor
    · intro u hu
      obtain rfl := Option.mem_some.mp hu
      rw [Token.sourceStart, if_neg hkind.1]
      apply IsGap.done
    · apply List.isChain_cons.mpr
      rw [sourceStop_written hkind.1 hslice]
      exact ih
  | @quoted start stop body ts hslice _ _ ih =>
    constructor
    · intro u hu
      obtain rfl := Option.mem_some.mp hu
      apply IsGap.done
    · apply List.isChain_cons.mpr
      rw [sourceStop_quoted hslice]
      exact ih
  | @inserted start ts hslice _ ih =>
    have hinserted := isInserted_of_slice? hslice
    constructor
    · intro u hu
      obtain rfl := Option.mem_some.mp hu
      apply IsGap.done
    · apply List.IsChain.cons_cons
      · apply IsGap.done
      apply List.IsChain.cons_cons
      · rw [Token.sourceStop, if_pos hinserted]
        apply IsGap.done
      · exact ih.2

/-- The source of a token ends before that of any later token begins. -/
theorem pairwise (h : Laid cs start ts) :
  ts.Pairwise fun t u => t.sourceStop cs ≤ u.sourceStart
  := by
  have htrans : IsTrans Token fun t u => t.sourceStop cs ≤ u.sourceStart := by
    constructor
    intro t u v htu huv
    exact htu.trans ((u.sourceStart_le_pos.trans (u.pos_le_sourceStop cs)).trans huv)
  apply List.IsChain.pairwise
  apply h.isGap.2.imp
  intro t u hgap
  exact hgap.le

/-- Around an inserted operator are a closing paren and the opening one that follows at once. -/
theorem exists_parens_of_isInserted (h : Laid cs start ts) {m : Token} (hm : m ∈ ts)
    (hinserted : m.isInserted cs) :
  ∃ t u, [t, m, u] <:+: ts ∧ t.Adjoins u ∧ m.pos = u.pos ∧ m.pos = t.pos + 1
    ∧ slice? cs t.pos (t.pos + 2) = some [')', '(']
  := by
  induction h with
  | stop =>
    obtain rfl := List.mem_singleton.mp hm
    cases hinserted
  | blank _ _ _ ih => exact ih hm
  | comment _ _ _ _ ih => exact ih hm
  | written _ hslice _ _ _ ih =>
    obtain rfl | hm := List.mem_cons.mp hm
    · rw [Token.isInserted_eq_false_of_slice? hslice] at hinserted
      cases hinserted
    · obtain ⟨t, u, hinfix, hparens⟩ := ih hm
      exact ⟨t, u, List.infix_cons hinfix, hparens⟩
  | quoted _ _ _ ih =>
    obtain rfl | hm := List.mem_cons.mp hm
    · cases hinserted
    · obtain ⟨t, u, hinfix, hparens⟩ := ih hm
      exact ⟨t, u, List.infix_cons hinfix, hparens⟩
  | @inserted start ts hslice _ ih =>
    obtain rfl | hm := List.mem_cons.mp hm
    · cases hinserted
    obtain rfl | hm := List.mem_cons.mp hm
    · exact ⟨_, _, ⟨[], ts, rfl⟩, ⟨rfl, rfl, rfl⟩, rfl, rfl, hslice⟩
    · obtain ⟨t, u, hinfix, hparens⟩ := ih hm
      exact ⟨t, u, List.infix_cons (List.infix_cons hinfix), hparens⟩

/-- An opening paren has its sign in its place, and takes up one byte. -/
theorem charAt?_of_lparen (h : Laid cs start ts) {u : Token} (hu : u ∈ ts) (hproper : u.IsProper)
    (hkind : u.kind = .lparen) :
  charAt? cs u.pos = some '(' ∧ u.sourceStop cs = u.pos + 1
  := by
  have hinserted : u.isInserted cs = false := by simp [Token.isInserted, Token.isOp, hkind]
  have hslice := h.slice?_of_mem u hu hinserted
  have heq := Token.eq_of_isProper (c := '(') hproper hkind rfl (by simp)
  have htext : u.text = "(" := by
    rw [heq]
    rfl
  have hparen : "(".toList = ['('] := by decide
  constructor
  · rw [htext, hparen] at hslice
    apply charAt?_of_slice? hslice
  · have hsize : "(".utf8ByteSize = 1 := by decide
    rw [Token.sourceStop, hinserted, Token.stop, htext, hsize]
    simp [hkind]

/-- Between a closing paren and the opening one that follows at once an operator is inserted. -/
theorem exists_inserted_of_adjoins (h : Laid cs start ts) (hproper : ∀ t ∈ ts, t.IsProper)
    {t u : Token} (ht : t ∈ ts) (hu : u ∈ ts) (hparens : t.Adjoins u) :
  ∃ m : Token, m.isInserted cs ∧ [t, m, u] <:+: ts ∧ m.pos = u.pos
  := by
  obtain ⟨hclosing, hopening, hstop⟩ := hparens
  induction h with
  | stop =>
    obtain rfl := List.mem_singleton.mp ht
    cases hclosing
  | blank _ _ _ ih => exact ih hproper ht hu
  | comment _ _ _ _ ih => exact ih hproper ht hu
  | @written v ts hkind hslice hident hparen more ih =>
    have h : Laid cs v.pos (v :: ts) := .written hkind hslice hident hparen more
    obtain ⟨hchar, hsource⟩ := h.charAt?_of_lparen hu (hproper u hu) hopening
    obtain rfl | ht' := List.mem_cons.mp ht
    · rw [← hstop] at hchar
      exact absurd hchar (hparen hclosing)
    obtain rfl | hu' := List.mem_cons.mp hu
    · have hle := (List.pairwise_cons.mp h.pairwise).1 t ht'
      have := t.sourceStart_le_pos
      have : t.pos ≤ t.stop := Nat.le_add_right _ _
      omega
    · obtain ⟨m, hm, hinfix, hpos⟩ :=
        ih (fun w hw => hproper w (List.mem_cons_of_mem v hw)) ht' hu'
      exact ⟨m, hm, List.infix_cons hinfix, hpos⟩
  | quoted _ _ _ ih =>
    obtain rfl | ht := List.mem_cons.mp ht
    · cases hclosing
    obtain rfl | hu := List.mem_cons.mp hu
    · cases hopening
    obtain ⟨m, hm, hinfix, hpos⟩ := ih (fun w hw => hproper w (List.mem_cons_of_mem _ hw)) ht hu
    exact ⟨m, hm, List.infix_cons hinfix, hpos⟩
  | @inserted start ts hslice more ih =>
    obtain ⟨hnext, hlater⟩ := List.forall_mem_cons.mp (List.forall_mem_cons.mp hproper).2
    have hu' : u ∈ ⟨.lparen, start + 1, "("⟩ :: ts := by
      obtain rfl | hu := List.mem_cons.mp hu
      · cases hopening
      obtain rfl | hu := List.mem_cons.mp hu
      · cases hopening
      · exact hu
    obtain rfl | ht := List.mem_cons.mp ht
    · obtain rfl | hu := List.mem_cons.mp hu'
      · exact ⟨_, isInserted_of_slice? hslice, ⟨[], ts, rfl⟩, rfl⟩
      · -- the opening paren is the only token where it stands
        have hle := (List.pairwise_cons.mp more.pairwise).1 u hu
        have hsource := (more.charAt?_of_lparen List.mem_cons_self (hlater _ List.mem_cons_self)
          rfl).2
        have := u.sourceStart_le_pos
        have hsize : ")".utf8ByteSize = 1 := by decide
        simp only [Token.stop, hsize] at hstop hsource
        omega
    · have ht' : t ∈ ⟨.lparen, start + 1, "("⟩ :: ts := by
        obtain rfl | ht := List.mem_cons.mp ht
        · cases hclosing
        · exact ht
      obtain ⟨m, hm, hinfix, hpos⟩ := ih hlater ht' hu'
      exact ⟨m, hm, List.infix_cons (List.infix_cons hinfix), hpos⟩

/-- A string literal has no quote in its text, and one before and after it. -/
theorem slice?_of_str (h : Laid cs start ts) {t : Token} (ht : t ∈ ts) (hkind : t.kind = .str) :
  '"' ∉ t.text.toList
    ∧ slice? cs t.sourceStart (t.sourceStop cs) = some ('"' :: (t.text.toList ++ ['"']))
  := by
  induction h with
  | stop =>
    obtain rfl := List.mem_singleton.mp ht
    cases hkind
  | blank _ _ _ ih => exact ih ht
  | comment _ _ _ _ ih => exact ih ht
  | written hwritten _ _ _ _ ih =>
    obtain rfl | ht := List.mem_cons.mp ht
    · exact absurd hkind hwritten.1
    · exact ih ht
  | quoted hslice hbody _ ih =>
    obtain rfl | ht := List.mem_cons.mp ht
    · rw [String.toList_ofList, sourceStop_quoted hslice]
      exact ⟨hbody, hslice⟩
    · exact ih ht
  | inserted _ _ ih =>
    obtain rfl | ht := List.mem_cons.mp ht
    · cases hkind
    obtain rfl | ht := List.mem_cons.mp ht
    · cases hkind
    · exact ih ht

/-- A name does not go on after its end. -/
theorem isIdentContinue_after (h : Laid cs start ts) {t : Token} (ht : t ∈ ts)
    (hkind : t.kind = .ident) :
  ∀ c ∈ charAt? cs t.stop, isIdentContinue c = false
  := by
  induction h with
  | stop =>
    obtain rfl := List.mem_singleton.mp ht
    cases hkind
  | blank _ _ _ ih => exact ih ht
  | comment _ _ _ _ ih => exact ih ht
  | written _ _ hident _ _ ih =>
    obtain rfl | ht := List.mem_cons.mp ht
    · exact hident hkind
    · exact ih ht
  | quoted _ _ _ ih =>
    obtain rfl | ht := List.mem_cons.mp ht
    · cases hkind
    · exact ih ht
  | inserted _ _ ih =>
    obtain rfl | ht := List.mem_cons.mp ht
    · cases hkind
    obtain rfl | ht := List.mem_cons.mp ht
    · cases hkind
    · exact ih ht

/-- The byte at `p` lies in a gap that begins at `start` or later and is outside of all tokens. -/
def InGap (cs : List Char) (start : Nat) (ts : List Token) (p : Nat) : Prop :=
  ∃ a b, start ≤ a ∧ a ≤ p ∧ p < b ∧ IsGap cs a b
    ∧ ∀ t ∈ ts, t.sourceStop cs ≤ a ∨ b ≤ t.sourceStart

theorem InGap.mono {next p : Nat} (h : InGap cs next ts p) (hle : start ≤ next) :
  InGap cs start ts p
  := by
  obtain ⟨a, b, ha, hgap⟩ := h
  exact ⟨a, b, hle.trans ha, hgap⟩

theorem InGap.cons {next p : Nat} {t : Token} (h : InGap cs next ts p) (hle : start ≤ next)
    (hstop : t.sourceStop cs ≤ next) :
  InGap cs start (t :: ts) p
  := by
  obtain ⟨a, b, ha, hap, hpb, hgap, houtside⟩ := h
  exact ⟨a, b, hle.trans ha, hap, hpb, hgap,
    List.forall_mem_cons.mpr ⟨.inl (hstop.trans ha), houtside⟩⟩

/-- A byte before the mark of the end is part of a token or lies in a gap. -/
theorem occupied_or_inGap (h : Laid cs start ts) {last p : Nat} (hlast : .endOfText last ∈ ts)
    (hstart : start ≤ p) (hp : p < last) :
  (∃ t ∈ ts, t.sourceStart ≤ p ∧ p < t.sourceStop cs) ∨ InGap cs start ts p
  := by
  induction h with
  | stop =>
    cases List.mem_singleton.mp hlast
    omega
  | @blank start c ts hc hblank more ih =>
    by_cases hnext : p < start + c.utf8Size
    · right
      exact ⟨start, _, Nat.le_refl _, hstart, hnext, .blank hc hblank (.done _),
        fun t ht => .inr (more.le_sourceStart t ht)⟩
    · obtain hoccupied | hgap := ih hlast (Nat.le_of_not_lt hnext)
      · exact .inl hoccupied
      · exact .inr (hgap.mono (Nat.le_add_right _ _))
  | @comment start next body ts hslice hbody hend more ih =>
    by_cases hnext : p < next
    · right
      exact ⟨start, next, Nat.le_refl _, hstart, hnext, .comment hslice hbody hend (.done _),
        fun t ht => .inr (more.le_sourceStart t ht)⟩
    · obtain hoccupied | hgap := ih hlast (Nat.le_of_not_lt hnext)
      · exact .inl hoccupied
      · obtain ⟨_, _, _, _, rfl⟩ := slice?_eq_some_iff.mp hslice
        exact .inr (hgap.mono (Nat.le_add_right _ _))
  | @written t ts hkind hslice _ _ more ih =>
    have hstop := sourceStop_written hkind.1 hslice
    by_cases hnext : p < t.stop
    · left
      exact ⟨t, List.mem_cons_self, t.sourceStart_le_pos.trans hstart,
        Nat.lt_of_lt_of_eq hnext hstop.symm⟩
    · have hlast' : .endOfText last ∈ ts := by
        obtain rfl | hlast := List.mem_cons.mp hlast
        · exact absurd rfl hkind.2
        · exact hlast
      obtain ⟨u, hu, hoccupied⟩ | hgap := ih hlast' (Nat.le_of_not_lt hnext)
      · exact .inl ⟨u, List.mem_cons_of_mem t hu, hoccupied⟩
      · exact .inr (hgap.cons (Nat.le_add_right _ _) (Nat.le_of_eq hstop))
  | @quoted start stop body ts hslice _ more ih =>
    have hstop := sourceStop_quoted hslice
    have hle : start ≤ stop := by
      obtain ⟨_, _, _, _, rfl⟩ := slice?_eq_some_iff.mp hslice
      exact Nat.le_add_right _ _
    by_cases hnext : p < stop
    · left
      exact ⟨_, List.mem_cons_self, hstart, Nat.lt_of_lt_of_eq hnext hstop.symm⟩
    · obtain hlast | hlast := List.mem_cons.mp hlast
      · cases hlast
      obtain ⟨u, hu, hoccupied⟩ | hgap := ih hlast (Nat.le_of_not_lt hnext)
      · exact .inl ⟨u, List.mem_cons_of_mem _ hu, hoccupied⟩
      · exact .inr (hgap.cons hle (Nat.le_of_eq hstop))
  | @inserted start ts hslice more ih =>
    by_cases hnext : p < start + 1
    · left
      exact ⟨_, List.mem_cons_self, hstart, hnext⟩
    · obtain hlast | hlast := List.mem_cons.mp hlast
      · cases hlast
      obtain hlast | hlast := List.mem_cons.mp hlast
      · cases hlast
      obtain ⟨u, hu, hoccupied⟩ | hgap := ih hlast (Nat.le_of_not_lt hnext)
      · exact .inl ⟨u, List.mem_cons_of_mem _ (List.mem_cons_of_mem _ hu), hoccupied⟩
      · have hstop : Token.sourceStop cs ⟨.operator, start + 1, "*"⟩ = start + 1 := by
          rw [Token.sourceStop, if_pos (isInserted_of_slice? hslice)]
        right
        apply (hgap.cons (Nat.le_refl _) (Nat.le_of_eq hstop)).cons (Nat.le_succ _)
        exact Nat.le_refl _

end Laid

/-! ### The mark of the end -/

namespace Cursor

/-- A fault stands before the end of the text. -/
theorem lt_of_fault {k : Cursor} {fault : Nat × Diagnostic.Code × String}
    (h : fault ∈ k.read.2) :
  fault.1 < k.offset + byteLength k.rest
  := by
  fun_induction read k with
  | case1 => cases h
  | case2 k p rest found code message =>
    cases h
    have := byteLength_pos (Piece.source_ne_nil_of_front? found)
    rw [← Piece.source_append_of_front? found, byteLength_append]
    omega
  | case3 k p rest found sound fewer ih =>
    have := ih h
    rw [← Piece.source_append_of_front? found, byteLength_append, ← Nat.add_assoc]
    exact this

/-- Without a fault, the mark of the end stands at the end of the text. -/
theorem endOfText_mem_read {k : Cursor} (h : k.read.2 = none) :
  .endOfText (k.offset + byteLength k.rest) ∈ k.read.1
  := by
  fun_induction read k with
  | case1 k found =>
    rw [Piece.front?_eq_none_iff.mp found]
    simp [closing]
  | case2 => cases h
  | case3 k p rest found sound fewer ih =>
    have := ih h
    rw [← Piece.source_append_of_front? found, byteLength_append, ← Nat.add_assoc]
    apply List.mem_append_right _ this

end Cursor

/-- What tokens that cover a text up to the offset `stop` have in common with it. -/
structure Covers (cs : List Char) (stop : Nat) (ts : List Token) : Prop where
  /-- The text of a token that has not been inserted stands in its place. -/
  text : ∀ t ∈ ts, t.isInserted cs = false → slice? cs t.pos t.stop = some t.text.toList
  /-- The tokens come in order, and no two of them have a byte in common. -/
  order : ts.Pairwise fun t u => t.sourceStop cs ≤ u.sourceStart
  /-- Before the first token are only blanks and comments. -/
  before : ∀ t ∈ ts.head?, IsGap cs 0 t.sourceStart
  /-- Between two neighbouring tokens are only blanks and comments. -/
  between : ts.IsChain fun t u => IsGap cs (t.sourceStop cs) u.sourceStart
  /-- An operator is inserted only between parens of which the second follows the first at once. -/
  inserted : ∀ m ∈ ts, m.isInserted cs →
    ∃ t u, [t, m, u] <:+: ts ∧ t.Adjoins u ∧ m.pos = u.pos ∧ m.pos = t.pos + 1
      ∧ slice? cs t.pos (t.pos + 2) = some [')', '(']
  /-- Between such parens an operator is inserted. -/
  adjoins : ∀ t ∈ ts, ∀ u ∈ ts, t.Adjoins u →
    ∃ m : Token, m.isInserted cs ∧ [t, m, u] <:+: ts ∧ m.pos = u.pos
  /-- A string literal stands between two quotes, and has none in its text. -/
  quotes : ∀ t ∈ ts, t.kind = .str → '"' ∉ t.text.toList
    ∧ slice? cs t.sourceStart (t.sourceStop cs) = some ('"' :: (t.text.toList ++ ['"']))
  /-- A name does not go on after its end. -/
  name : ∀ t ∈ ts, t.kind = .ident → ∀ c ∈ charAt? cs t.stop, isIdentContinue c = false
  /-- Each byte is part of a token, or lies between tokens in a blank or a comment. -/
  complete : ∀ p < stop, (∃ t ∈ ts, t.sourceStart ≤ p ∧ p < t.sourceStop cs)
    ∨ ∃ a b, a ≤ p ∧ p < b ∧ IsGap cs a b ∧ ∀ t ∈ ts, t.sourceStop cs ≤ a ∨ b ≤ t.sourceStart

/-- Tokens that lie over a text cover it up to the mark of the end. -/
theorem Laid.covers {cs : List Char} {ts : List Token} {stop : Nat} (h : Laid cs 0 ts)
    (hproper : ∀ t ∈ ts, t.IsProper) (hstop : .endOfText stop ∈ ts) :
  Covers cs stop ts
  := by
  constructor
  case text => exact h.slice?_of_mem
  case order => exact h.pairwise
  case before => exact h.isGap.1
  case between => exact h.isGap.2
  case inserted =>
    intro m hm hinserted
    exact h.exists_parens_of_isInserted hm hinserted
  case adjoins =>
    intro t ht u hu hparens
    exact h.exists_inserted_of_adjoins hproper ht hu hparens
  case quotes =>
    intro t ht hkind
    exact h.slice?_of_str ht hkind
  case name =>
    intro t ht hkind
    exact h.isIdentContinue_after ht hkind
  case complete =>
    intro p hp
    obtain hoccupied | ⟨a, b, -, hgap⟩ := h.occupied_or_inGap hstop (Nat.zero_le p) hp
    · exact .inl hoccupied
    · exact .inr ⟨a, b, hgap⟩

/-- The tokens of a text cover it up to the mark of the end. -/
theorem exists_covers (cs : List Char) :
  ∃ body stop, (Cursor.start cs).read.1 = body ++ [.endOfText stop]
    ∧ (∀ t ∈ body, t.IsProper ∧ t.kind ≠ .eof)
    ∧ Covers cs stop (body ++ [.endOfText stop])
    ∧ ((Cursor.start cs).read.2 = none ↔ stop = byteLength cs)
  := by
  obtain ⟨body, stop, hread, hbody, hfault⟩ := (Cursor.start cs).exists_end
  have hlaid := Cursor.laid_read (Cursor.start_isIn cs)
  rw [hread] at hlaid
  refine ⟨body, stop, hread, hbody, hlaid.covers (proper_of_append_endOfText hbody) (by simp),
    ?_⟩
  constructor
  · intro hnone
    have hend := Cursor.endOfText_mem_read hnone
    rw [hread, Cursor.start, Nat.zero_add] at hend
    obtain hend | hend := List.mem_append.mp hend
    · exact absurd rfl (hbody _ hend).2
    · cases List.mem_singleton.mp hend
      rfl
  · rintro rfl
    by_contra hsome
    obtain ⟨fault, hread'⟩ := Option.ne_none_iff_exists'.mp hsome
    have hlt := Cursor.lt_of_fault hread'
    rw [hfault fault hread', Cursor.start, Nat.zero_add] at hlt
    exact absurd hlt (Nat.lt_irrefl _)

theorem Lexer.hasErrors_drain (text : String) :
  (Lexer.ofText text).drain.2.hasErrors = false ↔ (Cursor.start text.toList).read.2 = none
  := by
  rw [← (Lexer.reports_drain text).toList_eq_nil_iff, Bool.eq_false_iff, ne_eq, hasErrors_iff,
    not_not]

/-- The tokens that are read off a text cover it up to the mark of the end, which is the last one
and stands at the end of the text unless a fault is reported. -/
theorem tokens_cover_text (text : String) :
  ∃ body stop, (Lexer.ofText text).drain.1 = body ++ [.endOfText stop]
    ∧ (∀ t ∈ body, t.kind ≠ .eof)
    ∧ Covers text.toList stop (body ++ [.endOfText stop])
    ∧ ((Lexer.ofText text).drain.2.hasErrors = false ↔ stop = text.utf8ByteSize)
  := by
  obtain ⟨body, stop, hread, hbody, hcovers, hend⟩ := exists_covers text.toList
  use body, stop
  refine ⟨?_, fun t ht => (hbody t ht).2, hcovers, ?_⟩
  · rw [Lexer.drain_eq_read]
    exact hread
  · rw [Lexer.hasErrors_drain, hend, ← utf8ByteSize_eq_byteLength]

end EquationLang
