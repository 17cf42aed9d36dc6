import EquationLang.Proofs.Token.Reading

/-!
# Stretches of a text

`Cursor.Reads k ts k'` says that the pieces from the place `k` to the place `k'` are no faults and
have the tokens `ts`.  A stretch of a text that begins and ends with a token
(`Cursor.exists_before`, `Cursor.exists_through`) is read in the same way wherever it stands, and
also when the text ends after it.  More generally, it is read in the same way before any text that
may be in the place of what follows (`Cursor.Reads.exists_replaced`).
-/

namespace EquationLang

namespace Token

/-- If the token is written as it is, its text is one that tokens of its kind have. -/
def IsProper (t : Token) : Prop :=
  match t.kind with
  | .eof | .semi | .str => True
  | kind => IsLexeme kind t.text.toList

/-- The token `d` bytes further on. -/
def shift (d : Nat) (t : Token) : Token := { t with pos := t.pos + d }

/-- A token that opens or closes something is written in the one way its kind has. -/
theorem eq_of_isProper {t : Token} (h : t.IsProper) {kind : Token.Kind} {c : Char}
    (ht : t.kind = kind) (hc : punctuation? c = some kind) (hkind : kind ≠ .operator) :
  t = ⟨kind, t.pos, String.singleton c⟩
  := by
  rw [IsProper, ht] at h
  obtain ⟨d, htext, hd⟩ : ∃ d, t.text.toList = [d] ∧ punctuation? d = some kind := by
    have hmark := hc
    rw [punctuation?.eq_def] at hmark
    split at hmark <;> cases hmark <;> exact h
  rw [punctuation?_injective hc hd hkind, String.singleton_eq_ofList, ← htext, String.ofList_toList,
    ← ht]

end Token

namespace Piece

/-- The tokens of a piece depend on what follows only through whether it is an opening paren. -/
theorem tokens_congr {p : Piece} {rest rest' : List Char}
    (h : rest.head? = some '(' ↔ rest'.head? = some '(') (offset : Nat) (canEnd : Bool) :
  p.tokens offset canEnd rest = p.tokens offset canEnd rest'
  := by
  cases p <;> simp only [tokens, h]

/-- Every piece stops before the end of the text. -/
theorem stopsBefore_none (p : Piece) :
  p.StopsBefore none
  := by
  cases p with
  | lexeme kind text => cases kind <;> simp [StopsBefore]
  | blank | comment | quoted | unrecognized | unclosed => simp [StopsBefore]

/-- Where a text goes on with `next`, it may go on with `next'`: the pieces that are no faults and
stop before the one stop before the other, and none or both of them are opening parens. -/
structure Replaces (next next' : Option Char) : Prop where
  stops : ∀ p : Piece, p.fault? = none → p.StopsBefore next → p.StopsBefore next'
  paren : next' = some '(' ↔ next = some '('

theorem replaces_refl (next : Option Char) :
  Replaces next next
  := ⟨fun _ _ hstop => hstop, Iff.rfl⟩

/-- A text may end before a character that is no opening paren. -/
theorem replaces_none {next : Option Char} (h : next ≠ some '(') :
  Replaces next none
  := ⟨fun p _ _ => p.stopsBefore_none, by simp [h]⟩

theorem tokens_shift (p : Piece) (offset d : Nat) (canEnd : Bool) (rest : List Char) :
  p.tokens (offset + d) canEnd rest = (p.tokens offset canEnd rest).map (Token.shift d)
  := by
  cases p with
  | blank c =>
    simp only [tokens]
    split <;> rfl
  | lexeme kind text =>
    simp only [tokens, List.map_cons]
    split
    · rw [Nat.add_right_comm]
      rfl
    · rfl
  | quoted body =>
    simp only [tokens, Nat.add_right_comm offset d 1]
    rfl
  | comment | unrecognized | unclosed => rfl

theorem isProper_of_mem_tokens {p : Piece} (h : p.WellFormed) {offset : Nat} {canEnd : Bool}
    {rest : List Char} {t : Token} (ht : t ∈ p.tokens offset canEnd rest) :
  t.IsProper ∧ t.kind ≠ .eof
  := by
  cases p with
  | blank c =>
    simp only [tokens] at ht
    split at ht
    · obtain rfl := List.mem_singleton.mp ht
      exact ⟨trivial, by simp⟩
    · cases ht
  | lexeme kind text =>
    obtain rfl | ht := List.mem_cons.mp ht
    · constructor
      · simp only [Token.IsProper, String.toList_ofList]
        split <;> trivial
      · rintro rfl
        cases h
    · split at ht
      · obtain rfl := List.mem_singleton.mp ht
        have htext : "*".toList = ['*'] := by decide
        exact ⟨⟨'*', htext, rfl⟩, by simp⟩
      · cases ht
  | quoted body =>
    obtain rfl := List.mem_singleton.mp ht
    exact ⟨trivial, by simp⟩
  | comment | unrecognized | unclosed => cases ht

/-- A piece has at most one token for each of its characters, and one more for a closing paren. -/
theorem length_tokens_le {p : Piece} (h : p.WellFormed) (offset : Nat) (canEnd : Bool)
    (rest : List Char) :
  (p.tokens offset canEnd rest).length ≤ p.source.length + p.source.count ')'
  := by
  cases p with
  | blank c =>
    rw [tokens]
    split <;> simp [source]
  | lexeme kind text =>
    rw [tokens, source]
    split
    · next hparen =>
      obtain ⟨rfl, -⟩ := hparen
      obtain ⟨c, rfl, hc⟩ := h
      obtain rfl : ')' = c := (punctuation?_injective hc (d := ')') rfl (by simp)).symm
      simp
    · have hpos := List.length_pos_iff.mpr (IsLexeme.ne_nil h)
      simp only [List.length_singleton]
      omega
  | quoted body =>
    simp only [tokens, source, List.length_append, List.length_cons]
    omega
  | comment | unrecognized | unclosed => simp [tokens]

/-- A token that is written as it is and is no inserted operator is the first token of its piece. -/
theorem tokens_eq_append_cons {p : Piece} {offset : Nat} {canEnd : Bool} {rest : List Char}
    {before behind : List Token} {t : Token}
    (h : p.tokens offset canEnd rest = before ++ t :: behind)
    (hkind : t.kind ≠ .semi ∧ t.kind ≠ .str) (hop : t.isOp "*" = false) :
  before = [] ∧ p = lexeme t.kind t.text.toList ∧ t.pos = offset
  := by
  have hmem : t ∈ p.tokens offset canEnd rest := by simp [h]
  cases p with
  | blank c =>
    simp only [tokens] at hmem
    split at hmem
    · obtain rfl := List.mem_singleton.mp hmem
      exact absurd rfl hkind.1
    · cases hmem
  | lexeme kind text =>
    obtain ⟨rfl, hcons⟩ | ⟨before, rfl, hcons⟩ := List.cons_eq_append_iff.mp h
    · obtain ⟨rfl, -⟩ := List.cons.inj hcons
      exact ⟨rfl, by rw [String.toList_ofList], rfl⟩
    · -- only the inserted operator comes after the first token
      have hsecond : t ∈ before ++ t :: behind := by simp
      rw [← hcons] at hsecond
      split at hsecond
      · obtain rfl := List.mem_singleton.mp hsecond
        cases hop
      · cases hsecond
  | quoted body =>
    obtain rfl := List.mem_singleton.mp hmem
    exact absurd rfl hkind.2
  | comment | unrecognized | unclosed => cases hmem

/-- Characters that no token goes on with, and that do not make one of their own before a token. -/
def closers : List Char := [terminator, ' ', ',', ')', ']']

/-- Before a character that no token goes on with, a token that is written as it is stops. -/
theorem stopsBefore_of_class (kind : Token.Kind) (text : List Char) {next : Option Char}
    (h : ∀ c ∈ next, isNumberPart c = false ∧ isIdentContinue c = false ∧ c ≠ '/') :
  (lexeme kind text).StopsBefore next
  := by
  cases kind with
  | num =>
    intro c hc hnumber
    have hpart := hnumber.isNumberPart (c := c) (by simp)
    rw [(h c hc).1] at hpart
    cases hpart
  | ident =>
    intro c hc
    apply Bool.eq_false_iff.mp (h c hc).2.1
  | operator =>
    intro _ heq
    apply (h '/' heq).2.2 rfl
  | eof | str | semi | lbrace | rbrace | lparen | rparen | lbracket | rbracket => trivial

/-- Before a closer, a token that is written as it is stops. -/
theorem stopsBefore_of_mem_closers (kind : Token.Kind) (text : List Char) {c : Char}
    (hc : c ∈ closers) :
  (lexeme kind text).StopsBefore (some c)
  := by
  apply stopsBefore_of_class
  intro d hd
  obtain rfl := Option.mem_some.mp hd
  simp only [closers, List.mem_cons, List.not_mem_nil, or_false] at hc
  obtain rfl | rfl | rfl | rfl | rfl := hc <;> decide

end Piece

namespace Cursor

/-- The pieces from the first place to the second are no faults, and their tokens are `ts`. -/
inductive Reads : Cursor → List Token → Cursor → Prop where
  | done (k : Cursor) : Reads k [] k
  | step {k k' : Cursor} {p : Piece} {rest : List Char} {ts : List Token}
      (found : Piece.front? k.rest = some (p, rest)) (sound : p.fault? = none)
      (more : Reads (k.after p rest) ts k') :
    Reads k (p.tokens k.offset k.canEnd rest ++ ts) k'

theorem Reads.trans {k k' k'' : Cursor} {ts us : List Token} (h : Reads k ts k')
    (h' : Reads k' us k'') :
  Reads k (ts ++ us) k''
  := by
  induction h with
  | done => exact h'
  | step found sound more ih =>
    rw [List.append_assoc]
    apply Reads.step found sound (ih h')

/-- The tokens of a text are those of a stretch of it and those that come after. -/
theorem Reads.read_eq {k k' : Cursor} {ts : List Token} (h : Reads k ts k') :
  k.read = (ts ++ k'.read.1, k'.read.2)
  := by
  induction h with
  | done => rfl
  | step found sound more ih => rw [read_of_piece found sound, ih, List.append_assoc]

/-- What lies between two places is a part of the text, and it is read in the same way before any
text that may be in the place of what follows. -/
theorem Reads.exists_replaced {k k' : Cursor} {ts : List Token} (h : Reads k ts k') :
  ∃ part, k.rest = part ++ k'.rest ∧ k'.offset = k.offset + byteLength part
    ∧ ∀ rest, Piece.Replaces k'.rest.head? rest.head? →
      Reads ⟨k.offset, k.canEnd, part ++ rest⟩ ts ⟨k'.offset, k'.canEnd, rest⟩
  := by
  induction h with
  | done k => exact ⟨[], rfl, rfl, fun _ _ => .done _⟩
  | step found sound more ih =>
    next k k' p rest ts =>
    obtain ⟨part, hrest, hoffset, hreads⟩ := ih
    obtain ⟨hsource, hshape, hstop⟩ := Piece.front?_eq_some_iff.mp found
    use p.source ++ part
    refine ⟨?_, ?_, ?_⟩
    · rw [hsource, List.append_assoc]
      apply congrArg (p.source ++ ·) hrest
    · rw [hoffset, byteLength_append, ← Nat.add_assoc]
      rfl
    · intro rest' hreplaces
      -- a piece that is not the last one is followed by a character of the part
      have hreplaces' : Piece.Replaces rest.head? (part ++ rest').head? := by
        rw [show rest = part ++ k'.rest from hrest]
        cases part with
        | nil => exact hreplaces
        | cons c part => apply Piece.replaces_refl
      rw [← Piece.tokens_congr hreplaces'.paren, List.append_assoc]
      have found' : Piece.front? (p.source ++ (part ++ rest')) = some (p, part ++ rest') :=
        Piece.front?_eq_some_iff.mpr ⟨rfl, hshape, hreplaces'.stops p sound hstop⟩
      apply Reads.step (k := ⟨k.offset, k.canEnd, _⟩) found' sound (hreads rest' hreplaces)

/-- What lies between two places is a part of the text, and it is read in the same way before any
text with the same first character. -/
theorem Reads.exists_part {k k' : Cursor} {ts : List Token} (h : Reads k ts k') :
  ∃ part, k.rest = part ++ k'.rest ∧ k'.offset = k.offset + byteLength part
    ∧ ∀ rest, rest.head? = k'.rest.head? →
      Reads ⟨k.offset, k.canEnd, part ++ rest⟩ ts ⟨k'.offset, k'.canEnd, rest⟩
  := by
  obtain ⟨part, hrest, hoffset, hreads⟩ := h.exists_replaced
  refine ⟨part, hrest, hoffset, ?_⟩
  intro rest hhead
  apply hreads rest
  rw [hhead]
  apply Piece.replaces_refl

/-- A token that is written as it is, is read where it stops. -/
theorem reads_lexeme {kind : Token.Kind} {text : List Char} (h : IsLexeme kind text)
    (rest : List Char) (hstop : (Piece.lexeme kind text).StopsBefore rest.head?)
    (hparen : kind = .rparen → rest.head? ≠ some '(') (offset : Nat) (canEnd : Bool) :
  Reads ⟨offset, canEnd, text ++ rest⟩ [⟨kind, offset, String.ofList text⟩]
    ⟨offset + byteLength text, kind.canEndStatement, rest⟩
  := by
  have found : Piece.front? (text ++ rest) = some (.lexeme kind text, rest) :=
    Piece.front?_eq_some_iff.mpr ⟨rfl, h, hstop⟩
  have hreads := Reads.step (k := ⟨offset, canEnd, _⟩) found rfl (.done _)
  rw [Piece.tokens, if_neg (fun h => hparen h.1 h.2)] at hreads
  exact hreads

/-- A stretch that begins `d` bytes further on has the same tokens, `d` bytes further on. -/
theorem Reads.of_shift {k k' : Cursor} {ts : List Token} (h : Reads k ts k') {o d : Nat}
    (hk : k.offset = o + d) :
  ∃ us o', Reads ⟨o, k.canEnd, k.rest⟩ us ⟨o', k'.canEnd, k'.rest⟩ ∧ ts = us.map (Token.shift d)
    ∧ k'.offset = o' + d
  := by
  induction h generalizing o with
  | done k => exact ⟨[], o, .done _, rfl, hk⟩
  | step found sound more ih =>
    next k k' p rest ts =>
    obtain ⟨us, o', hreads, rfl, hk'⟩ := ih (o := o + byteLength p.source) (by
      rw [after, hk, Nat.add_right_comm])
    use p.tokens o k.canEnd rest ++ us, o'
    refine ⟨Reads.step found sound hreads, ?_, hk'⟩
    rw [hk, Piece.tokens_shift, List.map_append]

/-! ### Reading further on -/

/-- The place `d` bytes further on, before the same text. -/
def shift (d : Nat) (k : Cursor) : Cursor := { k with offset := k.offset + d }

theorem after_shift (d : Nat) (k : Cursor) (p : Piece) (rest : List Char) :
  (k.shift d).after p rest = (k.after p rest).shift d
  := congrArg (Cursor.mk · _ _) (Nat.add_right_comm _ _ _)

theorem closing_shift (d : Nat) (k : Cursor) :
  (k.shift d).closing = k.closing.map (Token.shift d)
  := by
  rw [closing, closing, List.map_append]
  apply congrArg₂ _ _ rfl
  change (if k.canEnd then _ else _) = _
  split <;> rfl

/-- A text that begins `d` bytes further on has the same tokens and the same fault, `d` bytes
further on. -/
theorem read_shift (d : Nat) (k : Cursor) :
  (k.shift d).read = (k.read.1.map (Token.shift d), k.read.2.map (Prod.map (· + d) id))
  := by
  fun_induction read k with
  | case1 k found =>
    have hnil : k.rest = [] := Piece.front?_eq_none_iff.mp found
    rw [read_of_nil (k := k.shift d) hnil, closing_shift]
    rfl
  | case2 k p rest found code message fault => rw [read_of_fault (k := k.shift d) found fault]; rfl
  | case3 k p rest found sound fewer ih =>
    rw [read_of_piece (k := k.shift d) found sound, after_shift, ih, List.map_append]
    apply congrArg (Prod.mk · _)
    apply congrArg (· ++ _)
    apply Piece.tokens_shift

/-! ### All tokens -/

theorem kind_of_mem_closing {k : Cursor} {t : Token} (h : t ∈ k.closing) :
  t.kind = .semi ∨ t.kind = .eof
  := by
  obtain h | h := List.mem_append.mp h
  · left
    split at h
    · rw [List.mem_singleton.mp h]
    · cases h
  · right
    rw [List.mem_singleton.mp h]
    rfl

theorem wellFormed_of_found {k : Cursor} {p : Piece} {rest : List Char}
    (found : Piece.front? k.rest = some (p, rest)) :
  p.WellFormed
  := (Piece.wellFormed_of_front? found).1

/-- The tokens of a text are proper tokens and one that marks the end, which stands where the fault
is if there is one. -/
theorem exists_end (k : Cursor) :
  ∃ ts offset, k.read.1 = ts ++ [.endOfText offset] ∧ (∀ t ∈ ts, t.IsProper ∧ t.kind ≠ .eof)
    ∧ ∀ fault ∈ k.read.2, fault.1 = offset
  := by
  fun_induction read k with
  | case1 k found =>
    use if k.canEnd then [⟨.semi, k.offset, ""⟩] else [], k.offset, rfl
    constructor
    · intro t ht
      split at ht
      · obtain rfl := List.mem_singleton.mp ht
        exact ⟨trivial, by simp⟩
      · cases ht
    · simp
  | case2 k p rest found code message fault =>
    use [], k.offset, rfl
    simp
  | case3 k p rest found sound fewer ih =>
    obtain ⟨ts, offset, hts, hproper, hfault⟩ := ih
    use p.tokens k.offset k.canEnd rest ++ ts, offset
    refine ⟨by rw [hts, List.append_assoc], ?_, hfault⟩
    intro t ht
    obtain ht | ht := List.mem_append.mp ht
    · apply Piece.isProper_of_mem_tokens (wellFormed_of_found found) ht
    · apply hproper t ht

/-- A text has at most one token for each of its characters and one more for each closing paren,
besides a terminator that is inserted at its end and the mark of the end. -/
theorem length_read_le (k : Cursor) :
  k.read.1.length ≤ k.rest.length + k.rest.count ')' + 2
  := by
  fun_induction read k with
  | case1 k found =>
    rw [closing]
    split <;> simp
  | case2 k p rest found code message fault => simp
  | case3 k p rest found sound fewer ih =>
    have hpiece := Piece.length_tokens_le (wellFormed_of_found found) k.offset k.canEnd rest
    have ih : (k.after p rest).read.1.length ≤ rest.length + rest.count ')' + 2 := ih
    rw [← Piece.source_append_of_front? found, List.length_append, List.length_append,
      List.count_append]
    omega

/-! ### Stretches that begin or end with a token -/

/-- Before a token that is written as it is, it does not matter whether a line break ends a
statement. -/
theorem read_eq_of_lexeme {offset : Nat} {cs rest : List Char} {kind : Token.Kind}
    {text : List Char} (found : Piece.front? cs = some (.lexeme kind text, rest))
    (canEnd canEnd' : Bool) :
  (⟨offset, canEnd, cs⟩ : Cursor).read = (⟨offset, canEnd', cs⟩ : Cursor).read
  := by
  rw [read_of_piece (k := ⟨offset, canEnd, cs⟩) found rfl,
    read_of_piece (k := ⟨offset, canEnd', cs⟩) found rfl]
  rfl

/-- Each token belongs to a piece, or it comes at the end of what can be read. -/
theorem exists_split {k : Cursor} {before behind : List Token} {t : Token}
    (h : k.read.1 = before ++ t :: behind) :
  ∃ us part k', k.Reads us k' ∧ before = us ++ part
    ∧ ((∃ p rest behind', Piece.front? k'.rest = some (p, rest)
          ∧ p.tokens k'.offset k'.canEnd rest = part ++ t :: behind')
      ∨ (k'.rest = [] ∧ k'.closing = part ++ t :: behind)
      ∨ t = .endOfText k'.offset)
  := by
  fun_induction read k generalizing before with
  | case1 k found =>
    exact ⟨[], before, k, .done k, rfl, .inr (.inl ⟨Piece.front?_eq_none_iff.mp found, h⟩)⟩
  | case2 k p rest found code message fault =>
    have h : [Token.endOfText k.offset] = before ++ t :: behind := h
    have ht : t ∈ [Token.endOfText k.offset] := h ▸ List.mem_append_right before List.mem_cons_self
    exact ⟨[], before, k, .done k, rfl, .inr (.inr (List.mem_singleton.mp ht))⟩
  | case3 k p rest found sound fewer ih =>
    obtain ⟨before', rfl, hread⟩ | ⟨part, htokens, hcons⟩ := List.append_eq_append_iff.mp h
    · obtain ⟨us, part, k', hreads, rfl, hplace⟩ := ih hread
      exact ⟨_, part, k', .step found sound hreads, (List.append_assoc ..).symm, hplace⟩
    · cases part with
      | nil =>
        have hread : (k.after p rest).read.1 = [] ++ t :: behind := hcons.symm
        obtain ⟨us, part, k', hreads, hnil, hplace⟩ := ih hread
        rw [List.append_nil] at htokens
        refine ⟨_, part, k', .step found sound hreads, ?_, hplace⟩
        rw [List.append_assoc, ← hnil, htokens, List.append_nil]
      | cons u part =>
        obtain ⟨rfl, -⟩ := List.cons.inj hcons
        exact ⟨[], before, k, .done k, rfl, .inl ⟨p, rest, part, found, htokens⟩⟩

/-- Where a token is written as it is, the tokens before it are those of the stretch that ends
there. -/
theorem exists_before {k : Cursor} {before behind : List Token} {t : Token}
    (h : k.read.1 = before ++ t :: behind)
    (hkind : t.kind ≠ .semi ∧ t.kind ≠ .str ∧ t.kind ≠ .eof) (hop : t.isOp "*" = false) :
  ∃ k' rest, k.Reads before k'
    ∧ Piece.front? k'.rest = some (.lexeme t.kind t.text.toList, rest) ∧ t.pos = k'.offset
  := by
  obtain ⟨us, part, k', hreads, rfl, hplace⟩ := exists_split h
  obtain ⟨p, rest, behind', found, htokens⟩ | ⟨-, hclosing⟩ | rfl := hplace
  · obtain ⟨rfl, rfl, hpos⟩ := Piece.tokens_eq_append_cons htokens ⟨hkind.1, hkind.2.1⟩ hop
    rw [List.append_nil]
    exact ⟨k', rest, hreads, found, hpos⟩
  · have ht : t ∈ k'.closing := hclosing ▸ List.mem_append_right part List.mem_cons_self
    obtain ht | ht := kind_of_mem_closing ht
    · exact absurd ht hkind.1
    · exact absurd ht hkind.2.2
  · exact absurd rfl hkind.2.2

/-- Where a token is written as it is and can end a statement, the tokens up to it are those of the
stretch that ends with it, also in a text that begins like this and goes on with a terminator. -/
theorem exists_through {k : Cursor} {before behind : List Token} {t : Token}
    (h : k.read.1 = before ++ t :: behind) (hkind : t.kind ≠ .str) (hend : t.kind.canEndStatement) :
  ∃ part rest, k.rest = part ++ (t.text.toList ++ rest) ∧ t.pos = k.offset + byteLength part
    ∧ IsLexeme t.kind t.text.toList
    ∧ ∀ rest', rest'.head? = some terminator →
      Reads ⟨k.offset, k.canEnd, part ++ (t.text.toList ++ rest')⟩ (before ++ [t])
        ⟨t.stop, true, rest'⟩
  := by
  obtain ⟨hsemi, heof, hoperator⟩ : t.kind ≠ .semi ∧ t.kind ≠ .eof ∧ t.kind ≠ .operator := by
    refine ⟨?_, ?_, ?_⟩ <;>
    · intro hkind
      rw [hkind] at hend
      cases hend
  have hop : t.isOp "*" = false := by simp [Token.isOp, hoperator]
  obtain ⟨k', rest, hreads, found, hpos⟩ := exists_before h ⟨hsemi, hkind, heof⟩ hop
  obtain ⟨part, hrest, hoffset, hagain⟩ := hreads.exists_part
  obtain ⟨hsource, hshape, hstop⟩ := Piece.front?_eq_some_iff.mp found
  have hne : t.text.toList ≠ [] := Piece.source_ne_nil_of_front? found
  use part, rest
  refine ⟨hsource ▸ hrest, by rw [hpos, hoffset], hshape, ?_⟩
  intro rest' hhead
  have hhead' : (t.text.toList ++ rest').head? = k'.rest.head? := by
    rw [hsource, List.head?_append, Piece.source, List.head?_append]
    cases hcs : t.text.toList with
    | nil => exact absurd hcs hne
    | cons => rfl
  have hcloser : terminator ∈ Piece.closers := List.mem_cons_self
  have hlast := reads_lexeme hshape rest'
    (hhead ▸ Piece.stopsBefore_of_mem_closers t.kind t.text.toList hcloser)
    (by simp [hhead, terminator])
    k'.offset k'.canEnd
  rw [hend, String.ofList_toList, ← utf8ByteSize_eq_byteLength, ← hpos] at hlast
  apply (hagain _ hhead').trans
  rw [← hpos]
  exact hlast

end Cursor

/-- The mark of the end is proper. -/
theorem proper_of_append_endOfText {body : List Token} {offset : Nat}
    (h : ∀ t ∈ body, t.IsProper ∧ t.kind ≠ .eof) :
  ∀ t ∈ body ++ [.endOfText offset], t.IsProper
  := by
  intro t ht
  obtain ht | ht := List.mem_append.mp ht
  · apply (h t ht).1
  · obtain rfl := List.mem_singleton.mp ht
    trivial

end EquationLang
