import EquationLang.Proofs.Token.Extent
import EquationLang.Proofs.Token.Terminated

/-!
# Where statements end

A terminator is read where it is written, and inserted at the end of a line or of the text, provided
that the last token before can end a statement (`TerminatorRule`); which tokens can do that is told
by their kinds (`Token.Kind.canEndStatement_iff`).  The lexer does not look back at that token:
whether a statement can end is kept up to date from piece to piece, and the operator inserted
between two parens does not change it.  That it nevertheless tells the last token wherever it
matters is `Cursor.Reads.canEnd_eq`.
-/

namespace EquationLang

namespace Token

/-- Whether a statement can end after the tokens `ts`, where `before` says so for the place before
them. -/
def canEndAfter (before : Bool) (ts : List Token) : Bool :=
  (ts.getLast?.map (·.kind.canEndStatement)).getD before

theorem canEndAfter_append (before : Bool) (ts us : List Token) :
  canEndAfter before (ts ++ us) = canEndAfter (canEndAfter before ts) us
  := by
  rw [canEndAfter, canEndAfter, List.getLast?_append]
  cases us.getLast? <;> rfl

theorem canEndAfter_of_ne_nil {ts : List Token} (h : ts ≠ []) (before before' : Bool) :
  canEndAfter before ts = canEndAfter before' ts
  := by
  rw [canEndAfter, canEndAfter, List.getLast?_eq_some_getLast h]
  rfl

end Token

/-! ### One piece -/

namespace Piece

/-- Whether a statement can end after a piece is told by its last token, but where an operator has
been inserted. -/
theorem canEnd_eq {p : Piece} (sound : p.fault? = none) (offset : Nat) (before : Bool)
    {rest : List Char} (hparen : rest.head? ≠ some '(') :
  p.canEnd before = Token.canEndAfter before (p.tokens offset before rest)
  := by
  cases p with
  | blank c =>
    rw [canEnd, tokens]
    split
    · next hbreak =>
      obtain ⟨rfl, -⟩ := hbreak
      simp [Token.canEndAfter, Token.Kind.canEndStatement]
    · next hbreak =>
      cases before
      · rfl
      · have hc : c ≠ '\n' := by simpa using hbreak
        simp [Token.canEndAfter, hc]
  | lexeme kind text =>
    rw [tokens, if_neg (fun h => hparen h.2)]
    rfl
  | comment | quoted => rfl
  | unrecognized | unclosed => cases sound

/-- A piece with a terminator in it is this terminator, a comment or quoted. -/
theorem eq_of_terminator_mem {p : Piece} (h : p.WellFormed) (sound : p.fault? = none)
    (hc : terminator ∈ p.source) :
  p = lexeme .semi [terminator] ∨ (∃ body, p = comment body) ∨ ∃ body, p = quoted body
  := by
  cases p with
  | blank c =>
    obtain rfl := List.mem_singleton.mp hc
    cases h
  | comment body => exact .inr (.inl ⟨body, rfl⟩)
  | lexeme kind text =>
    obtain rfl := (IsLexeme.class_of_mem h hc).2 rfl
    obtain rfl : text = [terminator] := h
    exact .inl rfl
  | quoted body => exact .inr (.inr ⟨body, rfl⟩)
  | unrecognized | unclosed => cases sound

/-- A piece with a line break in it is this line break or quoted. -/
theorem eq_of_lineBreak_mem {p : Piece} (h : p.WellFormed) (sound : p.fault? = none)
    (hc : '\n' ∈ p.source) :
  p = blank '\n' ∨ ∃ body, p = quoted body
  := by
  cases p with
  | blank c =>
    obtain rfl := List.mem_singleton.mp hc
    exact .inl rfl
  | comment body =>
    simp only [source, List.mem_cons] at hc
    obtain hc | hc | hc := hc
    · cases hc
    · cases hc
    · exact absurd hc h
  | lexeme kind text =>
    have hblank := (IsLexeme.class_of_mem h hc).1
    cases hblank
  | quoted body => exact .inr ⟨body, rfl⟩
  | unrecognized | unclosed => cases sound

/-- A token that ends a statement is the only token of its piece, which is a terminator or a line
break. -/
theorem tokens_eq_append_semi {p : Piece} (h : p.WellFormed) {offset : Nat} {canEnd : Bool}
    {rest : List Char} {before behind : List Token} {t : Token}
    (ht : p.tokens offset canEnd rest = before ++ t :: behind) (hkind : t.kind = .semi) :
  before = [] ∧ ((p = lexeme .semi [terminator] ∧ t = ⟨.semi, offset, ";"⟩)
    ∨ (p = blank '\n' ∧ canEnd ∧ t = ⟨.semi, offset, "\n"⟩))
  := by
  have hmem : t ∈ p.tokens offset canEnd rest := by simp [ht]
  cases p with
  | blank c =>
    rw [tokens] at ht
    split at ht
    · next hbreak =>
      obtain ⟨rfl, hcanEnd⟩ := hbreak
      obtain ⟨rfl, hcons⟩ | ⟨before, rfl, hcons⟩ := List.cons_eq_append_iff.mp ht
      · obtain ⟨rfl, -⟩ := List.cons.inj hcons
        exact ⟨rfl, .inr ⟨rfl, hcanEnd, rfl⟩⟩
      · simp at hcons
    · simp at ht
  | lexeme kind text =>
    obtain ⟨rfl, hcons⟩ | ⟨before, rfl, hcons⟩ := List.cons_eq_append_iff.mp ht
    · obtain ⟨rfl, -⟩ := List.cons.inj hcons
      obtain rfl : kind = .semi := hkind
      obtain rfl : text = [terminator] := h
      exact ⟨rfl, .inl ⟨rfl, rfl⟩⟩
    · -- only the inserted operator comes after the first token
      have hsecond : t ∈ before ++ t :: behind := by simp
      rw [← hcons] at hsecond
      split at hsecond
      · obtain rfl := List.mem_singleton.mp hsecond
        cases hkind
      · cases hsecond
  | quoted body =>
    obtain rfl := List.mem_singleton.mp hmem
    cases hkind
  | comment | unrecognized | unclosed => cases hmem

end Piece

/-! ### Stretches -/

namespace Cursor

variable {cs : List Char} {k k' : Cursor} {ts : List Token}

theorem Reads.head?_of_nil (h : Reads k ts k') (hnil : ts = []) (hparen : k.rest.head? = some '(') :
  k'.rest.head? = some '('
  := by
  cases h with
  | done => exact hparen
  | step found sound more =>
    exact absurd (List.append_eq_nil_iff.mp hnil).1
      (Piece.tokens_ne_nil_of_lparen found hparen _ _).1

/-- Whether a statement can end is told by the last token, but before an opening paren. -/
theorem Reads.canEnd_eq (h : Reads k ts k') (hparen : k'.rest.head? ≠ some '(') :
  k'.canEnd = Token.canEndAfter k.canEnd ts
  := by
  induction h with
  | done => rfl
  | @step k k' p rest ts found sound more ih =>
    rw [ih hparen, Token.canEndAfter_append]
    -- an operator may have been inserted after the piece, but then the paren is among `ts`
    by_cases hnil : ts = []
    · have hrest : rest.head? ≠ some '(' := fun hrest => hparen (more.head?_of_nil hnil hrest)
      rw [after, Piece.canEnd_eq sound k.offset k.canEnd hrest]
    · apply Token.canEndAfter_of_ne_nil hnil

/-- At the end of a text without a fault, no statement can end anymore, since a terminator has been
inserted if one could. -/
theorem canEndAfter_of_read {offset : Nat} (h : k.read.1 = ts ++ [.endOfText offset])
    (hfault : k.read.2 = none) :
  Token.canEndAfter k.canEnd ts = false
  := by
  obtain ⟨us, k', hreads, ⟨hnil, hread⟩ | ⟨-, fault, hread⟩⟩ := k.exists_isLast
  · rw [hreads.read_eq, hread, closing, ← List.append_assoc] at h
    obtain ⟨rfl, -⟩ := List.append_singleton_inj.mp h
    rw [Token.canEndAfter_append, ← hreads.canEnd_eq (by simp [hnil])]
    cases k'.canEnd <;> rfl
  · rw [hreads.read_eq, hread] at hfault
    cases hfault

/-- A terminator that belongs to a piece has a text. -/
theorem Reads.text_ne_of_semi (h : Reads k ts k') {t : Token} (ht : t ∈ ts)
    (hkind : t.kind = .semi) :
  t.text ≠ ""
  := by
  induction h with
  | done => cases ht
  | step found sound more ih =>
    obtain ht | ht := List.mem_append.mp ht
    · obtain ⟨before, behind, hsplit⟩ := List.append_of_mem ht
      obtain ⟨-, ⟨-, rfl⟩ | ⟨-, -, rfl⟩⟩ :=
        Piece.tokens_eq_append_semi (wellFormed_of_found found) hsplit hkind
      · simp
      · simp
    · exact ih ht

/-- At the end of a text, only the first token may end a statement. -/
theorem closing_eq_append_semi {before behind : List Token} {t : Token}
    (h : k.closing = before ++ t :: behind) (hkind : t.kind = .semi) :
  before = [] ∧ k.canEnd ∧ t = ⟨.semi, k.offset, ""⟩
  := by
  have hend {part : List Token} (h : [Token.endOfText k.offset] = part ++ t :: behind) :
      False := by
    have ht : t ∈ [Token.endOfText k.offset] := h ▸ List.mem_append_right _ List.mem_cons_self
    obtain rfl := List.mem_singleton.mp ht
    cases hkind
  rw [closing] at h
  split at h
  · next hcanEnd =>
    obtain ⟨rfl, hcons⟩ | ⟨part, rfl, hcons⟩ := List.cons_eq_append_iff.mp h
    · obtain ⟨rfl, -⟩ := List.cons.inj hcons
      exact ⟨rfl, hcanEnd, rfl⟩
    · exact (hend hcons).elim
  · exact (hend h).elim

/-- A token that ends a statement is written where it stands, or it has been inserted there: in the
place of a line break, or at the end of a text without a fault. -/
theorem exists_before_semi {before behind : List Token} {t : Token}
    (h : k.read.1 = before ++ t :: behind) (hkind : t.kind = .semi) :
  ∃ k', k.Reads before k' ∧ ((t = ⟨.semi, k'.offset, ";"⟩ ∧ k'.rest.head? = some terminator)
    ∨ (k'.canEnd ∧ t = ⟨.semi, k'.offset, "\n"⟩ ∧ k'.rest.head? = some '\n')
    ∨ (k'.canEnd ∧ t = ⟨.semi, k'.offset, ""⟩ ∧ k'.rest = []))
  := by
  obtain ⟨us, part, k', hreads, rfl, hplace⟩ := exists_split h
  use k'
  obtain ⟨p, rest, behind', found, htokens⟩ | ⟨hnil, hclosing⟩ | rfl := hplace
  · obtain ⟨hsource, hshape, -⟩ := Piece.front?_eq_some_iff.mp found
    obtain ⟨rfl, hpiece⟩ := Piece.tokens_eq_append_semi hshape htokens hkind
    rw [List.append_nil, hsource]
    use hreads
    obtain ⟨rfl, ht⟩ | ⟨rfl, hcanEnd, ht⟩ := hpiece
    · exact .inl ⟨ht, rfl⟩
    · exact .inr (.inl ⟨hcanEnd, ht, rfl⟩)
  · obtain ⟨rfl, hcanEnd, ht⟩ := closing_eq_append_semi hclosing hkind
    rw [List.append_nil]
    exact ⟨hreads, .inr (.inr ⟨hcanEnd, ht, hnil⟩)⟩
  · cases hkind

end Cursor

/-! ### The rule -/

/-- The offset lies in a string literal of the text `cs`, which has the tokens `ts`. -/
def InString (cs : List Char) (ts : List Token) (p : Nat) : Prop :=
  ∃ t ∈ ts, t.kind = .str ∧ t.sourceStart ≤ p ∧ p < t.sourceStop cs

/-- The offset lies in a comment of the text `cs`, which has the tokens `ts`: after two slashes that
belong to no token, and on the same line. -/
def InComment (cs : List Char) (ts : List Token) (p : Nat) : Prop :=
  ∃ start stop body, slice? cs start stop = some ('/' :: '/' :: body) ∧ '\n' ∉ body
    ∧ (∀ c ∈ charAt? cs stop, c = '\n') ∧ start ≤ p ∧ p < stop
    ∧ ∀ t ∈ ts, t.sourceStop cs ≤ start ∨ stop ≤ t.sourceStart

/-- The tokens at an offset. -/
def tokensAt (ts : List Token) (p : Nat) : List Token := ts.filter (·.pos = p)

/-- The last token before an offset. -/
def lastBefore? (ts : List Token) (p : Nat) : Option Token := (ts.filter (·.pos < p)).getLast?

/-- Whether the last token before an offset exists and can end a statement. -/
def canEndBefore (ts : List Token) (p : Nat) : Bool :=
  (lastBefore? ts p).any (·.kind.canEndStatement)

/-- The token ends a statement without being written as a terminator. -/
def Token.IsInsertedEnd (t : Token) : Prop := t.kind = .semi ∧ t.text ≠ ";"

/-- The tokens `ts` of the text `cs`, which can be read up to `stop`, have the terminators
that they should have; `faulty` says whether a fault ends the reading. -/
structure TerminatorRule (cs : List Char) (ts : List Token) (stop : Nat) (faulty : Bool) :
    Prop where
  /-- Each terminator that is written outside of literals and comments is one token. -/
  written : ∀ p < stop, charAt? cs p = some ';' → ¬ InString cs ts p → ¬ InComment cs ts p →
    tokensAt ts p = [⟨.semi, p, ";"⟩]
  /-- A line break outside of literals is a token exactly if the last token before it can end a
  statement. -/
  lineBreak : ∀ p < stop, charAt? cs p = some '\n' → ¬ InString cs ts p →
    tokensAt ts p = if canEndBefore ts p then [⟨.semi, p, "\n"⟩] else []
  /-- Without a fault, the text is read to its end. -/
  faultless : faulty = false → stop = byteLength cs
  /-- At the end of the text, a terminator comes before the mark of the end exactly if there is no
  fault and the last token can end a statement. -/
  atEnd : ts.filter (stop ≤ ·.pos)
    = (if !faulty && canEndBefore ts (byteLength cs) then [⟨.semi, byteLength cs, ""⟩] else [])
      ++ [.endOfText stop]
  /-- There are no other tokens that end a statement. -/
  only : ∀ t ∈ ts, t.kind = .semi →
    (t = ⟨.semi, t.pos, ";"⟩ ∧ t.pos < stop ∧ charAt? cs t.pos = some ';'
        ∧ ¬ InString cs ts t.pos ∧ ¬ InComment cs ts t.pos)
      ∨ (t = ⟨.semi, t.pos, "\n"⟩ ∧ t.pos < stop ∧ charAt? cs t.pos = some '\n'
        ∧ ¬ InString cs ts t.pos)
      ∨ t = ⟨.semi, byteLength cs, ""⟩
  /-- An inserted terminator comes right after a token that can end a statement. -/
  follows : ∀ before t behind, ts = before ++ t :: behind → t.IsInsertedEnd →
    ∃ u ∈ before.getLast?, u.kind.canEndStatement
  /-- Two inserted terminators never follow each other. -/
  apart : ∀ before t u behind, ts = before ++ t :: u :: behind →
    ¬ (t.IsInsertedEnd ∧ u.IsInsertedEnd)
  /-- Without the inserted operators, the last token before an offset is the same. -/
  operators : ∀ p, lastBefore? (ts.filter (!·.isInserted cs)) p = lastBefore? ts p

section

variable {cs : List Char} {k : Cursor} {ts : List Token}

/-- The state tells the last token before a place, unless an opening paren follows. -/
theorem canEndBefore_of_reads (hreads : (Cursor.start cs).Reads ts k)
    (hparen : k.rest.head? ≠ some '(') :
  canEndBefore (Cursor.start cs).read.1 k.offset = k.canEnd
  := by
  rw [canEndBefore, lastBefore?, (Cursor.filter_of_reads hreads hparen).1, hreads.canEnd_eq hparen,
    Token.canEndAfter]
  cases ts.getLast? <;> rfl

/-- The tokens where a piece begins are those of the piece that begin there. -/
theorem tokensAt_of_found (hreads : (Cursor.start cs).Reads ts k) {p : Piece} {rest : List Char}
    (found : Piece.front? k.rest = some (p, rest)) (sound : p.fault? = none)
    (hparen : k.rest.head? ≠ some '(') :
  tokensAt (Cursor.start cs).read.1 k.offset
    = (p.tokens k.offset k.canEnd rest).filter (·.pos = k.offset)
  := by
  have hin := (Cursor.start_isIn cs).of_reads hreads
  have hbefore : ∀ t ∈ ts, t.pos ≠ k.offset := by
    intro t ht
    apply Nat.ne_of_lt ((hreads.extent (Cursor.start_isIn cs) t ht).2 hparen)
  have hbehind : ∀ t ∈ (k.after p rest).read.1, t.pos ≠ k.offset := by
    intro t ht
    have hle := Cursor.le_pos_of_mem_read (hin.after (Piece.front?_eq_some_iff.mp found).1) t ht
    have hpos := byteLength_pos (Piece.source_ne_nil_of_front? found)
    exact Nat.ne_of_gt (Nat.lt_of_lt_of_le (Nat.lt_add_of_pos_right hpos) hle)
  have hbefore' : ts.filter (·.pos = k.offset) = [] :=
    List.filter_eq_nil_iff.mpr (by simpa using hbefore)
  have hbehind' : (k.after p rest).read.1.filter (·.pos = k.offset) = [] :=
    List.filter_eq_nil_iff.mpr (by simpa using hbehind)
  rw [tokensAt, hreads.read_eq, Cursor.read_of_piece found sound, List.filter_append,
    List.filter_append, hbefore', hbehind', List.nil_append, List.append_nil]

/-- What lies in a quoted piece lies in a string literal. -/
theorem inString_of_found (hreads : (Cursor.start cs).Reads ts k) {body rest : List Char}
    (found : Piece.front? k.rest = some (.quoted body, rest)) {p : Nat} (hstart : k.offset ≤ p)
    (hstop : p < (k.after (.quoted body) rest).offset) :
  InString cs (Cursor.start cs).read.1 p
  := by
  have hslice := ((Cursor.start_isIn cs).of_reads hreads).slice? _
    (Piece.front?_eq_some_iff.mp found).1
  use ⟨.str, k.offset + 1, String.ofList body⟩
  refine ⟨?_, rfl, hstart, ?_⟩
  · rw [hreads.read_eq, Cursor.read_of_piece found rfl]
    apply List.mem_append_right _ List.mem_cons_self
  · rw [Laid.sourceStop_quoted hslice]
    exact hstop

/-- What lies in a piece that is a comment lies in a comment. -/
theorem inComment_of_found (hreads : (Cursor.start cs).Reads ts k) {body rest : List Char}
    (found : Piece.front? k.rest = some (.comment body, rest)) {p : Nat} (hstart : k.offset ≤ p)
    (hstop : p < (k.after (.comment body) rest).offset) :
  InComment cs (Cursor.start cs).read.1 p
  := by
  have hin := (Cursor.start_isIn cs).of_reads hreads
  obtain ⟨hsource, hbody, hend⟩ := Piece.front?_eq_some_iff.mp found
  refine ⟨_, _, body, hin.slice? _ hsource, hbody, ?_, hstart, hstop, ?_⟩
  · have hnext : charAt? cs (k.offset + byteLength ('/' :: '/' :: body)) = rest.head? :=
      (hin.after hsource).charAt?
    rw [hnext]
    exact hend
  · intro t ht
    rw [hreads.read_eq, Cursor.read_of_piece found rfl] at ht
    obtain ht | ht := List.mem_append.mp ht
    · exact .inl (hreads.extent (Cursor.start_isIn cs) t ht).1
    · exact .inr ((Cursor.laid_read (hin.after hsource)).le_sourceStart t ht)

theorem eq_nil_of_singleton_eq {c d : Char} {before behind : List Char}
    (h : [c] = before ++ d :: behind) :
  before = []
  := by
  cases before with
  | nil => rfl
  | cons c before => simp at h

/-- A terminator that is written is the only token in its place. -/
theorem tokensAt_of_terminator (hreads : (Cursor.start cs).Reads ts k) {p : Nat}
    (hp : p < k.offset) (hc : charAt? cs p = some terminator)
    (hstring : ¬ InString cs (Cursor.start cs).read.1 p)
    (hcomment : ¬ InComment cs (Cursor.start cs).read.1 p) :
  tokensAt (Cursor.start cs).read.1 p = [⟨.semi, p, ";"⟩]
  := by
  obtain ⟨us, k', piece, rest, before, behind, hreads', found, sound, hsource, rfl, hstop⟩ :=
    hreads.exists_piece_of_charAt? hp hc
  obtain ⟨hrest, hshape, -⟩ := Piece.front?_eq_some_iff.mp found
  obtain rfl | ⟨body, rfl⟩ | ⟨body, rfl⟩ :=
    Piece.eq_of_terminator_mem hshape sound (by simp [hsource])
  · obtain rfl := eq_nil_of_singleton_eq hsource
    have hparen : k'.rest.head? ≠ some '(' := by simp [hrest, Piece.source, terminator]
    rw [byteLength_nil, Nat.add_zero, tokensAt_of_found hreads' found sound hparen]
    simp [Piece.tokens, terminator]
  · exact absurd (inComment_of_found hreads' found (Nat.le_add_right _ _) hstop) hcomment
  · exact absurd (inString_of_found hreads' found (Nat.le_add_right _ _) hstop) hstring

/-- The only token in the place of a line break is the terminator that is inserted there. -/
theorem tokensAt_of_lineBreak (hreads : (Cursor.start cs).Reads ts k) {p : Nat}
    (hp : p < k.offset) (hc : charAt? cs p = some '\n')
    (hstring : ¬ InString cs (Cursor.start cs).read.1 p) :
  tokensAt (Cursor.start cs).read.1 p
    = if canEndBefore (Cursor.start cs).read.1 p then [⟨.semi, p, "\n"⟩] else []
  := by
  obtain ⟨us, k', piece, rest, before, behind, hreads', found, sound, hsource, rfl, hstop⟩ :=
    hreads.exists_piece_of_charAt? hp hc
  obtain ⟨hrest, hshape, -⟩ := Piece.front?_eq_some_iff.mp found
  obtain rfl | ⟨body, rfl⟩ := Piece.eq_of_lineBreak_mem hshape sound (by simp [hsource])
  · obtain rfl := eq_nil_of_singleton_eq hsource
    have hparen : k'.rest.head? ≠ some '(' := by simp [hrest, Piece.source]
    rw [byteLength_nil, Nat.add_zero, tokensAt_of_found hreads' found sound hparen,
      canEndBefore_of_reads hreads' hparen, Piece.tokens]
    cases k'.canEnd <;> simp
  · exact absurd (inString_of_found hreads' found (Nat.le_add_right _ _) hstop) hstring

/-- A token that can end a statement comes right before an inserted terminator. -/
theorem exists_before_inserted {before behind : List Token} {t : Token}
    (h : (Cursor.start cs).read.1 = before ++ t :: behind) (hinserted : t.IsInsertedEnd) :
  ∃ u ∈ before.getLast?, u.kind.canEndStatement
  := by
  obtain ⟨hkind, htext⟩ := hinserted
  obtain ⟨k', hreads, hplace⟩ := Cursor.exists_before_semi h hkind
  have hlast (hcanEnd : k'.canEnd) (hparen : k'.rest.head? ≠ some '(') :
      ∃ u ∈ before.getLast?, u.kind.canEndStatement := by
    rw [hreads.canEnd_eq hparen, Token.canEndAfter] at hcanEnd
    cases hbefore : before.getLast? with
    | none => simp [hbefore, Cursor.start] at hcanEnd
    | some u => exact ⟨u, rfl, by simpa [hbefore] using hcanEnd⟩
  obtain ⟨rfl, -⟩ | ⟨hcanEnd, -, hhead⟩ | ⟨hcanEnd, -, hnil⟩ := hplace
  · exact absurd rfl htext
  · apply hlast hcanEnd (by simp [hhead])
  · apply hlast hcanEnd (by simp [hnil])

/-- A terminator of one byte lies neither in a literal nor in a comment. -/
theorem outside_of_semi {t : Token} (ht : t ∈ (Cursor.start cs).read.1) (hkind : t.kind = .semi)
    (hsize : t.text.utf8ByteSize = 1) :
  ¬ InString cs (Cursor.start cs).read.1 t.pos ∧ ¬ InComment cs (Cursor.start cs).read.1 t.pos
  := by
  have hstart : t.sourceStart = t.pos := by simp [Token.sourceStart, hkind]
  have hstop : t.sourceStop cs = t.pos + 1 := by
    simp [Token.sourceStop, Token.isInserted, Token.isOp, Token.stop, hkind, hsize]
  constructor
  · rintro ⟨u, hu, hstr, hle, hlt⟩
    have horder := (Cursor.laid_read (Cursor.start_isIn cs)).pairwise
    obtain ⟨before, behind, hsplit⟩ := List.append_of_mem ht
    rw [hsplit] at hu horder
    obtain ⟨-, hbehind, hbefore⟩ := List.pairwise_append.mp horder
    obtain hu | hu := List.mem_append.mp hu
    · have := hbefore u hu t List.mem_cons_self
      omega
    · obtain rfl | hu := List.mem_cons.mp hu
      · rw [hkind] at hstr
        cases hstr
      · have := (List.pairwise_cons.mp hbehind).1 u hu
        omega
  · rintro ⟨start, stop, body, -, -, -, hle, hlt, houtside⟩
    have := houtside t ht
    omega

/-- A token that ends a statement is one that the rule asks for. -/
theorem eq_of_semi {t : Token} (ht : t ∈ (Cursor.start cs).read.1) (hkind : t.kind = .semi) :
  (t = ⟨.semi, t.pos, ";"⟩ ∧ charAt? cs t.pos = some ';'
      ∧ ¬ InString cs (Cursor.start cs).read.1 t.pos
      ∧ ¬ InComment cs (Cursor.start cs).read.1 t.pos)
    ∨ (t = ⟨.semi, t.pos, "\n"⟩ ∧ charAt? cs t.pos = some '\n'
      ∧ ¬ InString cs (Cursor.start cs).read.1 t.pos)
    ∨ t = ⟨.semi, byteLength cs, ""⟩
  := by
  obtain ⟨before, behind, hsplit⟩ := List.append_of_mem ht
  obtain ⟨k', hreads, hplace⟩ := Cursor.exists_before_semi hsplit hkind
  have hin := (Cursor.start_isIn cs).of_reads hreads
  obtain ⟨rfl, hhead⟩ | ⟨-, rfl, hhead⟩ | ⟨-, rfl, hnil⟩ := hplace
  · have hsize : ";".utf8ByteSize = 1 := by decide
    exact .inl ⟨rfl, hin.charAt?.trans hhead, outside_of_semi ht rfl hsize⟩
  · have hsize : "\n".utf8ByteSize = 1 := by decide
    exact .inr (.inl ⟨rfl, hin.charAt?.trans hhead, (outside_of_semi ht rfl hsize).1⟩)
  · right
    right
    rw [hin.offset_eq hnil]

/-- From the place on where the reading ends, there are only the mark of the end and, where it has
to be, a terminator before it. -/
theorem filter_of_isLast (hreads : (Cursor.start cs).Reads ts k) (hlast : k.IsLast) :
  ((Cursor.start cs).read.2.isSome = false → k.offset = byteLength cs)
    ∧ (Cursor.start cs).read.1.filter (k.offset ≤ ·.pos)
      = (if !(Cursor.start cs).read.2.isSome
            && canEndBefore (Cursor.start cs).read.1 (byteLength cs) then
          [⟨.semi, byteLength cs, ""⟩] else []) ++ [.endOfText k.offset]
  := by
  have hfault : (Cursor.start cs).read.2 = k.read.2 := by rw [hreads.read_eq]
  rw [(Cursor.filter_of_reads hreads hlast.head?_ne).2, hfault]
  obtain ⟨hnil, hread⟩ | ⟨-, fault, hread⟩ := hlast
  · have hoffset := ((Cursor.start_isIn cs).of_reads hreads).offset_eq hnil
    use fun _ => hoffset
    rw [hread, ← hoffset, canEndBefore_of_reads hreads (by simp [hnil])]
    rfl
  · rw [hread]
    simp

end

namespace Laid

theorem lastBefore?_cons (t : Token) (ts : List Token) (p : Nat) :
  lastBefore? (t :: ts) p = (lastBefore? ts p).or (if t.pos < p then some t else none)
  := by
  rw [lastBefore?, List.filter_cons]
  split
  · next h =>
    rw [List.getLast?_cons, if_pos (of_decide_eq_true h), lastBefore?]
    cases (ts.filter (·.pos < p)).getLast? <;> rfl
  · next h =>
    rw [if_neg (by simpa using h), Option.or_none]
    rfl

/-- The last token before an offset is no inserted operator, since the opening paren after it stands
in the same place. -/
theorem lastBefore?_filter {cs : List Char} {start : Nat} {ts : List Token} (h : Laid cs start ts)
    (p : Nat) :
  lastBefore? (ts.filter (!·.isInserted cs)) p = lastBefore? ts p
  := by
  induction h with
  | stop => rfl
  | blank _ _ _ ih => exact ih
  | comment _ _ _ _ ih => exact ih
  | written _ hslice _ _ _ ih =>
    rw [List.filter_cons_of_pos (by simp [Token.isInserted_eq_false_of_slice? hslice]),
      lastBefore?_cons, lastBefore?_cons, ih]
  | quoted _ _ _ ih =>
    rw [List.filter_cons_of_pos (by simp [Token.isInserted, Token.isOp]), lastBefore?_cons,
      lastBefore?_cons, ih]
  | @inserted start ts hslice _ ih =>
    have hinserted := isInserted_of_slice? hslice
    rw [List.filter_cons_of_pos (by simp [Token.isInserted, Token.isOp]),
      List.filter_cons_of_neg (by simp [hinserted]), lastBefore?_cons, ih]
    simp only [lastBefore?_cons]
    by_cases hp : start + 1 < p
    · simp [hp]
    · simp [hp]

end Laid

/-- The terminators of a text are where the rule asks for them. -/
theorem terminators_follow_rule (text : String) :
  ∃ stop, (Lexer.ofText text).drain.1.getLast? = some (.endOfText stop)
    ∧ TerminatorRule text.toList (Lexer.ofText text).drain.1 stop
      (Lexer.ofText text).drain.2.hasErrors
  := by
  have hfaulty : (Lexer.ofText text).drain.2.hasErrors
      = (Cursor.start text.toList).read.2.isSome := by
    rw [Bool.eq_iff_iff, ← not_iff_not, Bool.not_eq_true, Lexer.hasErrors_drain]
    simp
  rw [hfaulty, Lexer.drain_eq_read]
  obtain ⟨ts, k, hreads, hlast⟩ := (Cursor.start text.toList).exists_isLast
  obtain ⟨hfaultless, hend⟩ := filter_of_isLast hreads hlast
  use k.offset
  constructor
  · rw [hreads.read_eq, List.getLast?_append, hlast.getLast?_eq]
    rfl
  constructor
  case written =>
    intro p hp hc hstring hcomment
    apply tokensAt_of_terminator hreads hp hc hstring hcomment
  case lineBreak =>
    intro p hp hc hstring
    apply tokensAt_of_lineBreak hreads hp hc hstring
  case faultless => exact hfaultless
  case atEnd => exact hend
  case only =>
    intro t ht hkind
    have hpos (htext : t.text ≠ "") : t.pos < k.offset := by
      rw [hreads.read_eq] at ht
      obtain ht | ht := List.mem_append.mp ht
      · apply (hreads.extent (Cursor.start_isIn _) t ht).2 hlast.head?_ne
      · exact absurd (hlast.text_eq ht) htext
    obtain ⟨heq, hchar⟩ | ⟨heq, hchar⟩ | heq := eq_of_semi ht hkind
    · exact .inl ⟨heq, hpos (by rw [heq]; simp), hchar⟩
    · exact .inr (.inl ⟨heq, hpos (by rw [heq]; simp), hchar⟩)
    · exact .inr (.inr heq)
  case follows =>
    intro before t behind hsplit hinserted
    apply exists_before_inserted hsplit hinserted
  case apart =>
    rintro before t u behind hsplit ⟨⟨hkind, -⟩, hinserted⟩
    rw [List.append_cons] at hsplit
    obtain ⟨v, hv, hend⟩ := exists_before_inserted hsplit hinserted
    rw [List.getLast?_concat] at hv
    obtain rfl := Option.mem_some.mp hv
    rw [hkind] at hend
    cases hend
  case operators =>
    intro p
    apply (Cursor.laid_read (Cursor.start_isIn _)).lastBefore?_filter p

/-- A terminator is inserted after `b` and after `c`, but not on the empty line, after the operator
and at the end. -/
example : (Lexer.ofText "a)(b\n\n+\nc // ;\n").drain.1.filter (·.kind = .semi)
    = [⟨.semi, 4, "\n"⟩, ⟨.semi, 14, "\n"⟩] := by
  decide +kernel

end EquationLang
