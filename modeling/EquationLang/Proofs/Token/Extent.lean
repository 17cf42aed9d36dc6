import EquationLang.Proofs.Token.Coverage

/-!
# Places in a text and the tokens around them

Where one piece of a text ends and the next one begins, the tokens of the text fall into those
before the place and those after it.  They can be told apart by their offsets, unless an operator
has just been inserted (`Cursor.filter_of_reads`).  Each character that can be read belongs to a
piece (`Cursor.Reads.exists_piece_of_charAt?`), and the reading ends at a last place
(`Cursor.exists_isLast`).
-/

namespace EquationLang

/-- An opening paren is a token, and no fault. -/
theorem Piece.tokens_ne_nil_of_lparen {cs rest : List Char} {p : Piece}
    (h : front? cs = some (p, rest)) (hparen : cs.head? = some '(') (offset : Nat) (canEnd : Bool) :
  p.tokens offset canEnd rest ≠ [] ∧ p.fault? = none
  := by
  obtain ⟨cs, rfl⟩ := List.head?_eq_some_iff.mp hparen
  cases h
  exact ⟨List.cons_ne_nil _ _, rfl⟩

namespace Cursor

variable {cs : List Char} {k k' : Cursor} {ts : List Token}

/-- The tokens of a piece do not reach beyond it, and they begin before its end unless an operator
has been inserted there. -/
theorem extent_of_mem_tokens (h : k.IsIn cs) {p : Piece} {rest : List Char}
    (found : Piece.front? k.rest = some (p, rest)) {t : Token}
    (ht : t ∈ p.tokens k.offset k.canEnd rest) :
  t.sourceStop cs ≤ (k.after p rest).offset
    ∧ (rest.head? ≠ some '(' → t.pos < (k.after p rest).offset)
  := by
  obtain ⟨hrest, hshape, -⟩ := Piece.front?_eq_some_iff.mp found
  have hpos := byteLength_pos (Piece.source_ne_nil_of_front? found)
  cases p with
  | blank c =>
    simp only [Piece.tokens] at ht
    split at ht
    · next hbreak =>
      obtain ⟨rfl, -⟩ := hbreak
      obtain rfl := List.mem_singleton.mp ht
      exact ⟨Token.sourceStop_le_stop cs (by simp), fun _ => Nat.lt_add_of_pos_right hpos⟩
    · cases ht
  | lexeme kind text =>
    obtain rfl | ht := List.mem_cons.mp ht
    · have hkind : kind ≠ .str := by
        rintro rfl
        cases hshape
      have hstop := Token.sourceStop_le_stop cs (t := ⟨kind, k.offset, String.ofList text⟩) hkind
      rw [Token.stop, utf8ByteSize_ofList] at hstop
      exact ⟨hstop, fun _ => Nat.lt_add_of_pos_right hpos⟩
    · split at ht
      · next hparen =>
        obtain rfl := List.mem_singleton.mp ht
        have hchar : charAt? cs (k.offset + byteLength text) = some '(' := by
          rw [← hparen.2]
          apply (h.after hrest).charAt?
        have hinserted : Token.isInserted cs ⟨.operator, k.offset + byteLength text, "*"⟩ :=
          Token.isInserted_iff.mpr ⟨rfl, rfl, hchar⟩
        rw [Token.sourceStop, if_pos hinserted]
        exact ⟨Nat.le_refl _, fun hne => absurd hparen.2 hne⟩
      · cases ht
  | quoted body =>
    obtain rfl := List.mem_singleton.mp ht
    rw [Laid.sourceStop_quoted (h.slice? _ hrest)]
    use Nat.le_refl _
    intro _
    have hquote : '"'.utf8Size = 1 := by decide
    simp only [after, Piece.source, byteLength_append, byteLength_cons, byteLength_nil, hquote]
    omega
  | comment | unrecognized | unclosed => cases ht

/-- The tokens of a stretch do not reach beyond it, and they begin before its end unless an opening
paren follows. -/
theorem Reads.extent (hreads : Reads k ts k') (h : k.IsIn cs) :
  ∀ t ∈ ts, t.sourceStop cs ≤ k'.offset ∧ (k'.rest.head? ≠ some '(' → t.pos < k'.offset)
  := by
  induction hreads with
  | done => simp
  | @step k k' p rest ts found sound more ih =>
    intro t ht
    obtain ht | ht := List.mem_append.mp ht
    · obtain ⟨hstop, hpos⟩ := extent_of_mem_tokens h found ht
      obtain ⟨part, hrest, hoffset, -⟩ := more.exists_part
      rw [hoffset]
      use hstop.trans (Nat.le_add_right _ _)
      intro hparen
      -- an inserted operator begins at the end of its piece, before the end of a longer stretch
      cases part with
      | nil =>
        have hrest : rest = k'.rest := hrest
        exact hpos (hrest ▸ hparen)
      | cons c part =>
        have := t.pos_le_sourceStop cs
        have := byteLength_pos (List.cons_ne_nil c part)
        omega
    · apply ih (h.after (Piece.front?_eq_some_iff.mp found).1) t ht

/-- What is read from a place on begins there or later. -/
theorem le_pos_of_mem_read (h : k.IsIn cs) :
  ∀ t ∈ k.read.1, k.offset ≤ t.pos
  := by
  intro t ht
  apply ((laid_read h).le_sourceStart t ht).trans t.sourceStart_le_pos

/-- The tokens before a place and those after it are told apart by their offsets, if no opening
paren follows. -/
theorem filter_of_reads (hreads : (start cs).Reads ts k) (hparen : k.rest.head? ≠ some '(') :
  (start cs).read.1.filter (·.pos < k.offset) = ts
    ∧ (start cs).read.1.filter (k.offset ≤ ·.pos) = k.read.1
  := by
  have hbefore : ∀ t ∈ ts, t.pos < k.offset := by
    intro t ht
    apply (hreads.extent (start_isIn cs) t ht).2 hparen
  have hbehind : ∀ t ∈ k.read.1, k.offset ≤ t.pos :=
    le_pos_of_mem_read ((start_isIn cs).of_reads hreads)
  rw [hreads.read_eq, List.filter_append, List.filter_append]
  constructor
  · rw [List.filter_eq_self.mpr (by simpa using hbefore),
      List.filter_eq_nil_iff.mpr (by simpa using hbehind), List.append_nil]
  · rw [List.filter_eq_nil_iff.mpr (by simpa using hbefore),
      List.filter_eq_self.mpr (by simpa using hbehind), List.nil_append]

/-- Each offset of a stretch lies in one of its pieces. -/
theorem Reads.exists_piece (h : Reads k ts k') {p : Nat} (hstart : k.offset ≤ p)
    (hstop : p < k'.offset) :
  ∃ us k₁ piece rest, Reads k us k₁ ∧ Piece.front? k₁.rest = some (piece, rest)
    ∧ piece.fault? = none ∧ k₁.offset ≤ p ∧ p < (k₁.after piece rest).offset
  := by
  induction h with
  | done => omega
  | @step k k' piece rest ts found sound more ih =>
    by_cases hnext : p < (k.after piece rest).offset
    · exact ⟨[], k, piece, rest, .done k, found, sound, hstart, hnext⟩
    · obtain ⟨us, k₁, piece', rest', hreads, hpiece⟩ := ih (Nat.le_of_not_lt hnext) hstop
      exact ⟨_, k₁, piece', rest', .step found sound hreads, hpiece⟩

/-- A character of a stretch belongs to one of its pieces. -/
theorem Reads.exists_piece_of_charAt? (hreads : (start cs).Reads ts k) {p : Nat}
    (hp : p < k.offset) {c : Char} (hc : charAt? cs p = some c) :
  ∃ us k' piece rest before behind, (start cs).Reads us k'
    ∧ Piece.front? k'.rest = some (piece, rest) ∧ piece.fault? = none
    ∧ piece.source = before ++ c :: behind ∧ p = k'.offset + byteLength before
    ∧ p < (k'.after piece rest).offset
  := by
  obtain ⟨us, k', piece, rest, hreads', found, sound, hstart, hstop⟩ :=
    hreads.exists_piece (Nat.zero_le p) hp
  have hslice := ((start_isIn cs).of_reads hreads').slice? _
    (Piece.front?_eq_some_iff.mp found).1
  obtain ⟨before, behind, hsource, hpos⟩ := mem_of_charAt? hslice hc hstart hstop
  exact ⟨us, k', piece, rest, before, behind, hreads', found, sound, hsource, hpos, hstop⟩

/-! ### The last place -/

/-- The reading of a text ends at the place: there is nothing left, or a fault. -/
def IsLast (k : Cursor) : Prop :=
  (k.rest = [] ∧ k.read = (k.closing, none))
    ∨ k.rest.head? ≠ some '(' ∧ ∃ fault, k.read = ([.endOfText k.offset], some fault)

/-- Each reading comes to the end of the text or to a fault. -/
theorem exists_reads_to_end (k : Cursor) :
  ∃ ts k', k.Reads ts k' ∧ (k'.rest = [] ∨ ∃ p rest code message,
    Piece.front? k'.rest = some (p, rest) ∧ p.fault? = some (code, message))
  := by
  fun_induction read k with
  | case1 k found => exact ⟨[], k, .done k, .inl (Piece.front?_eq_none_iff.mp found)⟩
  | case2 k p rest found code message fault =>
    exact ⟨[], k, .done k, .inr ⟨p, rest, code, message, found, fault⟩⟩
  | case3 k p rest found sound fewer ih =>
    obtain ⟨ts, k', hreads, hend⟩ := ih
    exact ⟨_, k', .step found sound hreads, hend⟩

/-- Where the text ends or has a fault, the reading ends. -/
theorem isLast_of_end (h : k.rest = [] ∨ ∃ p rest code message,
    Piece.front? k.rest = some (p, rest) ∧ p.fault? = some (code, message)) :
  k.IsLast
  := by
  obtain hnil | ⟨p, rest, code, message, found, fault⟩ := h
  · exact .inl ⟨hnil, read_of_nil hnil⟩
  · refine .inr ⟨?_, _, read_of_fault found fault⟩
    intro hparen
    have sound := (Piece.tokens_ne_nil_of_lparen found hparen 0 false).2
    rw [fault] at sound
    cases sound

/-- Each reading ends somewhere. -/
theorem exists_isLast (k : Cursor) :
  ∃ ts k', k.Reads ts k' ∧ k'.IsLast
  := by
  obtain ⟨ts, k', hreads, hend⟩ := k.exists_reads_to_end
  exact ⟨ts, k', hreads, isLast_of_end hend⟩

theorem IsLast.head?_ne (h : k.IsLast) :
  k.rest.head? ≠ some '('
  := by
  obtain ⟨hnil, -⟩ | ⟨hparen, -⟩ := h
  · simp [hnil]
  · exact hparen

theorem IsLast.getLast?_eq (h : k.IsLast) :
  k.read.1.getLast? = some (.endOfText k.offset)
  := by
  obtain ⟨-, hread⟩ | ⟨-, fault, hread⟩ := h
  · rw [hread]
    apply List.getLast?_concat
  · rw [hread]
    rfl

/-- Where a reading ends, only tokens without a text are left. -/
theorem IsLast.text_eq (h : k.IsLast) {t : Token} (ht : t ∈ k.read.1) :
  t.text = ""
  := by
  obtain ⟨-, hread⟩ | ⟨-, fault, hread⟩ := h
  · rw [hread] at ht
    obtain ht | ht := List.mem_append.mp ht
    · split at ht
      · rw [List.mem_singleton.mp ht]
      · cases ht
    · rw [List.mem_singleton.mp ht]
      rfl
  · rw [hread] at ht
    rw [List.mem_singleton.mp ht]
    rfl

end Cursor

end EquationLang
