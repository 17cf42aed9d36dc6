import EquationLang.Proofs.Token.Stretch
import EquationLang.Token.Terminated

/-!
# The tokens of an equation

The text of an equation is read after a terminator has been added to it if it has none.
-/

namespace EquationLang

/-- The tokens of an equation, whose text ends with a terminator if need be. -/
def equationTokens (eqn : String) : List Token := (Lexer.ofText (normalize eqn)).drain.1

/-- What is wrong with the characters of an equation. -/
def lexicalErrors (eqn : String) : List Diagnostic :=
  (Lexer.ofText (normalize eqn)).drain.2.errors.toList

/-- The position of an offset in the text of an equation. -/
def equationPosition (eqn : String) : Nat → Position :=
  (Lexer.ofText (normalize eqn)).drain.2.resolve

/-- There is no lexical fault in the text of an equation. -/
def IsFaultless (eqn : String) : Prop := lexicalErrors eqn = []

theorem equationTokens_eq_read (eqn : String) :
  equationTokens eqn = (Cursor.start (normalize eqn).toList).read.1
  := Lexer.drain_eq_read (normalize eqn)

/-- The lexical faults of an equation are the one that ends the reading, if there is one. -/
theorem reports_lexicalErrors (eqn : String) :
  Lexer.Reports ∅ (Cursor.start (normalize eqn).toList).read.2 ⟨lexicalErrors eqn⟩
  := Lexer.reports_drain (normalize eqn)

theorem isFaultless_iff {eqn : String} :
  IsFaultless eqn ↔ (Cursor.start (normalize eqn).toList).read.2 = none
  := (reports_lexicalErrors eqn).toList_eq_nil_iff

/-- The tokens of an equation are proper tokens and the mark of the end, and there is at most one
lexical fault, which is at this end. -/
theorem exists_equationTokens (eqn : String) :
  ∃ body offset, equationTokens eqn = body ++ [.endOfText offset]
    ∧ (∀ t ∈ body, t.IsProper ∧ t.kind ≠ .eof)
    ∧ (IsFaultless eqn ∨ ∃ d, lexicalErrors eqn = [d] ∧ d.pos.offset = offset)
  := by
  obtain ⟨body, offset, hbody, hproper, hfault⟩ :=
    (Cursor.start (normalize eqn).toList).exists_end
  refine ⟨body, offset, ?_, hproper, ?_⟩
  · rw [equationTokens_eq_read, hbody]
  · have hreports := reports_lexicalErrors eqn
    cases hread : (Cursor.start (normalize eqn).toList).read.2 with
    | none =>
      left
      rw [isFaultless_iff, hread]
    | some fault =>
      right
      rw [hread] at hreports
      obtain ⟨pos, hpos, herrors⟩ := hreports
      refine ⟨_, congrArg Diagnostics.toList herrors, ?_⟩
      rw [hpos]
      apply hfault fault hread

theorem isProper_of_mem_equationTokens {eqn : String} :
  ∀ t ∈ equationTokens eqn, t.IsProper
  := by
  obtain ⟨body, offset, htokens, hbody, -⟩ := exists_equationTokens eqn
  rw [htokens]
  apply proper_of_append_endOfText hbody

/-- A terminator and the end of the text. -/
theorem read_terminator (offset : Nat) (canEnd : Bool) :
  (⟨offset, canEnd, [terminator]⟩ : Cursor).read
    = ([⟨.semi, offset, ";"⟩, .endOfText (offset + 1)], none)
  := by
  have found : Piece.front? [terminator] = some (.lexeme .semi [terminator], []) := rfl
  rw [Cursor.read_of_piece (k := ⟨offset, canEnd, [terminator]⟩) found rfl, Cursor.read_of_nil rfl]
  rfl

/-! ### The terminator that is added -/

theorem trimEnd_append_of_not_isBlank {c : Char} (h : isBlank c = false) (cs : List Char) :
  trimEnd (cs ++ [c]) = cs ++ [c]
  := by
  rw [trimEnd, List.reverse_append, List.reverse_singleton, List.singleton_append,
    List.dropWhile_cons_of_neg (by simp [h]), List.reverse_cons, List.reverse_reverse]

/-- A terminator is added after a last character that is neither a blank nor a terminator. -/
theorem normalize_of_last {eqn : String} {cs : List Char} {c : Char} (h : eqn.toList = cs ++ [c])
    (hblank : isBlank c = false) (hterminator : c ≠ terminator) :
  (normalize eqn).toList = cs ++ [c] ++ [terminator]
  := by
  rw [normalize, h, trimEnd_append_of_not_isBlank hblank, if_neg, String.toList_push, h]
  rw [List.getLast?_concat]
  simp [hterminator]

/-- The text that is read is the equation, or the equation and a terminator. -/
theorem toList_normalize (eqn : String) :
  (normalize eqn).toList = eqn.toList ∨ (normalize eqn).toList = eqn.toList ++ [terminator]
  := by
  rw [normalize]
  split
  · exact .inl rfl
  · exact .inr (String.toList_push _)

/-- The text that is read goes on after the equation, if it is not the equation itself. -/
theorem exists_append_of_normalize (eqn : String) :
  ∃ behind, (normalize eqn).toList = eqn.toList ++ behind
  := by
  obtain h | h := toList_normalize eqn
  · exact ⟨[], by rw [h, List.append_nil]⟩
  · exact ⟨[terminator], h⟩

/-- What comes before a character that is no terminator is a part of the equation as it was
given. -/
theorem exists_of_normalize {eqn : String} {cs behind : List Char} {c : Char}
    (h : (normalize eqn).toList = cs ++ [c] ++ behind) (hterminator : c ≠ terminator) :
  ∃ behind', eqn.toList = cs ++ [c] ++ behind'
  := by
  rw [normalize] at h
  split at h
  · exact ⟨behind, h⟩
  · rw [String.toList_push] at h
    obtain rfl | ⟨behind, d, rfl⟩ := List.eq_nil_or_concat behind
    · rw [List.append_nil] at h
      exact absurd (List.append_singleton_inj.mp h).2.symm hterminator
    · rw [List.concat_eq_append, ← List.append_assoc] at h
      exact ⟨behind, (List.append_singleton_inj.mp h).1⟩

theorem class_of_isNumberPart {c : Char} (h : isNumberPart c) :
  isBlank c = false ∧ c ≠ terminator
  := by
  rw [isNumberPart, Bool.or_eq_true, decide_eq_true_iff] at h
  obtain hdigit | hmark := h
  · have hstart : isNumberStart c := by simp [isNumberStart, hdigit]
    use isBlank_eq_false_of_isNumberStart hstart
    rintro rfl
    cases hdigit
  · simp only [List.mem_cons, List.not_mem_nil, or_false] at hmark
    obtain rfl | rfl | rfl | rfl | rfl := hmark <;> exact ⟨rfl, by simp [terminator]⟩

/-- A token that is written as it is has no blank in it, and none but a terminator has a terminator
in it. -/
theorem IsLexeme.class_of_mem {kind : Token.Kind} {text : List Char} (h : IsLexeme kind text)
    {c : Char} (hc : c ∈ text) :
  isBlank c = false ∧ (c = terminator → kind = .semi)
  := by
  cases kind with
  | eof | str => cases h
  | semi =>
    obtain rfl := h
    obtain rfl := List.mem_singleton.mp hc
    exact ⟨rfl, fun _ => rfl⟩
  | num =>
    obtain ⟨hblank, hterminator⟩ := class_of_isNumberPart (h.2.isNumberPart hc)
    exact ⟨hblank, fun heq => absurd heq hterminator⟩
  | ident =>
    obtain ⟨hblank, -, -, hterminator⟩ := isIdentContinue_iff.mp (h.2 c hc)
    exact ⟨hblank, fun heq => absurd heq hterminator⟩
  | operator | lbrace | rbrace | lparen | rparen | lbracket | rbracket =>
    obtain ⟨d, rfl, hmark⟩ := h
    obtain rfl := List.mem_singleton.mp hc
    use isBlank_eq_false_of_punctuation? hmark
    intro heq
    exact absurd heq (ne_terminator_of_punctuation? hmark)

/-- A token that is written as it is and can end a statement ends with a character that is neither a
blank nor a terminator. -/
theorem IsLexeme.exists_last {kind : Token.Kind} {text : List Char} (h : IsLexeme kind text)
    (hend : kind.canEndStatement) :
  ∃ cs c, text = cs ++ [c] ∧ isBlank c = false ∧ c ≠ terminator
  := by
  obtain hnil | ⟨cs, c, rfl⟩ := List.eq_nil_or_concat text
  · exact absurd hnil h.ne_nil
  rw [List.concat_eq_append] at h ⊢
  obtain ⟨hblank, hsemi⟩ := h.class_of_mem (c := c) (by simp)
  use cs, c, rfl, hblank
  intro hterminator
  rw [hsemi hterminator] at hend
  cases hend

end EquationLang
