import EquationLang.Proofs.Token.Alphabet
import EquationLang.Proofs.Token.Numeral
import EquationLang.Token.Piece

/-!
# The shape of pieces

Each kind of piece has a shape of its own (`Piece.WellFormed`), and some kinds constrain the
character after the piece (`Piece.StopsBefore`): a name and a number are as long as possible, and a
slash does not start a comment.  `Piece.front?_eq_some_iff` says that these two conditions describe
the first piece of a text completely.
-/

namespace EquationLang

theorem not_mem_takeWhile_ne (c : Char) (cs : List Char) :
  c ∉ cs.takeWhile (· ≠ c)
  := by
  intro hmem
  have := List.mem_takeWhile_imp hmem
  simp at this

theorem eq_of_mem_head?_dropWhile_ne {c d : Char} {cs : List Char}
    (h : d ∈ (cs.dropWhile (· ≠ c)).head?) :
  d = c
  := by
  have := List.head?_dropWhile_not (fun d => decide (d ≠ c)) cs
  rw [Option.mem_def.mp h] at this
  simpa using this

/-- The texts of the tokens of a kind that are written as they are. -/
def IsLexeme (kind : Token.Kind) (text : List Char) : Prop :=
  match kind with
  | .eof | .str => False
  | .semi => text = [terminator]
  | .num => IsNumeral text
  | .ident => IsName text
  | kind => ∃ c, text = [c] ∧ punctuation? c = some kind

theorem isLexeme_of_punctuation? {c : Char} {kind : Token.Kind} (h : punctuation? c = some kind) :
  IsLexeme kind [c]
  := by
  have hmark := h
  rw [punctuation?.eq_def] at hmark
  split at hmark <;> cases hmark <;> exact ⟨_, rfl, h⟩

theorem IsLexeme.ne_nil {kind : Token.Kind} {text : List Char} (h : IsLexeme kind text) :
  text ≠ []
  := by
  rintro rfl
  cases kind with
  | eof | str => cases h
  | semi => cases h
  | num | ident =>
    obtain ⟨⟨c, hhead, -⟩, -⟩ := h
    cases hhead
  | operator | lbrace | rbrace | lparen | rparen | lbracket | rbracket =>
    obtain ⟨c, htext, -⟩ := h
    cases htext

namespace Piece

/-- The piece has the shape of its kind. -/
def WellFormed : Piece → Prop
  | blank c => isBlank c
  | comment body => '\n' ∉ body
  | lexeme kind text => IsLexeme kind text
  | quoted body => '"' ∉ body
  | unrecognized c => isControl c ∧ isBlank c = false
  | unclosed body => '"' ∉ body

/-- The piece does not go on with the character `next` after it, or with the end of the text if
there is none. -/
def StopsBefore (p : Piece) (next : Option Char) : Prop :=
  match p with
  | comment _ => ∀ c ∈ next, c = '\n'
  | lexeme .num text => ∀ c ∈ next, ¬ IsNumber (text ++ [c])
  | lexeme .ident _ => ∀ c ∈ next, ¬ isIdentContinue c
  | lexeme .operator text => text = ['/'] → next ≠ some '/'
  | unclosed _ => next = none
  | _ => True

/-! ### The piece at a character -/

theorem frontAt_of_isBlank {c : Char} (h : isBlank c) (cs : List Char) :
  frontAt c cs = (blank c, cs)
  := by
  have hterminator : c ≠ terminator := by
    rintro rfl
    cases h
  rw [frontAt, if_neg hterminator, if_pos h]

theorem frontAt_of_isNumberStart {c : Char} (h : isNumberStart c) (cs : List Char) :
  frontAt c cs = (lexeme .num (splitNumber (c :: cs)).1, (splitNumber (c :: cs)).2)
  := by
  have hterminator : c ≠ terminator := by
    rintro rfl
    cases h
  have hblank : ¬ isBlank c := Bool.eq_false_iff.mp (isBlank_eq_false_of_isNumberStart h)
  rw [frontAt, if_neg hterminator, if_neg hblank, if_pos h]

theorem frontAt_of_punctuation? {c : Char} {kind : Token.Kind} (h : punctuation? c = some kind)
    (cs : List Char) :
  frontAt c cs = (lexeme kind [c], cs)
  := by
  have hblank : ¬ isBlank c := Bool.eq_false_iff.mp (isBlank_eq_false_of_punctuation? h)
  have hnumber : ¬ isNumberStart c :=
    Bool.eq_false_iff.mp (isNumberStart_eq_false_of_punctuation? h)
  rw [frontAt, if_neg (ne_terminator_of_punctuation? h), if_neg hblank, if_neg hnumber,
    if_neg (ne_quote_of_punctuation? h), h]

theorem frontAt_of_isIdentStart {c : Char} (h : isIdentStart c) (hpoint : c ≠ '.')
    (cs : List Char) :
  frontAt c cs = (lexeme .ident (c :: cs.takeWhile isIdentContinue), cs.dropWhile isIdentContinue)
  := by
  obtain ⟨hcontinue, -, hquote⟩ := isIdentStart_iff.mp h
  obtain ⟨hblank, -, hmark, hterminator⟩ := isIdentContinue_iff.mp hcontinue
  have hnumber : ¬ isNumberStart c :=
    Bool.eq_false_iff.mp (isNumberStart_eq_false_of_isIdentStart h hpoint)
  rw [frontAt, if_neg hterminator, if_neg (Bool.eq_false_iff.mp hblank), if_neg hnumber,
    if_neg hquote, hmark]
  simp only [h, if_true]

theorem frontAt_of_isControl {c : Char} (h : isControl c) (hblank : isBlank c = false)
    (cs : List Char) :
  frontAt c cs = (unrecognized c, cs)
  := by
  obtain ⟨hterminator, hnumber, hquote, hmark, hstart⟩ := class_of_isControl h hblank
  rw [frontAt, if_neg hterminator, if_neg (Bool.eq_false_iff.mp hblank),
    if_neg (Bool.eq_false_iff.mp hnumber), if_neg hquote, hmark]
  simp only [hstart, Bool.false_eq_true, if_false]

/-! ### Pieces found have their shape and stop where they have to -/

theorem wellFormed_frontQuoted (cs : List Char) :
  (frontQuoted cs).1.WellFormed ∧ (frontQuoted cs).1.StopsBefore (frontQuoted cs).2.head?
  := by
  rw [frontQuoted]
  split
  · next h =>
    constructor
    · intro hquote
      have := List.dropWhile_eq_nil_iff.mp h '"' hquote
      simp at this
    · rfl
  · constructor
    · apply not_mem_takeWhile_ne
    · trivial

/-- What is taken off a text that starts with a digit or a point is the text of a number. -/
theorem isNumeral_splitNumber {c : Char} (h : isNumberStart c) (cs : List Char) :
  IsNumeral (splitNumber (c :: cs)).1
  := by
  refine ⟨?_, isNumber_splitNumber (c :: cs)⟩
  have hcs := splitNumber_append (c :: cs)
  obtain ⟨d, ds, hds⟩ := List.exists_cons_of_ne_nil (splitNumber_ne_nil h cs)
  rw [hds] at hcs ⊢
  obtain ⟨rfl, -⟩ := List.cons.inj hcs
  exact ⟨d, rfl, h⟩

theorem wellFormed_frontAt (c : Char) (cs : List Char) (hslash : c = '/' → cs.head? ≠ some '/') :
  (frontAt c cs).1.WellFormed ∧ (frontAt c cs).1.StopsBefore (frontAt c cs).2.head?
  := by
  rw [frontAt]
  split
  · next h =>
    constructor
    · rw [h]
      rfl
    · trivial
  split
  · next h => exact ⟨h, trivial⟩
  split
  · next h =>
    obtain ⟨-, -, hstop⟩ := splitNumber_eq_iff.mp (Prod.eta (splitNumber (c :: cs))).symm
    exact ⟨isNumeral_splitNumber h cs, hstop⟩
  split
  · apply wellFormed_frontQuoted
  split
  · next kind h =>
    constructor
    · apply isLexeme_of_punctuation? h
    · rw [punctuation?.eq_def] at h
      split at h <;> cases h <;> first | trivial | exact fun _ => by simp_all
  next hterminator hblank hnumber hquote _ hmark =>
  split
  · next hstart =>
    constructor
    · constructor
      · use c, rfl, hstart
        rintro rfl
        apply hnumber rfl
      · intro d hd
        obtain rfl | hd := List.mem_cons.mp hd
        · exact (isIdentStart_iff.mp hstart).1
        · apply List.mem_takeWhile_imp hd
    · intro d hd
      have := List.head?_dropWhile_not isIdentContinue cs
      rw [Option.mem_def.mp hd] at this
      exact Bool.not_eq_true _ ▸ this
  · next hstart =>
    rw [Bool.not_eq_true] at hblank hnumber
    exact ⟨⟨isControl_of_not_isIdentStart hterminator hblank hnumber hquote hmark hstart, hblank⟩,
      trivial⟩

theorem front?_cons {c : Char} {cs : List Char} (h : c = '/' → cs.head? ≠ some '/') :
  front? (c :: cs) = some (frontAt c cs)
  := by
  rw [front?.eq_def]
  split
  · contradiction
  · next heq =>
    obtain ⟨rfl, rfl⟩ := List.cons.inj heq
    exact absurd rfl (h rfl)
  · next heq =>
    obtain ⟨rfl, rfl⟩ := List.cons.inj heq
    rfl

/-- A piece found at the front of a text has its shape and stops where it has to. -/
theorem wellFormed_of_front? {cs rest : List Char} {p : Piece} (h : front? cs = some (p, rest)) :
  p.WellFormed ∧ p.StopsBefore rest.head?
  := by
  cases cs with
  | nil => cases h
  | cons c cs =>
    by_cases hslash : c = '/' → cs.head? ≠ some '/'
    · have hfront := wellFormed_frontAt c cs hslash
      rw [front?_cons hslash] at h
      rwa [Option.some.inj h] at hfront
    · rw [Classical.not_imp, not_not] at hslash
      obtain ⟨rfl, hhead⟩ := hslash
      obtain ⟨cs, rfl⟩ := List.head?_eq_some_iff.mp hhead
      cases h
      constructor
      · apply not_mem_takeWhile_ne
      · intro d hd
        apply eq_of_mem_head?_dropWhile_ne hd

/-! ### A piece that has its shape and stops where it has to is found -/

theorem takeWhile_append_of_stop {f : Char → Bool} {cs : List Char} (h : ∀ c ∈ cs, f c)
    (rest : List Char) (hstop : ∀ c ∈ rest.head?, ¬ f c) :
  (cs ++ rest).takeWhile f = cs ∧ (cs ++ rest).dropWhile f = rest
  := by
  rw [List.takeWhile_append_of_pos h, List.dropWhile_append_of_pos h]
  cases rest with
  | nil => simp
  | cons d rest =>
    have hd : ¬ f d := hstop d rfl
    simp [hd]

theorem frontQuoted_of_mem {body : List Char} (h : '"' ∉ body) (rest : List Char) :
  frontQuoted (body ++ '"' :: rest) = (quoted body, rest)
  := by
  have hall : ∀ c ∈ body, decide (c ≠ '"') = true := by
    intro c hc
    apply decide_eq_true
    rintro rfl
    apply h hc
  obtain ⟨htake, hdrop⟩ := takeWhile_append_of_stop hall ('"' :: rest) (by simp)
  rw [frontQuoted, htake, hdrop]

theorem frontQuoted_of_not_mem {body : List Char} (h : '"' ∉ body) :
  frontQuoted body = (unclosed body, [])
  := by
  have hall : ∀ c ∈ body, decide (c ≠ '"') = true := by
    intro c hc
    apply decide_eq_true
    rintro rfl
    apply h hc
  rw [frontQuoted, List.dropWhile_eq_nil_iff.mpr hall]

theorem front?_of_isNumeral {text rest : List Char} (h : IsNumeral text)
    (hstop : ∀ c ∈ rest.head?, ¬ IsNumber (text ++ [c])) :
  front? (text ++ rest) = some (lexeme .num text, rest)
  := by
  obtain ⟨⟨c, hhead, hc⟩, hnumber⟩ := h
  have hsplit := splitNumber_eq_iff.mpr ⟨rfl, hnumber, hstop⟩
  obtain ⟨cs, rfl⟩ := List.head?_eq_some_iff.mp hhead
  have hslash : c ≠ '/' := by
    rintro rfl
    cases hc
  rw [List.cons_append] at hsplit ⊢
  rw [front?_cons (absurd · hslash), frontAt_of_isNumberStart hc, hsplit]

theorem front?_of_isName {text rest : List Char} (h : IsName text)
    (hstop : ∀ c ∈ rest.head?, ¬ isIdentContinue c) :
  front? (text ++ rest) = some (lexeme .ident text, rest)
  := by
  obtain ⟨⟨c, hhead, hc, hpoint⟩, hall⟩ := h
  obtain ⟨cs, rfl⟩ := List.head?_eq_some_iff.mp hhead
  have hslash : c ≠ '/' := by
    rintro rfl
    cases hc
  have hrest : ∀ d ∈ cs, isIdentContinue d := by
    intro d hd
    apply hall d (List.mem_cons_of_mem c hd)
  obtain ⟨htake, hdrop⟩ := takeWhile_append_of_stop hrest rest hstop
  rw [List.cons_append, front?_cons (absurd · hslash), frontAt_of_isIdentStart hc hpoint, htake,
    hdrop]

theorem front?_of_punctuation? {c : Char} {kind : Token.Kind} (h : punctuation? c = some kind)
    {rest : List Char} (hslash : c = '/' → rest.head? ≠ some '/') :
  front? (c :: rest) = some (lexeme kind [c], rest)
  := by
  rw [front?_cons hslash, frontAt_of_punctuation? h]

theorem front?_of_isLexeme {kind : Token.Kind} {text rest : List Char} (h : IsLexeme kind text)
    (hstop : (lexeme kind text).StopsBefore rest.head?) :
  front? (text ++ rest) = some (lexeme kind text, rest)
  := by
  cases kind with
  | eof | str => cases h
  | semi =>
    obtain rfl := h
    rfl
  | num => apply front?_of_isNumeral h hstop
  | ident => apply front?_of_isName h hstop
  | operator =>
    obtain ⟨c, rfl, hc⟩ := h
    apply front?_of_punctuation? hc
    rintro rfl
    apply hstop rfl
  | lbrace | rbrace | lparen | rparen | lbracket | rbracket =>
    obtain ⟨c, rfl, hc⟩ := h
    apply front?_of_punctuation? hc
    rintro rfl
    cases hc

theorem front?_of_wellFormed {p : Piece} {rest : List Char} (h : p.WellFormed)
    (hstop : p.StopsBefore rest.head?) :
  front? (p.source ++ rest) = some (p, rest)
  := by
  cases p with
  | blank c =>
    have hslash : c ≠ '/' := by
      rintro rfl
      cases h
    rw [source, List.singleton_append, front?_cons (absurd · hslash), frontAt_of_isBlank h]
  | comment body =>
    have hall : ∀ c ∈ body, decide (c ≠ '\n') = true := by
      intro c hc
      apply decide_eq_true
      rintro rfl
      apply h hc
    obtain ⟨htake, hdrop⟩ := takeWhile_append_of_stop hall rest
      (by simpa [StopsBefore] using hstop)
    rw [source, List.cons_append, List.cons_append, front?, htake, hdrop]
  | lexeme kind text => apply front?_of_isLexeme h hstop
  | quoted body =>
    rw [source, List.cons_append, List.cons_append, List.append_assoc, List.singleton_append,
      front?_cons (absurd · (by decide))]
    apply congrArg some (frontQuoted_of_mem h rest)
  | unrecognized c =>
    have hslash : c ≠ '/' := by
      rintro rfl
      cases h.1
    rw [source, List.singleton_append, front?_cons (absurd · hslash), frontAt_of_isControl h.1 h.2]
  | unclosed body =>
    obtain rfl := List.head?_eq_none_iff.mp hstop
    rw [List.append_nil, source, front?_cons (absurd · (by decide))]
    apply congrArg some (frontQuoted_of_not_mem h)

/-- `p` is the first piece of a text exactly if the text starts with it, it has its shape, and it
stops before the character that follows. -/
theorem front?_eq_some_iff {cs rest : List Char} {p : Piece} :
  front? cs = some (p, rest) ↔ cs = p.source ++ rest ∧ p.WellFormed ∧ p.StopsBefore rest.head?
  := by
  constructor
  · intro h
    use (source_append_of_front? h).symm
    apply wellFormed_of_front? h
  · rintro ⟨rfl, h, hstop⟩
    apply front?_of_wellFormed h hstop

end Piece

end EquationLang
