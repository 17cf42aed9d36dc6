import EquationLang.Proofs.Diagnostic.Rendering

/-!
# Line breaks in rendered errors

A rendered diagnostic is three lines: a header, the line of the text and the caret.  The line and
the caret are free of line breaks, and so is all that a header says in words of its own, the
position and the code points of characters included.  But a message may show the token that was
found, and the text of a string literal may have line breaks; then the header, and it alone, takes
up more lines (`three_lines_unless_quoted`).
-/

namespace EquationLang

/-! ### Numbers in messages -/

theorem exists_digitChar_of_mem_toDigits {b n : Nat} (hb : 1 < b) {c : Char}
    (h : c ∈ Nat.toDigits b n) :
  ∃ d < b, c = Nat.digitChar d
  := by
  induction n using Nat.strong_induction_on with
  | h n ih =>
    rw [Nat.toDigits_eq_if hb] at h
    split at h
    · next hlt => exact ⟨n, hlt, List.mem_singleton.mp h⟩
    · next hle =>
      obtain h | h := List.mem_append.mp h
      · exact ih (n / b) (Nat.div_lt_self (by omega) hb) h
      · exact ⟨n % b, Nat.mod_lt n (by omega), List.mem_singleton.mp h⟩

/-- No digit is a line break, in upper case neither. -/
theorem digitChar_ne_newline :
  ∀ d < 16, Nat.digitChar d ≠ '\n' ∧ (Nat.digitChar d).toUpper ≠ '\n'
  := by
  decide

theorem newline_not_mem_toDigits {b : Nat} (hb : 1 < b) (hb' : b ≤ 16) (n : Nat) :
  '\n' ∉ Nat.toDigits b n ∧ '\n' ∉ (Nat.toDigits b n).map Char.toUpper
  := by
  constructor
  · intro h
    obtain ⟨d, hlt, hd⟩ := exists_digitChar_of_mem_toDigits hb h
    exact (digitChar_ne_newline d (hlt.trans_le hb')).1 hd.symm
  · intro h
    obtain ⟨c, hc, hupper⟩ := List.mem_map.mp h
    obtain ⟨d, hlt, rfl⟩ := exists_digitChar_of_mem_toDigits hb hc
    exact (digitChar_ne_newline d (hlt.trans_le hb')).2 hupper

theorem Position.newline_not_mem_text (p : Position) :
  '\n' ∉ p.text.toList
  := by
  rw [text, Nat.toString_eq_ofList_toDigits, Nat.toString_eq_ofList_toDigits]
  simp [newline_not_mem_toDigits]

/-! ### Messages -/

theorem Piece.newline_not_mem_controlText (c : Char) :
  '\n' ∉ (controlText c).toList
  := by
  rw [controlText]
  split
  · decide
  · simp [newline_not_mem_toDigits]

theorem Piece.newline_not_mem_codePointText (c : Char) :
  '\n' ∉ (codePointText c).toList
  := by
  have hdigits := (newline_not_mem_toDigits (b := 16) (by decide) (by decide) c.toNat).2
  simp only [codePointText, String.toList_append, String.toList_ofList, List.mem_append, not_or]
  refine ⟨by decide, ?_, hdigits⟩
  intro hmem
  cases List.eq_of_mem_replicate hmem

/-- The message of a lexical fault has no line break. -/
theorem Piece.newline_not_mem_of_fault? {p : Piece} {code : Diagnostic.Code} {message : String}
    (h : p.fault? = some (code, message)) :
  '\n' ∉ message.toList
  := by
  cases p with
  | unrecognized c =>
    cases h
    have hcontrol := newline_not_mem_controlText c
    have hcode := newline_not_mem_codePointText c
    simp [String.toList_append, hcontrol, hcode]
  | unclosed body =>
    cases h
    decide
  | blank | comment | lexeme | quoted => cases h

theorem Token.IsProper.isLexeme {t : Token} (h : t.IsProper)
    (hkind : t.kind ∉ [.eof, .semi, .str]) :
  IsLexeme t.kind t.text.toList
  := by
  rw [Token.IsProper] at h
  split at h
  all_goals simp_all

theorem Token.Kind.newline_not_mem_text (kind : Token.Kind) :
  '\n' ∉ kind.text.toList
  := by
  cases kind <;> decide

/-- A token is shown with a line break only if it is a string literal with one. -/
theorem Token.newline_mem_display_iff {t : Token} (h : t.IsProper) :
  '\n' ∈ t.display.toList ↔ t.kind = .str ∧ '\n' ∈ t.text.toList
  := by
  rw [display]
  split
  · next hsemi => simp [hsemi, Kind.newline_not_mem_text]
  · next heof => simp [heof, Kind.newline_not_mem_text]
  · next hsemi heof =>
    by_cases hstr : t.kind = .str
    · simp [hstr, Kind.newline_not_mem_text]
    · have hkind : t.kind ∉ [.eof, .semi, .str] := by
        simpa using ⟨heof, hsemi, hstr⟩
      have hlexeme : '\n' ∉ t.text.toList := by
        intro hmem
        cases ((h.isLexeme hkind).class_of_mem hmem).1
      simp [hlexeme, hstr, Kind.newline_not_mem_text]

/-- Whether a diagnostic with this code shows the token that was found. -/
def Diagnostic.Code.showsToken : Diagnostic.Code → Bool
  | unexpectedToken | expectedRParen | expectedRBracket | badCallArgs | extraToken => true
  | _ => false

theorem Fault.newline_mem_message_iff (f : Fault) :
  '\n' ∈ f.message.toList ↔ f.code.showsToken ∧ '\n' ∈ f.found.display.toList
  := by
  obtain ⟨complaint, found⟩ := f
  cases complaint with
  | noOperand =>
    rw [message, code]
    dsimp only
    split <;> simp [Diagnostic.Code.showsToken]
  | tooDeep => simp [message, code, Diagnostic.Code.showsToken]; decide
  | emptyEquation | noTerminator => simp [message, code, Diagnostic.Code.showsToken]
  | noCloseParen | noCloseBracket | badArgument | noArgumentEnd | noEquationEnd =>
    simp [message, code, Diagnostic.Code.showsToken]

/-! ### Messages that quote a line break -/

/-- No other token begins where the text of a string literal does. -/
theorem Laid.eq_of_pos_eq {cs : List Char} {start : Nat} {ts : List Token} (h : Laid cs start ts)
    {t u : Token} (ht : t ∈ ts) (hu : u ∈ ts) (hkind : t.kind = .str) (hpos : u.pos = t.pos) :
  u = t
  := by
  have hinserted : t.isInserted cs = false := by
    simp [Token.isInserted, Token.isOp, hkind]
  have hstop : t.sourceStop cs = t.stop + 1 := by
    rw [Token.sourceStop, hinserted, if_neg (by simp), if_pos hkind]
  have hstart : t.sourceStart + 1 = t.pos := by
    obtain ⟨-, hslice⟩ := h.slice?_of_str ht hkind
    obtain ⟨_, _, -, -, hlength⟩ := slice?_eq_some_iff.mp hslice
    have hquote : '"'.utf8Size = 1 := by decide
    rw [hstop, Token.stop, byteLength_cons, byteLength_append, byteLength_cons, byteLength_nil,
      hquote, ← utf8ByteSize_eq_byteLength] at hlength
    omega
  have hsymm : Std.Symm fun t u : Token =>
      t.sourceStop cs ≤ u.sourceStart ∨ u.sourceStop cs ≤ t.sourceStart := ⟨fun _ _ => Or.symm⟩
  by_contra hne
  have hpos_le : t.pos ≤ t.stop := Nat.le_add_right _ _
  have := u.sourceStart_le_pos
  have := u.pos_le_sourceStop cs
  have hpairwise := h.pairwise.imp fun {t u} hle =>
    (Or.inl hle : t.sourceStop cs ≤ u.sourceStart ∨ u.sourceStop cs ≤ t.sourceStart)
  obtain hle | hle := hpairwise.forall hu ht hne
  · omega
  · omega

/-- The diagnostic of the equation `eqn` shows the token at its position, and this is a string
literal with a line break. -/
def QuotesLineBreak (eqn : String) (d : Diagnostic) : Prop :=
  d.code.showsToken ∧ ∃ t ∈ equationTokens eqn,
    t.kind = .str ∧ t.pos = d.pos.offset ∧ '\n' ∈ t.text.toList

/-- The message of a diagnostic has a line break exactly if it quotes one. -/
theorem newline_mem_message_iff {name eqn : String} {err : ParseError}
    (h : parse name eqn = .error err) {d : Diagnostic} (hd : d ∈ err.diagnostics) :
  '\n' ∈ d.message.toList ↔ QuotesLineBreak eqn d
  := by
  obtain hlexical | ⟨fault, hfound, rfl⟩ := (mem_diagnostics h).2 d hd
  · obtain ⟨p, hfault⟩ := exists_piece_of_mem_lexicalErrors hlexical
    constructor
    · intro hmem
      exact absurd hmem (Piece.newline_not_mem_of_fault? hfault)
    · rintro ⟨hshows, -⟩
      have hcode := (Piece.lexical_of_fault? hfault).1
      revert hshows hcode
      cases d.code <;> simp [Diagnostic.Code.showsToken, Diagnostic.Code.isLexical]
  · have hoffset : (equationPosition eqn fault.found.pos).offset = fault.found.pos :=
      offset_of_positionIn? (positionIn?_of_mem_equationTokens hfound)
    have hproper := isProper_of_mem_equationTokens _ hfound
    change '\n' ∈ fault.message.toList ↔ _
    rw [fault.newline_mem_message_iff, Token.newline_mem_display_iff hproper]
    constructor
    · rintro ⟨hshows, hkind, hmem⟩
      exact ⟨hshows, fault.found, hfound, hkind, hoffset.symm, hmem⟩
    · rintro ⟨hshows, t, ht, hkind, hpos, hmem⟩
      have hlaid := Cursor.laid_read (Cursor.start_isIn (normalize eqn).toList)
      rw [← equationTokens_eq_read] at hlaid
      obtain rfl : fault.found = t := by
        apply hlaid.eq_of_pos_eq ht hfound hkind
        rw [hpos, ← hoffset]
        rfl
      exact ⟨hshows, hkind, hmem⟩

/-! ### The lines of a rendered diagnostic -/

/-- The text is three lines, each ended by a line break. -/
def IsThreeLines (shown : String) : Prop :=
  ∃ header line caret : List Char, '\n' ∉ header ∧ '\n' ∉ line ∧ '\n' ∉ caret
    ∧ shown.toList = header ++ '\n' :: (line ++ '\n' :: (caret ++ ['\n']))

theorem newline_not_mem_expandTabs {line : List Char} (h : '\n' ∉ line) :
  '\n' ∉ expandTabs line
  := by
  intro hmem
  obtain ⟨c, hc, hmem⟩ := List.mem_flatMap.mp hmem
  split at hmem
  · cases List.eq_of_mem_replicate hmem
  · obtain rfl := List.mem_singleton.mp hmem
    exact h hc

/-- The line around an offset has no line break. -/
theorem newline_not_mem_of_sourceLine? {cs line : List Char} {offset : Nat}
    (h : sourceLine? cs offset = some line) :
  '\n' ∉ line
  := by
  obtain ⟨before, -, h⟩ := Option.bind_eq_some_iff.mp h
  obtain ⟨behind, -, h⟩ := Option.bind_eq_some_iff.mp h
  obtain rfl := Option.some.inj h
  rw [List.mem_append]
  rintro (hmem | hmem)
  · exact newline_not_mem_lastLine before hmem
  · exact not_mem_takeWhile_ne '\n' behind hmem

/-- The line breaks of three parts that are each ended by a line break, if only the first part may
have some of its own. -/
theorem count_newline_of_lines {header line caret : List Char} (hline : '\n' ∉ line)
    (hcaret : '\n' ∉ caret) :
  (header ++ '\n' :: (line ++ '\n' :: (caret ++ ['\n']))).count '\n' = 3 + header.count '\n'
  := by
  simp only [List.count_append, List.count_cons_self, List.count_nil,
    List.count_eq_zero_of_not_mem hline, List.count_eq_zero_of_not_mem hcaret]
  omega

/-- A text in three parts of this kind is three lines exactly if the first part is one. -/
theorem isThreeLines_iff {shown : String} {header line caret : List Char}
    (h : shown.toList = header ++ '\n' :: (line ++ '\n' :: (caret ++ ['\n'])))
    (hline : '\n' ∉ line) (hcaret : '\n' ∉ caret) :
  IsThreeLines shown ↔ '\n' ∉ header
  := by
  constructor
  · rintro ⟨header', line', caret', hheader', hline', hcaret', h'⟩
    have hcount := congrArg (List.count '\n') (h.symm.trans h')
    rw [count_newline_of_lines hline hcaret, count_newline_of_lines hline' hcaret',
      List.count_eq_zero_of_not_mem hheader', Nat.add_left_cancel_iff] at hcount
    exact List.count_eq_zero.mp hcount
  · intro hheader
    exact ⟨header, line, caret, hheader, hline, hcaret, h⟩

theorem Diagnostic.count_newline_header {name : String} (hname : '\n' ∉ name.toList)
    (d : Diagnostic) :
  (d.header name).toList.count '\n' = d.message.toList.count '\n'
  := by
  simp [header, List.count_eq_zero_of_not_mem hname,
    List.count_eq_zero_of_not_mem d.pos.newline_not_mem_text]

/-- A rendered diagnostic has a line break after its header, its line and its caret, and besides
them those of its message. -/
theorem Diagnostic.lines_of_render? {name shown : String} {cs : List Char} {d : Diagnostic}
    (hname : '\n' ∉ name.toList) (h : d.render? name cs = some shown) :
  shown.toList.count '\n' = 3 + d.message.toList.count '\n'
    ∧ (IsThreeLines shown ↔ '\n' ∉ d.message.toList)
  := by
  obtain ⟨line, hsource, h⟩ := Option.bind_eq_some_iff.mp h
  have hline := newline_not_mem_expandTabs (newline_not_mem_of_sourceLine? hsource)
  obtain ⟨caret, hcaret, hshown⟩ : ∃ caret, '\n' ∉ caret ∧ shown.toList
      = (d.header name).toList ++ '\n' :: (expandTabs line ++ '\n' :: (caret ++ ['\n'])) := by
    rw [← Option.some.inj h]
    refine ⟨List.replicate ((line.take (d.pos.column - 1)).foldl (fun n c => n + columnWidth c) 0)
      ' ' ++ ['^'], ?_, ?_⟩
    · simp
    · simp [String.toList_append]
  have hheader := d.count_newline_header hname
  constructor
  · rw [hshown, count_newline_of_lines hline hcaret, hheader]
  · rw [isThreeLines_iff hshown hline hcaret, ← List.count_eq_zero, hheader, List.count_eq_zero]

/-- A parse error can be rendered, and each diagnostic is shown in three lines, unless it quotes a
string literal with a line break; then its header takes up as many more lines as there are line
breaks in the message. -/
theorem three_lines_unless_quoted {name eqn : String} {err : ParseError}
    (hname : '\n' ∉ name.toList) (h : parse name eqn = .error err) :
  (∀ d ∈ err.diagnostics, '\n' ∈ d.message.toList ↔ QuotesLineBreak eqn d)
    ∧ ∃ shown, err.render? = some (String.join shown)
      ∧ List.Forall₂ (fun d part => (IsThreeLines part ↔ ¬ QuotesLineBreak eqn d)
          ∧ part.toList.count '\n' = 3 + d.message.toList.count '\n') err.diagnostics shown
  := by
  use fun d hd => newline_mem_message_iff h hd
  have hshown : ∀ d ∈ err.diagnostics, ∃ part, d.render? err.name err.text.toList = some part
      ∧ ((IsThreeLines part ↔ ¬ QuotesLineBreak eqn d)
        ∧ part.toList.count '\n' = 3 + d.message.toList.count '\n') := by
    intro d hd
    have hposition := positionIn?_of_mem_diagnostics h hd
    rw [← (mem_diagnostics h).1] at hposition
    obtain ⟨part, hpart, -⟩ := Diagnostic.exists_points err.name hposition
    rw [← name_of_parse h] at hname
    obtain ⟨hcount, hlines⟩ := Diagnostic.lines_of_render? hname hpart
    rw [newline_mem_message_iff h hd] at hlines
    exact ⟨part, hpart, hlines, hcount⟩
  obtain ⟨shown, hmap, hparts⟩ := exists_mapM_eq_some hshown
  use shown
  constructor
  · rw [ParseError.render?, hmap]
    rfl
  · exact hparts

/-- A call with an argument that is a string literal on one line, and one on two lines. -/
theorem three_lines_of_literals :
  ∃ err err', parse "y" "f(\"a\")" = .error err ∧ parse "y" "f(\"a\nb\")" = .error err'
    ∧ err.render? = some "y:1:4: error: unexpected token (lit a)\nf(\"a\");\n   ^\n"
    ∧ err'.render? = some "y:1:4: error: unexpected token (lit a\nb)\nf(\"a\n   ^\n"
    ∧ (∀ d ∈ err.diagnostics, '\n' ∈ d.message.toList ↔ QuotesLineBreak "f(\"a\")" d)
    ∧ (∀ d ∈ err'.diagnostics, '\n' ∈ d.message.toList ↔ QuotesLineBreak "f(\"a\nb\")" d)
  := by
  have herror : parse "y" "f(\"a\")" = .error ⟨"y", "f(\"a\");",
      [⟨.unexpectedToken, "unexpected token (lit a)", ⟨3, 1, 4⟩⟩]⟩ := by
    decide +kernel
  have herror' : parse "y" "f(\"a\nb\")" = .error ⟨"y", "f(\"a\nb\");",
      [⟨.unexpectedToken, "unexpected token (lit a\nb)", ⟨3, 1, 4⟩⟩]⟩ := by
    decide +kernel
  exact ⟨_, _, herror, herror', by decide +kernel, by decide +kernel,
    (three_lines_unless_quoted (by decide) herror).1,
    (three_lines_unless_quoted (by decide) herror').1⟩

/-- Four lines are shown for one diagnostic, which quotes a string literal on two lines. -/
theorem four_lines_shown :
  '\n' ∉ "y".toList
    ∧ ∃ err d shown, parse "y" "\"a\nb\"" = .error err ∧ err.diagnostics = [d]
      ∧ '\n' ∈ d.message.toList ∧ err.render? = some shown ∧ shown.toList.count '\n' = 4
      ∧ ¬ IsThreeLines shown
  := by
  have herror : parse "y" "\"a\nb\"" = .error ⟨"y", "\"a\nb\";",
      [⟨.unexpectedToken, "unexpected token (lit a\nb)", ⟨1, 1, 2⟩⟩]⟩ := by
    decide +kernel
  have hshown : "y:1:2: error: unexpected token (lit a\nb)\n\"a\n ^\n".toList
      = "y:1:2: error: unexpected token (lit a\nb)".toList ++ '\n' :: ("\"a".toList
        ++ '\n' :: (" ^".toList ++ ['\n'])) := by
    decide
  refine ⟨by decide, _, _, "y:1:2: error: unexpected token (lit a\nb)\n\"a\n ^\n", herror, rfl,
    by decide, by decide +kernel, by decide, ?_⟩
  rw [isThreeLines_iff hshown (by decide) (by decide)]
  decide

end EquationLang
