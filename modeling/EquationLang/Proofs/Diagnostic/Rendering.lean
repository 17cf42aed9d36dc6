import EquationLang.Proofs.Grammar.ErrorPosition

/-!
# The caret points at the fault

A rendered diagnostic shows the line of the text that its offset lies in, and a caret under it.  The
column, counted in characters when the position was found, and the line, cut out of the text at its
line breaks, belong to the same place: the spaces before the caret are as many as the columns of the
shown line up to the offset (`caret_points_at_fault`).
-/

namespace EquationLang

/-! ### The line around an offset -/

/-- The line that `offset` lies in starts at `start`: at the start of the text or right after the
last line break before `offset`. -/
structure IsLineStart (cs : List Char) (offset start : Nat) : Prop where
  le : start ≤ offset
  isStart : start = 0 ∨ ∃ p, charAt? cs p = some '\n' ∧ start = p + 1
  noBreak : ∀ p, start ≤ p → p < offset → charAt? cs p ≠ some '\n'

/-- The line that starts at `start` stops at `stop`: at the next line break or at the end of the
text. -/
structure IsLineStop (cs : List Char) (start stop : Nat) : Prop where
  le : start ≤ stop
  isStop : stop = byteLength cs ∨ charAt? cs stop = some '\n'
  noBreak : ∀ p, start ≤ p → p < stop → charAt? cs p ≠ some '\n'

theorem newline_not_mem_lastLine (cs : List Char) :
  '\n' ∉ lastLine cs
  := by
  rw [lastLine, List.mem_reverse]
  apply not_mem_takeWhile_ne

/-- Before the last line of a text there is nothing, or a line break. -/
theorem exists_append_lastLine (cs : List Char) :
  ∃ lines, cs = lines ++ lastLine cs ∧ (lines = [] ∨ ∃ front, lines = front ++ ['\n'])
  := by
  induction cs using List.reverseRecOn with
  | nil => exact ⟨[], rfl, .inl rfl⟩
  | append_singleton cs c ih =>
    obtain ⟨lines, hcs, hlines⟩ := ih
    rw [lastLine_concat]
    split
    · next hc =>
      subst hc
      exact ⟨cs ++ ['\n'], (List.append_nil _).symm, .inr ⟨cs, rfl⟩⟩
    · use lines
      rw [← List.append_assoc, ← hcs]
      exact ⟨rfl, hlines⟩

/-- A part of a text without line breaks has none at its offsets. -/
theorem charAt?_ne_of_slice? {cs part : List Char} {start stop : Nat}
    (h : slice? cs start stop = some part) (hbreak : '\n' ∉ part) :
  ∀ p, start ≤ p → p < stop → charAt? cs p ≠ some '\n'
  := by
  intro p hstart hstop hc
  obtain ⟨before, behind, rfl, -⟩ := mem_of_charAt? h hc hstart hstop
  exact hbreak (List.mem_append_right _ List.mem_cons_self)

/-- The line around the place between two parts of a text lies between the last line break of the
first part and the first line break of the second one. -/
theorem exists_line (before behind : List Char) :
  ∃ start stop, IsLineStart (before ++ behind) (byteLength before) start
    ∧ IsLineStop (before ++ behind) start stop
    ∧ slice? (before ++ behind) start (byteLength before) = some (lastLine before)
    ∧ slice? (before ++ behind) start stop
      = some (lastLine before ++ behind.takeWhile (· ≠ '\n'))
    ∧ (behind.takeWhile (· ≠ '\n')).head?
      = if byteLength before = stop then none else charAt? (before ++ behind) (byteLength before)
  := by
  obtain ⟨lines, hbefore, hlines⟩ := exists_append_lastLine before
  set ahead := lastLine before
  set upTo := behind.takeWhile (· ≠ '\n')
  set others := behind.dropWhile (· ≠ '\n') with hothers
  have hbehind : behind = upTo ++ others := List.takeWhile_append_dropWhile.symm
  have htext : before ++ behind = lines ++ ((ahead ++ upTo) ++ others) := by
    rw [hbefore, hbehind]
    simp only [List.append_assoc]
  have hoffset : byteLength before = byteLength lines + byteLength ahead := by
    rw [← byteLength_append, ← hbefore]
  have hslice : slice? (before ++ behind) (byteLength lines)
      (byteLength lines + byteLength (ahead ++ upTo)) = some (ahead ++ upTo) := by
    rw [htext]
    apply slice?_append
  have hslice' : slice? (before ++ behind) (byteLength lines) (byteLength before) = some ahead := by
    rw [hoffset]
    apply (slice?_of_append ahead hslice).1
  have hbreak : '\n' ∉ ahead ++ upTo := by
    rw [List.mem_append]
    rintro (hmem | hmem)
    · exact newline_not_mem_lastLine before hmem
    · exact not_mem_takeWhile_ne '\n' behind hmem
  refine ⟨byteLength lines, _, ⟨?_, ?_, ?_⟩,
    ⟨Nat.le_add_right _ _, ?_, charAt?_ne_of_slice? hslice hbreak⟩, hslice', hslice, ?_⟩
  · rw [hoffset]
    apply Nat.le_add_right
  · obtain hlines | ⟨front, hlines⟩ := hlines
    · left
      rw [hlines, byteLength_nil]
    · right
      refine ⟨byteLength front, ?_, ?_⟩
      · rw [htext, hlines, List.append_assoc]
        apply charAt?_append
      · rw [hlines, byteLength_append]
        rfl
  · apply charAt?_ne_of_slice? hslice'
    exact fun hmem => hbreak (List.mem_append_left _ hmem)
  · cases hcases : others with
    | nil =>
      left
      rw [htext, hcases, List.append_nil, ← byteLength_append]
    | cons c rest =>
      right
      have hmem : c ∈ (behind.dropWhile (· ≠ '\n')).head? := by
        rw [← hothers, hcases]
        rfl
      have hc := eq_of_mem_head?_dropWhile_ne hmem
      rw [htext, ← byteLength_append, ← List.append_assoc, charAt?_append, hcases, hc]
      rfl
  · rw [charAt?_append, hoffset, byteLength_append]
    cases hcases : upTo with
    | nil => simp
    | cons c rest =>
      have := c.utf8Size_pos
      rw [if_neg (by rw [byteLength_cons]; omega), hbehind, hcases]
      rfl

/-! ### Columns -/

theorem expandTabs_append (line line' : List Char) :
  expandTabs (line ++ line') = expandTabs line ++ expandTabs line'
  := List.flatMap_append

theorem length_expandTabs_singleton (c : Char) :
  (expandTabs [c]).length = columnWidth c
  := by
  rw [expandTabs, List.flatMap_singleton, columnWidth]
  split
  · apply List.length_replicate
  · rfl

/-- The columns of a line are those of its form without tabs. -/
theorem foldl_columnWidth (line : List Char) (n : Nat) :
  line.foldl (fun n c => n + columnWidth c) n = n + (expandTabs line).length
  := by
  induction line generalizing n with
  | nil => rfl
  | cons c line ih =>
    rw [List.foldl_cons, ih, ← List.singleton_append, expandTabs_append, List.length_append,
      ← Nat.add_assoc, length_expandTabs_singleton]

/-- The line around a place, as it is looked up. -/
theorem sourceLine?_append (before behind : List Char) :
  sourceLine? (before ++ behind) (byteLength before)
    = some (lastLine before ++ behind.takeWhile (· ≠ '\n'))
  := by
  have hmin : min (byteLength before) (byteLength (before ++ behind)) = byteLength before := by
    rw [byteLength_append]
    apply Nat.min_eq_left (Nat.le_add_right _ _)
  rw [sourceLine?, hmin, takeBytes?_append, dropBytes?_append]
  rfl

/-! ### The rendered diagnostic -/

/-- `shown` is the diagnostic `d` under the line of `cs` between `start` and `stop`: its header; the
line, which is `ahead` up to the offset and `behind` from there on, without its tabs; and a caret
after as many spaces as the columns of `ahead`, which the shown line begins with.  So the caret
stands under the character at the offset, or past the line if the offset is where the line stops. -/
structure Diagnostic.Points (name : String) (cs : List Char) (d : Diagnostic) (start stop : Nat)
    (ahead behind : List Char) (shown : String) : Prop where
  isLineStart : IsLineStart cs d.pos.offset start
  isLineStop : IsLineStop cs start stop
  slice?_line : slice? cs start stop = some (ahead ++ behind)
  slice?_ahead : slice? cs start d.pos.offset = some ahead
  head?_behind : behind.head? = if d.pos.offset = stop then none else charAt? cs d.pos.offset
  column : d.pos.column = 1 + ahead.length
  begins : expandTabs ahead <+: expandTabs (ahead ++ behind)
  eq : shown = d.header name ++ "\n" ++ String.ofList (expandTabs (ahead ++ behind)) ++ "\n"
    ++ String.ofList (List.replicate (expandTabs ahead).length ' ') ++ "^\n"

/-- A diagnostic at its position in a text can be rendered, and its caret points at its offset. -/
theorem Diagnostic.exists_points {cs : List Char} {d : Diagnostic} (name : String)
    (h : positionIn? cs d.pos.offset = some d.pos) :
  ∃ shown, d.render? name cs = some shown
    ∧ ∃ start stop ahead behind, d.Points name cs start stop ahead behind shown
  := by
  obtain ⟨before, htake, hpos⟩ := Option.map_eq_some_iff.mp h
  obtain ⟨behind, rfl, hoffset⟩ := exists_of_takeBytes? htake
  obtain ⟨start, stop, hstart, hstop, hahead, hline, hbehind⟩ := exists_line before behind
  rw [hoffset] at hstart hahead hbehind
  have hcolumn : d.pos.column = 1 + (lastLine before).length := by
    rw [← hpos, lastLine, List.length_reverse]
    rfl
  refine ⟨_, ?_, start, stop, lastLine before, behind.takeWhile (· ≠ '\n'), hstart, hstop, hline,
    hahead, hbehind, hcolumn, ?_, rfl⟩
  · rw [render?, ← hoffset, sourceLine?_append, hcolumn, Nat.add_sub_cancel_left]
    simp only [Option.bind_eq_bind, Option.bind_some, List.take_left, foldl_columnWidth,
      Nat.zero_add]
    rfl
  · rw [expandTabs_append]
    apply List.prefix_append

/-- A map that finds a value of each entry of a list finds them all. -/
theorem exists_mapM_eq_some {α β : Type} {f : α → Option β} {p : α → β → Prop} {l : List α}
    (h : ∀ a ∈ l, ∃ b, f a = some b ∧ p a b) :
  ∃ bs, l.mapM f = some bs ∧ List.Forall₂ p l bs
  := by
  induction l with
  | nil => exact ⟨[], rfl, .nil⟩
  | cons a l ih =>
    obtain ⟨b, hb, hp⟩ := h a List.mem_cons_self
    obtain ⟨bs, hbs, hps⟩ := ih fun a' ha' => h a' (List.mem_cons_of_mem _ ha')
    refine ⟨b :: bs, ?_, .cons hp hps⟩
    rw [List.mapM_cons, hb, hbs]
    rfl

/-- The diagnostics of an equation are reported under the name that it was given. -/
theorem name_of_parse {name eqn : String} {err : ParseError} (h : parse name eqn = .error err) :
  err.name = name
  := by
  cases hequation : equation (equationTokens eqn) with
  | ok e =>
    rw [parse_of_ok hequation] at h
    split at h
    · cases h
    · cases h
      rfl
  | error failure =>
    rw [parse_of_error hequation] at h
    cases h
    rfl

/-- A parse error can be rendered, and in each part of it the caret points at the offset of the
diagnostic: under the line of the text around the offset, past the columns of the characters that
come before the offset in the line. -/
theorem caret_points_at_fault {name eqn : String} {err : ParseError}
    (h : parse name eqn = .error err) :
  ∃ shown, err.render? = some (String.join shown)
    ∧ List.Forall₂ (fun d part => ∃ start stop ahead behind,
        d.Points err.name err.text.toList start stop ahead behind part) err.diagnostics shown
  := by
  have hshown : ∀ d ∈ err.diagnostics, ∃ part, d.render? err.name err.text.toList = some part
      ∧ ∃ start stop ahead behind,
        d.Points err.name err.text.toList start stop ahead behind part := by
    intro d hd
    apply Diagnostic.exists_points
    rw [(mem_diagnostics h).1]
    apply positionIn?_of_mem_diagnostics h hd
  obtain ⟨shown, hmap, hparts⟩ := exists_mapM_eq_some hshown
  use shown
  constructor
  · rw [ParseError.render?, hmap]
    rfl
  · exact hparts

/-- On the second line of three, behind a tab and a character of two bytes. -/
theorem caret_points_behind_tab :
  ∃ err d, parse "y" "a +\n\té * )\n+ b" = .error err ∧ err.diagnostics = [d]
    ∧ d.pos = ⟨10, 2, 6⟩
    ∧ err.render? = some "y:2:6: error: unexpected token (rparen ))\n        é * )\n            ^\n"
    ∧ ∃ shown, err.render? = some (String.join shown)
      ∧ List.Forall₂ (fun d part => ∃ start stop ahead behind,
          d.Points err.name err.text.toList start stop ahead behind part) err.diagnostics shown
  := by
  have herror : parse "y" "a +\n\té * )\n+ b" = .error ⟨"y", "a +\n\té * )\n+ b;",
      [⟨.unexpectedToken, "unexpected token (rparen ))", ⟨10, 2, 6⟩⟩]⟩ := by
    decide +kernel
  exact ⟨_, _, herror, rfl, rfl, by decide +kernel, caret_points_at_fault herror⟩

end EquationLang
