import EquationLang.Position.LineTable
import EquationLang.Proofs.Text.Slices
import Mathlib.Data.List.Induction

/-!
# Positions count line breaks

The position of a place in a text counts the line breaks before the place, and the characters since
the last of them (`Position.after`).  A line table finds it as soon as it has the line breaks of the
text up to the place, and later line breaks do not matter (`LineTable.position_ofText`).
-/

namespace EquationLang

/-- The position of the place in a text that comes after `before`. -/
def Position.after (before : List Char) : Position where
  offset := byteLength before
  line := 1 + before.count '\n'
  column := 1 + (before.reverse.takeWhile (· ≠ '\n')).length

/-- The position of an offset in a text; `none` if the offset lies inside a character or past the
end. -/
def positionIn? (text : List Char) (offset : Nat) : Option Position :=
  (takeBytes? offset text).map Position.after

theorem positionIn?_append (before behind : List Char) :
  positionIn? (before ++ behind) (byteLength before) = some (Position.after before)
  := by
  rw [positionIn?, takeBytes?_append, Option.map_some]

/-- The position of an offset has that offset. -/
theorem offset_of_positionIn? {text : List Char} {offset : Nat} {pos : Position}
    (h : positionIn? text offset = some pos) :
  pos.offset = offset
  := by
  obtain ⟨before, htake, rfl⟩ := Option.map_eq_some_iff.mp h
  obtain ⟨behind, -, hbefore⟩ := exists_of_takeBytes? htake
  apply hbefore

/-- A position in a text does not lie past its end. -/
theorem le_of_positionIn? {text : String} {offset : Nat} {pos : Position}
    (h : positionIn? text.toList offset = some pos) :
  offset ≤ text.utf8ByteSize
  := by
  obtain ⟨before, htake, -⟩ := Option.map_eq_some_iff.mp h
  obtain ⟨behind, htext, rfl⟩ := exists_of_takeBytes? htake
  rw [utf8ByteSize_eq_byteLength, htext, byteLength_append]
  apply Nat.le_add_right

/-- The characters after the last line break. -/
def lastLine (cs : List Char) : List Char := (cs.reverse.takeWhile (· ≠ '\n')).reverse

theorem lastLine_concat (cs : List Char) (c : Char) :
  lastLine (cs ++ [c]) = if c = '\n' then [] else lastLine cs ++ [c]
  := by
  rw [lastLine, List.reverse_concat, List.takeWhile_cons]
  split <;> simp_all [lastLine]

namespace LineTable

/-- The lines of the text `cs`. -/
def ofText (cs : List Char) : LineTable := addBreaks {} 0 cs

theorem addBreaks_append (t : LineTable) (offset : Nat) (cs ds : List Char) :
  t.addBreaks offset (cs ++ ds) = (t.addBreaks offset cs).addBreaks (offset + byteLength cs) ds
  := by
  induction cs generalizing t offset with
  | nil => rfl
  | cons c cs ih => rw [List.cons_append, addBreaks, addBreaks, ih, byteLength_cons, Nat.add_assoc]

theorem ofText_append (cs ds : List Char) :
  ofText (cs ++ ds) = (ofText cs).addBreaks (byteLength cs) ds
  := by
  rw [ofText, addBreaks_append, Nat.zero_add, ofText]

theorem addLine_of_lt {t : LineTable} {offset : Nat} (h : t.latest < offset) :
  t.addLine offset = ⟨offset :: t.later⟩
  := if_pos h

/-- A table that has no line after `offset` is its own part up to `offset`. -/
theorem upTo_of_latest_le {t : LineTable} {offset : Nat} (h : t.latest ≤ offset) :
  t.upTo offset = t
  := by
  obtain ⟨later⟩ := t
  cases later with
  | nil => rfl
  | cons start later =>
    have hstart : ¬ offset < start := Nat.not_lt.mpr h
    simp [upTo, hstart]

/-- A line that starts after an offset does not matter for the lines up to it. -/
theorem upTo_addLine {t : LineTable} {offset start : Nat} (h : offset < start) :
  (t.addLine start).upTo offset = t.upTo offset
  := by
  rw [addLine]
  split
  · simp [upTo, h]
  · rfl

/-- Line breaks further on do not matter for the lines up to an offset. -/
theorem upTo_addBreaks {t : LineTable} {offset start : Nat} (h : offset ≤ start) (cs : List Char) :
  (t.addBreaks start cs).upTo offset = t.upTo offset
  := by
  induction cs generalizing t start with
  | nil => rfl
  | cons c cs ih =>
    rw [addBreaks, ih (Nat.le_add_right_of_le h)]
    split
    · apply upTo_addLine (Nat.lt_succ_of_le h)
    · rfl

/-- The table of a text has as many lines as the text, and the latest one is the last line. -/
theorem exists_lines (cs : List Char) :
  (ofText cs).lineCount = 1 + cs.count '\n'
    ∧ ∃ lines, cs = lines ++ lastLine cs ∧ byteLength lines = (ofText cs).latest
  := by
  induction cs using List.reverseRecOn with
  | nil => exact ⟨rfl, [], rfl, rfl⟩
  | append_singleton cs c ih =>
    obtain ⟨hcount, lines, hcs, hlatest⟩ := ih
    rw [ofText_append, addBreaks, addBreaks, lastLine_concat]
    split
    · next hc =>
      subst hc
      have hlt : (ofText cs).latest < byteLength cs + 1 := by
        rw [← hlatest, hcs, byteLength_append]
        omega
      rw [addLine_of_lt hlt]
      constructor
      · simp only [lineCount] at hcount
        simp [lineCount, hcount]
        omega
      · use cs ++ ['\n'], (List.append_nil _).symm
        rw [byteLength_append]
        rfl
    · next hc =>
      constructor
      · rw [hcount, List.count_append, List.count_singleton, if_neg (by simpa using hc),
          Nat.add_zero]
      · use lines
        rw [← List.append_assoc, ← hcs]
        exact ⟨rfl, hlatest⟩

theorem latest_ofText_le (cs : List Char) :
  (ofText cs).latest ≤ byteLength cs
  := by
  obtain ⟨-, lines, hcs, hlatest⟩ := exists_lines cs
  rw [← hlatest, hcs, byteLength_append]
  apply Nat.le_add_right

/-- A table that has the lines of a text up to a place, and possibly later ones, finds the position
of the place. -/
theorem position_ofText (before cs behind : List Char) :
  (ofText (before ++ cs)).position (before ++ (cs ++ behind)) (byteLength before)
    = Position.after before
  := by
  have hle := latest_ofText_le before
  obtain ⟨hcount, lines, hbefore, hlatest⟩ := exists_lines before
  have hslice : slice? (before ++ (cs ++ behind)) (ofText before).latest (byteLength before)
      = some (lastLine before) := by
    apply slice?_eq_some_iff.mpr
    refine ⟨lines, cs ++ behind, ?_, hlatest, ?_⟩
    · rw [← List.append_assoc lines, ← hbefore]
    · rw [← hlatest, ← byteLength_append, ← hbefore]
  have hmin : min (byteLength before) (byteLength (before ++ (cs ++ behind)))
      = byteLength before := by
    rw [byteLength_append]
    apply Nat.min_eq_left (Nat.le_add_right _ _)
  rw [position, ofText_append, upTo_addBreaks (Nat.le_refl _), upTo_of_latest_le hle, hmin, hslice,
    hcount, lastLine]
  simp only [List.length_reverse]
  rfl

end LineTable

end EquationLang
