import EquationLang.Position.Basic
import EquationLang.Text.Bytes

/-!
# Line tables

A line table knows the offsets at which the lines of a text start, as far as the text has been read.
The first line starts at 0; the start of a further line is recorded when its line break is read.
`LineTable.position` finds the line and the column of an offset.
-/

namespace EquationLang

/-- The starts of the lines read so far. -/
structure LineTable where
  /-- The starts of the lines after the first, the latest line in front. -/
  later : List Nat := []
deriving DecidableEq

namespace LineTable

/-- The starts of all lines, in order. -/
def starts (t : LineTable) : List Nat := 0 :: t.later.reverse

/-- The start of the latest line. -/
def latest (t : LineTable) : Nat := t.later.headD 0

/-- Record that a line starts at `offset`, unless `offset` is not past the latest start. -/
def addLine (t : LineTable) (offset : Nat) : LineTable :=
  if t.latest < offset then ⟨offset :: t.later⟩ else t

/-- The number of lines. -/
def lineCount (t : LineTable) : Nat := t.later.length + 1

/-- The lines that start at `offset` or before it. -/
def upTo (t : LineTable) (offset : Nat) : LineTable := ⟨t.later.dropWhile (offset < ·)⟩

/-- The position of `offset` in `text`.  The column counts the characters from the start of the line
to `offset`, or to the end of the text if that comes first; where these are not boundaries between
characters of the text, nothing is counted. -/
def position (t : LineTable) (text : List Char) (offset : Nat) : Position where
  offset := offset
  line := (t.upTo offset).lineCount
  column :=
    1 + match slice? text (t.upTo offset).latest (min offset (byteLength text)) with
      | some part => part.length
      | none => 0

/-- Record the line breaks of `cs`, a part of the text that starts at `offset`. -/
def addBreaks (t : LineTable) (offset : Nat) : List Char → LineTable
  | [] => t
  | c :: cs =>
    (if c = '\n' then t.addLine (offset + 1) else t).addBreaks (offset + c.utf8Size) cs

end LineTable

end EquationLang
