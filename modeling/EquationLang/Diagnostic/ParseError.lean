import EquationLang.Diagnostic.Basic
import EquationLang.Text.Bytes

/-!
# Parse errors

A parse error is what is known about an equation that could not be read: the name it was given, its
text, and the diagnostics.  `ParseError.message` sums it up in one line; `ParseError.render?` shows,
for each diagnostic, the line of the text it lies in, with a caret under the column at fault.
-/

namespace EquationLang

/-- The number of columns a tab takes up in a rendered line. -/
def tabWidth : Nat := 8

/-- An equation that could not be read. -/
structure ParseError where
  /-- The name that the equation's faults are reported under. -/
  name : String
  /-- The text that the positions refer to. -/
  text : String
  diagnostics : List Diagnostic
deriving DecidableEq

/-- The line of `text` around the byte `offset`, or its last line if the offset is past the end;
`none` if the offset lies inside a character. -/
def sourceLine? (text : List Char) (offset : Nat) : Option (List Char) := do
  let stop := min offset (byteLength text)
  let before ← takeBytes? stop text
  let after ← dropBytes? stop text
  return (before.reverse.takeWhile (· ≠ '\n')).reverse ++ after.takeWhile (· ≠ '\n')

/-- The number of columns that `c` takes up in a rendered line. -/
def columnWidth (c : Char) : Nat := if c = '\t' then tabWidth else 1

/-- `line` with its tabs replaced by spaces. -/
def expandTabs (line : List Char) : List Char :=
  line.flatMap fun c => if c = '\t' then List.replicate tabWidth ' ' else [c]

namespace Diagnostic

/-- The diagnostic under the `name` of its equation, in one line. -/
def header (name : String) (d : Diagnostic) : String :=
  name ++ ":" ++ d.pos.text ++ ": error: " ++ d.message

/-- The header, the line of `text` at fault and the line with the caret, each ended by a line break;
`none` if the diagnostic's offset lies inside a character of `text`. -/
def render? (name : String) (text : List Char) (d : Diagnostic) : Option String := do
  let line ← sourceLine? text d.pos.offset
  let indent := (line.take (d.pos.column - 1)).foldl (fun n c => n + columnWidth c) 0
  return d.header name ++ "\n" ++ String.ofList (expandTabs line) ++ "\n"
    ++ String.ofList (List.replicate indent ' ') ++ "^\n"

end Diagnostic

namespace ParseError

/-- The error in one line: the first diagnostic, and how many there are besides it. -/
def message (e : ParseError) : String :=
  match e.diagnostics with
  | [] => e.name ++ ":no errors"
  | [d] => d.header e.name
  | d :: ds => d.header e.name ++ " (and " ++ toString ds.length ++ " more errors)"

/-- The first diagnostic, if there is one. -/
def first? (e : ParseError) : Option Diagnostic := e.diagnostics.head?

/-- The codes of the diagnostics. -/
def codes (e : ParseError) : List Diagnostic.Code := e.diagnostics.map (·.code)

/-- All diagnostics with their source lines; `none` if one of them has an offset inside a character
of the text. -/
def render? (e : ParseError) : Option String := do
  let parts ← e.diagnostics.mapM (·.render? e.name e.text.toList)
  return String.join parts

end ParseError

end EquationLang
