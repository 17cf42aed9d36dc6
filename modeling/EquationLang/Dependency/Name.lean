import EquationLang.Text.CharClass
import EquationLang.Text.Lowercase

/-!
# Canonical names

A variable may be written in many ways: in any case, with any white space or underscores between its
words, with line breaks written as escapes, and in quotes.  `canonicalize` brings all of them into
one form, by which references are matched to variables.
-/

namespace EquationLang

/-- The text inside the quotes, if `cs` starts and ends with a quote of its own. -/
def unquote : List Char → List Char
  | '"' :: cs => if cs.getLast? = some '"' then cs.dropLast else '"' :: cs
  | cs => cs

/-- The characters of a name, with `none` in place of each blank and of each line break that is
written as an escape. -/
def nameUnits : List Char → List (Option Char)
  | [] => []
  | '\\' :: 'n' :: cs => none :: nameUnits cs
  | '\\' :: 'r' :: cs => none :: nameUnits cs
  | c :: cs => (if isBlank c then none else some c) :: nameUnits cs

/-- The characters of a name with an underscore for each run of blanks; `inRun` says whether a run
has begun. -/
def underscoreRuns (inRun : Bool) : List (Option Char) → List Char
  | [] => []
  | some c :: units => c :: underscoreRuns false units
  | none :: units =>
    if inRun then underscoreRuns true units else '_' :: underscoreRuns true units

/-- A name in the form by which names are matched: without blanks around it and quotes around that,
each run of blanks made one underscore, and in lower case. -/
def canonicalize (name : String) : String :=
  String.ofList (lowercase (underscoreRuns false (nameUnits (unquote (trim name.toList)))))

end EquationLang
