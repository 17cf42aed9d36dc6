import EquationLang.Text.LowercaseTable
import EquationLang.Text.CasedTable
import EquationLang.Text.CaseIgnorableTable

/-!
# Lowercase

The full lowercase mapping of Unicode, free of any language's special rules.  Every character is
mapped on its own, except for the capital sigma, which has a form of its own at the end of a word.
-/

namespace EquationLang

/-- Whether `c` is an upper, lower or title case letter. -/
def isCased (c : Char) : Bool := CodeRange.anyContains c.toNat casedRanges

/-- Whether `c` is skipped in the search for a neighbouring letter. -/
def isCaseIgnorable (c : Char) : Bool := CodeRange.anyContains c.toNat caseIgnorableRanges

/-- Whether the first character of `cs` that is not skipped is a cased letter. -/
def meetsCased (cs : List Char) : Bool :=
  match cs.dropWhile isCaseIgnorable with
  | [] => false
  | c :: _ => isCased c

/-- The lowercase form of a character outside any word.  The capital I with a dot is the only one
whose form has two characters. -/
def lowercaseChar (c : Char) : List Char :=
  if c = 'İ' then ['i', '\u0307']
  else match CaseRun.lookup? c.toNat lowercaseRuns with
    | some n => [Char.ofNat n]
    | none => [c]

/-- The lowercase form of a capital sigma between the texts `before`, nearest character first, and
`after`: it is final when a cased letter comes before it and none after it. -/
def lowercaseSigma (before after : List Char) : Char :=
  if meetsCased before && !meetsCased after then 'ς' else 'σ'

/-- The lowercase form of a text that follows the text `before`, nearest character first. -/
def lowercaseAfter (before : List Char) : List Char → List Char
  | [] => []
  | c :: cs =>
    (if c = 'Σ' then [lowercaseSigma before cs] else lowercaseChar c)
      ++ lowercaseAfter (c :: before) cs

/-- The lowercase form of a text. -/
def lowercase (cs : List Char) : List Char := lowercaseAfter [] cs

end EquationLang
