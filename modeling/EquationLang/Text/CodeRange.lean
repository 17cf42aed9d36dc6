/-!
# Ranges of code points

A property of characters is given by the closed ranges of code points that have it, and a case
mapping by runs of evenly spaced code points that are moved together.  Both are lists in increasing
order, so a search stops at the first range past the character.
-/

namespace EquationLang

/-- The code points from `first` to `last`, both included. -/
structure CodeRange where
  first : Nat
  last : Nat

/-- Whether one of the ranges, in increasing order, contains the code point `n`. -/
def CodeRange.anyContains (n : Nat) : List CodeRange → Bool
  | [] => false
  | r :: rs => if n < r.first then false else n ≤ r.last || anyContains n rs

/-- The code points `first`, `first + step`, and so on up to `last`, mapped in order to `target`,
`target + step`, and so on. -/
structure CaseRun where
  first : Nat
  last : Nat
  step : Nat
  target : Nat

/-- The code point that the runs, in increasing order, map `n` to; `none` if `n` is in no run. -/
def CaseRun.lookup? (n : Nat) : List CaseRun → Option Nat
  | [] => none
  | r :: rs =>
    if n < r.first then none
    else if n ≤ r.last then
      if (n - r.first) % r.step = 0 then some (r.target + (n - r.first)) else lookup? n rs
    else lookup? n rs

end EquationLang
