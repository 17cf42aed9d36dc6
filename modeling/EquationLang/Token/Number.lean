/-!
# Numbers

A number is made of digits, a point with more digits, and an exponent; each part may be missing, and
so may the digits within a part.  `splitNumber` takes the longest number off the front of a text.
-/

namespace EquationLang

/-- The digits at the front of a text, and what follows them. -/
def splitDigits (cs : List Char) : List Char × List Char :=
  (cs.takeWhile Char.isDigit, cs.dropWhile Char.isDigit)

/-- A point and the digits after it at the front of a text, and what follows them. -/
def splitFraction : List Char → List Char × List Char
  | '.' :: cs => ('.' :: (splitDigits cs).1, (splitDigits cs).2)
  | cs => ([], cs)

/-- A sign at the front of a text, and what follows it. -/
def splitSign : List Char → List Char × List Char
  | '+' :: cs => (['+'], cs)
  | '-' :: cs => (['-'], cs)
  | cs => ([], cs)

/-- An exponent at the front of a text, and what follows it: its letter, a sign and digits. -/
def splitExponent : List Char → List Char × List Char
  | [] => ([], [])
  | c :: cs =>
    if c = 'e' ∨ c = 'E' then
      let (sign, rest) := splitSign cs
      (c :: (sign ++ (splitDigits rest).1), (splitDigits rest).2)
    else ([], c :: cs)

/-- The longest number at the front of a text, and what follows it. -/
def splitNumber (cs : List Char) : List Char × List Char :=
  let (whole, rest) := splitDigits cs
  let (fraction, rest) := splitFraction rest
  let (exponent, rest) := splitExponent rest
  (whole ++ fraction ++ exponent, rest)

theorem splitDigits_append (cs : List Char) :
  (splitDigits cs).1 ++ (splitDigits cs).2 = cs
  := List.takeWhile_append_dropWhile

theorem splitFraction_append (cs : List Char) :
  (splitFraction cs).1 ++ (splitFraction cs).2 = cs
  := by
  unfold splitFraction
  split <;> simp [splitDigits_append]

theorem splitSign_append (cs : List Char) :
  (splitSign cs).1 ++ (splitSign cs).2 = cs
  := by
  unfold splitSign
  split <;> simp

theorem splitExponent_append (cs : List Char) :
  (splitExponent cs).1 ++ (splitExponent cs).2 = cs
  := by
  unfold splitExponent
  split
  · rfl
  · split
    · simp [splitDigits_append, splitSign_append]
    · rfl

/-- Taking a number off a text loses nothing of it. -/
theorem splitNumber_append (cs : List Char) :
  (splitNumber cs).1 ++ (splitNumber cs).2 = cs
  := by
  simp [splitNumber, splitExponent_append, splitFraction_append, splitDigits_append]

end EquationLang
