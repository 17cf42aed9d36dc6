import EquationLang.Token.Character
import EquationLang.Token.Number
import EquationLang.Diagnostic.Code
import EquationLang.Text.Bytes

/-!
# Pieces of a text

A text falls into pieces: blanks, comments, lexemes, quoted texts, and the two kinds of faults that
end the reading.  `Piece.front?` takes the first piece off a text; the piece's `source` together
with what is left is the text again, and no piece is empty.
-/

namespace EquationLang

/-- A stretch of text that is read in one go. -/
inductive Piece where
  | blank (c : Char)
  /-- Two slashes and the `body` up to the end of the line. -/
  | comment (body : List Char)
  /-- A token that is written as it is. -/
  | lexeme (kind : Token.Kind) (text : List Char)
  /-- The `body` between two quotes. -/
  | quoted (body : List Char)
  /-- A character that nothing starts with. -/
  | unrecognized (c : Char)
  /-- A quote and the whole text after it, in which there is no other quote. -/
  | unclosed (body : List Char)
deriving DecidableEq

namespace Piece

/-- The stretch of text that the piece is. -/
def source : Piece → List Char
  | blank c => [c]
  | comment body => '/' :: '/' :: body
  | lexeme _ text => text
  | quoted body => '"' :: body ++ ['"']
  | unrecognized c => [c]
  | unclosed body => '"' :: body

/-- The piece that starts with a quote before `cs`, and what follows it. -/
def frontQuoted (cs : List Char) : Piece × List Char :=
  match cs.dropWhile (· ≠ '"') with
  | [] => (unclosed cs, [])
  | _ :: rest => (quoted (cs.takeWhile (· ≠ '"')), rest)

/-- The piece that starts with `c` before `cs`, if no comment starts there, and what follows it. -/
def frontAt (c : Char) (cs : List Char) : Piece × List Char :=
  if c = terminator then (lexeme .semi [c], cs)
  else if isBlank c then (blank c, cs)
  else if isNumberStart c then
    (lexeme .num (splitNumber (c :: cs)).1, (splitNumber (c :: cs)).2)
  else if c = '"' then frontQuoted cs
  else match punctuation? c with
    | some kind => (lexeme kind [c], cs)
    | none =>
      if isIdentStart c then
        (lexeme .ident (c :: cs.takeWhile isIdentContinue), cs.dropWhile isIdentContinue)
      else (unrecognized c, cs)

/-- The first piece of a text and what follows it; `none` if the text is empty. -/
def front? : List Char → Option (Piece × List Char)
  | [] => none
  | '/' :: '/' :: cs => some (comment (cs.takeWhile (· ≠ '\n')), cs.dropWhile (· ≠ '\n'))
  | c :: cs => some (frontAt c cs)

/-- Whether a line break after the piece ends a statement, where `before` says so for the text that
comes before the piece. -/
def canEnd (before : Bool) : Piece → Bool
  | blank c => before && c ≠ '\n'
  | lexeme kind _ => kind.canEndStatement
  | quoted _ => Token.Kind.str.canEndStatement
  | comment _ | unrecognized _ | unclosed _ => before

/-- The tokens of a piece that starts at `offset` and is followed by `rest`, where `canEnd` says
whether a line break ends a statement there.  A closing paren followed at once by an opening one
brings the operator `*` between them with it, which takes up no text. -/
def tokens (offset : Nat) (canEnd : Bool) (rest : List Char) : Piece → List Token
  | blank c => if c = '\n' ∧ canEnd then [⟨.semi, offset, "\n"⟩] else []
  | lexeme kind text =>
    ⟨kind, offset, String.ofList text⟩ ::
      if kind = .rparen ∧ rest.head? = some '(' then [⟨.operator, offset + byteLength text, "*"⟩]
      else []
  | quoted body => [⟨.str, offset + 1, String.ofList body⟩]
  | comment _ | unrecognized _ | unclosed _ => []

/-- A control character between single quotes, given by its code point in hexadecimal. -/
def controlText (c : Char) : String :=
  if c.toNat = 0 then "'\\0'"
  else "'\\u\x7b" ++ String.ofList (Nat.toDigits 16 c.toNat) ++ "\x7d'"

/-- The code point of a character in at least four upper case hexadecimal digits. -/
def codePointText (c : Char) : String :=
  let digits := (Nat.toDigits 16 c.toNat).map Char.toUpper
  "U+" ++ String.ofList (List.replicate (4 - digits.length) '0' ++ digits)

/-- The fault that the piece is, with its message. -/
def fault? : Piece → Option (Diagnostic.Code × String)
  | unrecognized c =>
    some (.unrecognizedChar,
      "unrecognized character " ++ controlText c ++ " (" ++ codePointText c ++ ")")
  | unclosed _ => some (.unclosedStringLiteral, "string literal not terminated")
  | _ => none

/-! ### The pieces make up the text -/

theorem source_frontQuoted (cs : List Char) :
  (frontQuoted cs).1.source ++ (frontQuoted cs).2 = '"' :: cs
  := by
  have whole : cs.takeWhile (· ≠ '"') ++ cs.dropWhile (· ≠ '"') = cs :=
    List.takeWhile_append_dropWhile
  unfold frontQuoted
  split
  · simp [source]
  · next q rest h =>
    have hq : q = '"' := by
      have := List.head?_dropWhile_not (fun c => decide (c ≠ '"')) cs
      rw [h] at this
      simpa using this
    subst hq
    rw [h] at whole
    simpa [source] using whole

theorem source_frontAt (c : Char) (cs : List Char) :
  (frontAt c cs).1.source ++ (frontAt c cs).2 = c :: cs
  := by
  unfold frontAt
  split
  · rfl
  split
  · rfl
  split
  · exact splitNumber_append (c :: cs)
  split
  · next h => rw [source_frontQuoted, h]
  split
  · rfl
  split
  · simp [source, List.takeWhile_append_dropWhile]
  · rfl

/-- A text is its first piece followed by what is left. -/
theorem source_append_of_front? {cs rest : List Char} {p : Piece} (h : front? cs = some (p, rest)) :
  p.source ++ rest = cs
  := by
  unfold front? at h
  split at h
  · cases h
  · cases h
    simp [source, List.takeWhile_append_dropWhile]
  · next c cs _ =>
    have := source_frontAt c cs
    rwa [Option.some.inj h] at this

/-- A number that starts with a digit or a point is not empty. -/
theorem splitNumber_ne_nil {c : Char} (hc : isNumberStart c) (cs : List Char) :
  (splitNumber (c :: cs)).1 ≠ []
  := by
  by_cases hd : c.isDigit
  · simp [splitNumber, splitDigits, hd]
  · have : c = '.' := by simpa [isNumberStart, hd] using hc
    subst this
    simp [splitNumber, splitDigits, splitFraction]

theorem source_ne_nil_of_frontAt (c : Char) (cs : List Char) :
  (frontAt c cs).1.source ≠ []
  := by
  unfold frontAt
  split
  · simp [source]
  split
  · simp [source]
  split
  · next h => exact splitNumber_ne_nil h cs
  split
  · unfold frontQuoted
    split <;> simp [source]
  split
  · simp [source]
  split <;> simp [source]

/-- No piece is empty. -/
theorem source_ne_nil_of_front? {cs rest : List Char} {p : Piece} (h : front? cs = some (p, rest)) :
  p.source ≠ []
  := by
  unfold front? at h
  split at h
  · cases h
  · cases h
    simp [source]
  · next c cs _ =>
    have := source_ne_nil_of_frontAt c cs
    rwa [Option.some.inj h] at this

/-- What is left after the first piece is shorter than the text. -/
theorem length_lt_of_front? {cs rest : List Char} {p : Piece} (h : front? cs = some (p, rest)) :
  rest.length < cs.length
  := by
  have := List.length_pos_iff.2 (source_ne_nil_of_front? h)
  rw [← source_append_of_front? h, List.length_append]
  omega

/-- Only the empty text has no first piece. -/
theorem front?_eq_none_iff {cs : List Char} :
  front? cs = none ↔ cs = []
  := by
  unfold front?
  split <;> simp

end Piece

end EquationLang
