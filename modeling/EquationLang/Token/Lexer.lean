import EquationLang.Token.Piece
import EquationLang.Position.LineTable
import EquationLang.Diagnostic.Basic

/-!
# The lexer

A lexer reads the tokens of a text one at a time, with one token of lookahead, and reads no more of
the text than the tokens asked for need.  A line break ends a statement if the token before it can
end one, and so does the end of the text.  The first fault in the text ends the reading: it is
reported, and the token that marks the end is placed where the fault is.

`Lexer.peek` looks at the next token, `Lexer.next` and `Lexer.next?` take it, and `Lexer.drain`
takes all that are left.
-/

namespace EquationLang

/-- A text, and how far it has been read. -/
structure Lexer where
  /-- The whole text. -/
  text : String
  /-- The part of the text that has not been read. -/
  rest : List Char
  /-- The offset of that part. -/
  offset : Nat := 0
  /-- The lines of the part that has been read. -/
  lines : LineTable := {}
  /-- Whether a line break ends a statement here. -/
  canEnd : Bool := false
  /-- The tokens that have been read but not yet taken. -/
  pending : List Token := []
  /-- The offset of the token that marks the end, once it has been read. -/
  stop? : Option Nat := none
  errors : Diagnostics := ∅

namespace Lexer

/-- A lexer at the start of a text. -/
def ofText (text : String) : Lexer where
  text := text
  rest := text.toList

/-- The position of `offset`, as far as the lines read so far tell. -/
def resolve (l : Lexer) (offset : Nat) : Position := l.lines.position l.text.toList offset

/-- The token that marks the end of what can be read. -/
def endToken (l : Lexer) : Token := .endOfText (l.stop?.getD l.text.utf8ByteSize)

/-- The lexer after reading the end of the text. -/
def finish (l : Lexer) : Lexer :=
  { l with
    pending := l.pending ++ (if l.canEnd then [⟨.semi, l.offset, ""⟩] else [])
      ++ [.endOfText l.offset]
    stop? := some l.offset }

/-- The lexer after reading the piece `p`, with `rest` left. -/
def pass (l : Lexer) (p : Piece) (rest : List Char) : Lexer :=
  { l with
    rest := rest
    offset := l.offset + byteLength p.source
    lines := l.lines.addBreaks l.offset p.source
    canEnd := p.canEnd l.canEnd
    pending := l.pending ++ p.tokens l.offset l.canEnd rest }

/-- The lexer after reporting a fault at `offset`, which ends the reading. -/
def fail (l : Lexer) (offset : Nat) (code : Diagnostic.Code) (message : String) : Lexer :=
  { l with
    pending := l.pending ++ [.endOfText offset]
    stop? := some offset
    errors := l.errors.push ⟨code, message, l.resolve offset⟩ }

/-- The lexer after reading one more piece, or the end of the text. -/
def step (l : Lexer) : Lexer :=
  match Piece.front? l.rest with
  | none => l.finish
  | some (p, rest) =>
    match p.fault? with
    | none => l.pass p rest
    | some (code, message) => (l.pass p rest).fail l.offset code message

/-- Whether reading on is needed for a token to be pending. -/
def starved (l : Lexer) : Bool := l.pending.isEmpty && l.stop?.isNone

/-- How much is left to be read: the characters, and the end of the text. -/
def unread (l : Lexer) : Nat := l.rest.length + if l.stop?.isNone then 1 else 0

/-- A bound on the tokens that can still be taken. -/
def remaining (l : Lexer) : Nat := 2 * l.unread + l.pending.length

/-- Reading a piece leaves less to be read. -/
theorem unread_step_lt {l : Lexer} (reading : l.stop? = none) :
  l.step.unread < l.unread
  := by
  unfold step
  split
  · simp [unread, finish, reading]
  · next p rest hp =>
    have := Piece.length_lt_of_front? hp
    split <;> simp [unread, pass, fail, reading] <;> omega

/-- A piece has at most two tokens, and none if it is a fault. -/
theorem length_tokens_le (p : Piece) (offset : Nat) (canEnd : Bool) (rest : List Char) :
  (p.tokens offset canEnd rest).length ≤ if p.fault?.isSome then 0 else 2
  := by
  cases p with
  | blank c => simp only [Piece.tokens, Piece.fault?]; split <;> simp
  | lexeme kind text => simp only [Piece.tokens, Piece.fault?]; split <;> simp
  | comment | quoted | unrecognized | unclosed => simp [Piece.tokens, Piece.fault?]

/-- At most two tokens are read at a time. -/
theorem length_pending_step_le (l : Lexer) :
  l.step.pending.length ≤ l.pending.length + 2
  := by
  unfold step
  split
  · simp only [finish]
    split <;> simp
  · next p rest hp =>
    have := length_tokens_le p l.offset l.canEnd rest
    split <;> simp_all [pass, fail]

/-- Reading a piece leaves no more tokens to be taken. -/
theorem remaining_step_le {l : Lexer} (reading : l.stop? = none) :
  l.step.remaining ≤ l.remaining
  := by
  have := unread_step_lt reading
  have := length_pending_step_le l
  unfold remaining
  omega

/-- The lexer after reading on until a token is pending. -/
def scan (l : Lexer) : Lexer :=
  if l.starved then l.step.scan else l
termination_by l.unread
decreasing_by
  next h => exact unread_step_lt (by simp_all [starved])

/-- Reading on leaves no more tokens to be taken. -/
theorem remaining_scan_le (l : Lexer) :
  l.scan.remaining ≤ l.remaining
  := by
  fun_induction scan l with
  | case1 l h ih =>
    have : l.stop? = none := by simp_all [starved]
    exact Nat.le_trans ih (remaining_step_le this)
  | case2 => exact Nat.le_refl _

/-- The next token, which is not taken. -/
def peek (l : Lexer) : Token × Lexer := (l.scan.pending.headD l.scan.endToken, l.scan)

/-- Take the next token; after the end, the token that marks it is taken again and again. -/
def next (l : Lexer) : Token × Lexer :=
  (l.scan.pending.headD l.scan.endToken, { l.scan with pending := l.scan.pending.tail })

/-- Take the next token; none is left after the token that marks the end. -/
def next? (l : Lexer) : Option (Token × Lexer) :=
  match l.scan.pending with
  | [] => none
  | t :: ts => some (t, { l.scan with pending := ts })

/-- Taking a token leaves fewer to be taken. -/
theorem remaining_lt_of_next? {l l' : Lexer} {t : Token} (h : l.next? = some (t, l')) :
  l'.remaining < l.remaining
  := by
  unfold next? at h
  split at h
  · cases h
  · next ts hp =>
    cases h
    have := remaining_scan_le l
    simp only [remaining, unread, hp, List.length_cons] at this ⊢
    omega

/-- Take all tokens that are left, up to the one that marks the end. -/
def drain (l : Lexer) : List Token × Lexer :=
  match taken : l.next? with
  | none => ([], l)
  | some (t, l') =>
    have := remaining_lt_of_next? taken
    let (ts, done) := l'.drain
    (t :: ts, done)
termination_by l.remaining

/-- Whether a fault has been reported and not been taken. -/
def hasErrors (l : Lexer) : Bool := !l.errors.isEmpty

/-- Take the reported faults. -/
def takeErrors (l : Lexer) : Diagnostics × Lexer := (l.errors, { l with errors := ∅ })

end Lexer

end EquationLang
