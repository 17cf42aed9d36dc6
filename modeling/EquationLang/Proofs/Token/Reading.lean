import EquationLang.Proofs.Token.PieceShape
import EquationLang.Token.Lexer

/-!
# Reading a text

`Cursor.read` reads a text from a place to its end in one go: the tokens, and the fault that ends
the reading if there is one.  It is what a lexer hands out (`Lexer.drain_tokens`,
`Lexer.drain_errors`).
`Cursor.Reads` relates two places of a text to the tokens between them.
-/

namespace EquationLang

/-- A place in a text. -/
structure Cursor where
  /-- The offset of the place. -/
  offset : Nat
  /-- Whether a line break ends a statement there. -/
  canEnd : Bool
  /-- The text that follows. -/
  rest : List Char

namespace Cursor

/-- The start of a text. -/
def start (cs : List Char) : Cursor := ⟨0, false, cs⟩

/-- The place after the piece `p`, where `rest` follows. -/
def after (k : Cursor) (p : Piece) (rest : List Char) : Cursor :=
  ⟨k.offset + byteLength p.source, p.canEnd k.canEnd, rest⟩

/-- The tokens at the end of the text: an inserted terminator, if a statement can end there, and
the token that marks the end. -/
def closing (k : Cursor) : List Token :=
  (if k.canEnd then [⟨.semi, k.offset, ""⟩] else []) ++ [.endOfText k.offset]

/-- The tokens up to the end of the text or to the first fault, and that fault with its offset. -/
def read (k : Cursor) : List Token × Option (Nat × Diagnostic.Code × String) :=
  match found : Piece.front? k.rest with
  | none => (k.closing, none)
  | some (p, rest) =>
    match p.fault? with
    | some (code, message) => ([.endOfText k.offset], some (k.offset, code, message))
    | none =>
      have := Piece.length_lt_of_front? found
      (p.tokens k.offset k.canEnd rest ++ ((k.after p rest).read).1, ((k.after p rest).read).2)
termination_by k.rest.length

theorem read_of_nil {k : Cursor} (h : k.rest = []) :
  k.read = (k.closing, none)
  := by
  rw [read]
  split
  · rfl
  · next found =>
    rw [h] at found
    cases found

theorem read_of_fault {k : Cursor} {p : Piece} {rest : List Char} {code : Diagnostic.Code}
    {message : String} (found : Piece.front? k.rest = some (p, rest))
    (fault : p.fault? = some (code, message)) :
  k.read = ([.endOfText k.offset], some (k.offset, code, message))
  := by
  rw [read]
  split
  · simp_all
  · simp_all

theorem read_of_piece {k : Cursor} {p : Piece} {rest : List Char}
    (found : Piece.front? k.rest = some (p, rest)) (sound : p.fault? = none) :
  k.read = (p.tokens k.offset k.canEnd rest ++ (k.after p rest).read.1, (k.after p rest).read.2)
  := by
  rw [read]
  split
  · simp_all
  · next found' =>
    obtain ⟨rfl, rfl⟩ := Prod.mk.inj (Option.some.inj (found.symm.trans found'))
    simp only [sound]

end Cursor

namespace Lexer

/-- The place that a lexer has come to. -/
def cursor (l : Lexer) : Cursor := ⟨l.offset, l.canEnd, l.rest⟩

/-- The tokens that can still be taken. -/
def toCome (l : Lexer) : List Token :=
  l.pending ++ if l.stop?.isSome then [] else l.cursor.read.1

/-- The fault that has not been reached yet. -/
def faultToCome (l : Lexer) : Option (Nat × Diagnostic.Code × String) :=
  if l.stop?.isSome then none else l.cursor.read.2

theorem toCome_of_reading {l : Lexer} (reading : l.stop? = none) :
  l.toCome = l.pending ++ l.cursor.read.1
  := by
  simp [toCome, reading]

theorem toCome_of_stopped {l : Lexer} (stopped : l.stop?.isSome) :
  l.toCome = l.pending
  := by
  simp [toCome, stopped]

theorem faultToCome_of_reading {l : Lexer} (reading : l.stop? = none) :
  l.faultToCome = l.cursor.read.2
  := by
  simp [faultToCome, reading]

theorem faultToCome_of_stopped {l : Lexer} (stopped : l.stop?.isSome) :
  l.faultToCome = none
  := by
  simp [faultToCome, stopped]

theorem tokens_of_fault {p : Piece} (fault : p.fault?.isSome) (offset : Nat) (canEnd : Bool)
    (rest : List Char) :
  p.tokens offset canEnd rest = []
  := by
  have htokens := length_tokens_le p offset canEnd rest
  rw [if_pos fault, Nat.le_zero, List.length_eq_zero_iff] at htokens
  exact htokens

/-- Reading a piece leaves the same tokens to be taken. -/
theorem toCome_step {l : Lexer} (reading : l.stop? = none) :
  l.step.toCome = l.toCome
  := by
  rw [toCome_of_reading reading, step]
  split
  · next found =>
    have hread : l.cursor.read = _ := Cursor.read_of_nil (Piece.front?_eq_none_iff.mp found)
    rw [toCome_of_stopped rfl, hread]
    apply List.append_assoc
  · next p rest found =>
    split
    · next sound =>
      have hread : l.cursor.read = _ := Cursor.read_of_piece found sound
      rw [toCome_of_reading (l := l.pass p rest) reading, hread]
      apply List.append_assoc
    · next code message fault =>
      have hread : l.cursor.read = _ := Cursor.read_of_fault found fault
      have htokens := tokens_of_fault (p := p) (by simp [fault]) l.offset l.canEnd rest
      rw [toCome_of_stopped rfl, hread, fail, pass, htokens, List.append_nil]
      rfl

theorem toCome_scan (l : Lexer) :
  l.scan.toCome = l.toCome
  := by
  fun_induction scan l with
  | case1 l starved ih =>
    rw [ih]
    apply toCome_step
    simp_all [Lexer.starved]
  | case2 => rfl

/-- Reading on stops with a token pending or at the end. -/
theorem not_starved_scan (l : Lexer) :
  l.scan.starved = false
  := by
  fun_induction scan l with
  | case1 l starved ih => apply ih
  | case2 l fed => apply Bool.eq_false_iff.mpr fed

theorem stopped_of_scan_empty {l : Lexer} (empty : l.scan.pending = []) :
  l.scan.stop?.isSome
  := by
  have fed := l.not_starved_scan
  rw [starved, empty] at fed
  simpa using fed

theorem toCome_of_next?_eq_none {l : Lexer} (h : l.next? = none) :
  l.toCome = []
  := by
  rw [next?] at h
  split at h
  · next empty =>
    rw [← toCome_scan, toCome_of_stopped (stopped_of_scan_empty empty), empty]
  · cases h

theorem toCome_of_next?_eq_some {l l' : Lexer} {t : Token} (h : l.next? = some (t, l')) :
  l.toCome = t :: l'.toCome
  := by
  rw [next?] at h
  split at h
  · cases h
  · next ts pending =>
    cases h
    rw [← toCome_scan, toCome, toCome, pending]
    rfl

/-- The tokens taken from a lexer are those to come. -/
theorem drain_tokens (l : Lexer) :
  l.drain.1 = l.toCome
  := by
  fun_induction drain l with
  | case1 l taken => rw [toCome_of_next?_eq_none taken]
  | case2 l t l' taken fewer ts done hdrain ih =>
    rw [toCome_of_next?_eq_some taken, ← ih, hdrain]

/-- The tokens of a text. -/
theorem drain_eq_read (text : String) :
  (ofText text).drain.1 = (Cursor.start text.toList).read.1
  := drain_tokens (ofText text)

/-! ### The faults a lexer reports -/

/-- `es` are the diagnostics `ds` and one for the fault. -/
def Reports (ds : Diagnostics) (fault : Option (Nat × Diagnostic.Code × String))
    (es : Diagnostics) : Prop :=
  match fault with
  | none => es = ds
  | some (offset, code, message) =>
    ∃ pos : Position, pos.offset = offset ∧ es = ds.push ⟨code, message, pos⟩

theorem hasErrors_iff (l : Lexer) :
  l.hasErrors ↔ l.errors.toList ≠ []
  := by
  rw [hasErrors, Diagnostics.isEmpty, Bool.not_eq_true', List.isEmpty_eq_false_iff]

/-- If nothing had been reported before, then there are diagnostics exactly if there is a fault. -/
theorem Reports.toList_eq_nil_iff {fault : Option (Nat × Diagnostic.Code × String)}
    {es : Diagnostics} (h : Reports ∅ fault es) :
  es.toList = [] ↔ fault = none
  := by
  cases fault with
  | none =>
    obtain rfl : es = ∅ := h
    exact ⟨fun _ => rfl, fun _ => rfl⟩
  | some fault =>
    obtain ⟨pos, -, rfl⟩ := h
    simp [Diagnostics.push]

theorem reports_of_step {l : Lexer} {es : Diagnostics} (reading : l.stop? = none)
    (h : Reports l.step.errors l.step.faultToCome es) :
  Reports l.errors l.faultToCome es
  := by
  rw [faultToCome_of_reading reading]
  rw [step] at h
  split at h
  · next found =>
    have hread : l.cursor.read = _ := Cursor.read_of_nil (Piece.front?_eq_none_iff.mp found)
    rw [faultToCome_of_stopped rfl] at h
    rw [hread]
    exact h
  · next p rest found =>
    split at h
    · next sound =>
      have hread : l.cursor.read = _ := Cursor.read_of_piece found sound
      rw [faultToCome_of_reading (l := l.pass p rest) reading] at h
      rw [hread]
      exact h
    · next code message fault =>
      have hread : l.cursor.read = _ := Cursor.read_of_fault found fault
      rw [faultToCome_of_stopped rfl] at h
      rw [hread]
      exact ⟨_, rfl, h⟩

/-- The step that reads the end leaves a token pending. -/
theorem pending_step_ne_nil {l : Lexer} (reading : l.stop? = none) (h : l.step.stop? ≠ none) :
  l.step.pending ≠ []
  := by
  rw [step] at h ⊢
  split
  · simp [finish]
  · split
    · simp_all [pass]
    · simp [fail]

theorem scan_eq_self {l : Lexer} (empty : l.scan.pending = []) :
  l.scan = l
  := by
  fun_induction scan l with
  | case1 l starved ih =>
    have hstep := ih empty
    have stopped := stopped_of_scan_empty empty
    rw [hstep] at empty stopped
    have reading : l.stop? = none := by simp_all [Lexer.starved]
    exact absurd empty (pending_step_ne_nil reading (Option.isSome_iff_ne_none.mp stopped))
  | case2 => rfl

theorem reports_of_scan {l : Lexer} {es : Diagnostics}
    (h : Reports l.scan.errors l.scan.faultToCome es) :
  Reports l.errors l.faultToCome es
  := by
  fun_induction scan l with
  | case1 l starved ih =>
    apply reports_of_step
    · simp_all [Lexer.starved]
    · apply ih h
  | case2 => exact h

/-- A lexer that is read to its end reports the fault that ends the reading. -/
theorem drain_errors (l : Lexer) :
  Reports l.errors l.faultToCome l.drain.2.errors
  := by
  fun_induction drain l with
  | case1 l taken =>
    rw [next?] at taken
    split at taken
    · next empty =>
      have stopped := stopped_of_scan_empty empty
      rw [scan_eq_self empty] at stopped
      rw [faultToCome_of_stopped stopped]
      rfl
    · cases taken
  | case2 l t l' taken fewer ts done hdrain ih =>
    apply reports_of_scan
    rw [next?] at taken
    split at taken
    · cases taken
    · cases taken
      rw [hdrain] at ih
      exact ih

/-- A text that is read to its end has the fault that ends the reading reported, and no other. -/
theorem reports_drain (text : String) :
  Reports ∅ (Cursor.start text.toList).read.2 (ofText text).drain.2.errors
  := by
  have hreports := drain_errors (ofText text)
  rw [faultToCome_of_reading rfl] at hreports
  exact hreports

end Lexer

end EquationLang
