import EquationLang.Proofs.Token.Calls
import EquationLang.Proofs.Token.Terminated

/-!
# What has been read when a token is looked at

A lexer reads no further than the token that is looked at, so it has reported the fault of a text
exactly if that token marks the end (`Lexer.Tracks.hasErrors_peek_iff`).
-/

namespace EquationLang

/-! ### Faults -/

/-- A fault has a lexical code, and its message is not about a call. -/
theorem Piece.lexical_of_fault? {p : Piece} {code : Diagnostic.Code} {message : String}
    (h : p.fault? = some (code, message)) :
  code.isLexical ∧ ¬ "call".toList <+: message.toList
  := by
  cases p with
  | unrecognized c =>
    cases h
    use rfl
    simp [String.toList_append]
  | unclosed body =>
    cases h
    use rfl
    decide
  | blank | comment | lexeme | quoted => cases h

/-- The fault that ends the reading is that of a piece. -/
theorem Cursor.exists_piece_of_fault {k : Cursor} {fault : Nat × Diagnostic.Code × String}
    (h : fault ∈ k.read.2) :
  ∃ p : Piece, p.fault? = some fault.2
  := by
  fun_induction read k with
  | case1 => cases h
  | case2 k p rest found code message hfault =>
    cases h
    exact ⟨p, hfault⟩
  | case3 k p rest found sound fewer ih => exact ih h

theorem exists_piece_of_mem_lexicalErrors {eqn : String} {d : Diagnostic}
    (h : d ∈ lexicalErrors eqn) :
  ∃ p : Piece, p.fault? = some (d.code, d.message)
  := by
  have hreports := reports_lexicalErrors eqn
  cases hread : (Cursor.start (normalize eqn).toList).read.2 with
  | none =>
    rw [hread] at hreports
    rw [show lexicalErrors eqn = [] from congrArg Diagnostics.toList hreports] at h
    cases h
  | some fault =>
    rw [hread] at hreports
    obtain ⟨pos, -, herrors⟩ := hreports
    rw [show lexicalErrors eqn = [_] from congrArg Diagnostics.toList herrors] at h
    obtain rfl := List.mem_singleton.mp h
    exact Cursor.exists_piece_of_fault hread

theorem lexical_of_mem_lexicalErrors {eqn : String} {d : Diagnostic} (h : d ∈ lexicalErrors eqn) :
  d.code.isLexical ∧ ¬ "call".toList <+: d.message.toList
  := by
  obtain ⟨p, hfault⟩ := exists_piece_of_mem_lexicalErrors h
  apply Piece.lexical_of_fault? hfault

namespace Lexer

/-- The lexer after taking `n` tokens. -/
def skip : Nat → Lexer → Lexer
  | 0, l => l
  | n + 1, l => l.next.2.skip n

/-- The text of the lexer has the fault `fault`, which has been reported if it has been read; and
the mark of the end is not pending before that. -/
structure Tracks (fault : Option (Nat × Diagnostic.Code × String)) (l : Lexer) : Prop where
  reading : l.stop? = none → l.cursor.read.2 = fault ∧ l.hasErrors = false
    ∧ ∀ t ∈ l.pending, t.kind ≠ .eof
  stopped : l.stop?.isSome → (l.hasErrors ↔ fault.isSome)
    ∧ (fault.isSome → ∀ t ∈ l.pending, t.kind = .eof)

variable {fault : Option (Nat × Diagnostic.Code × String)} {l : Lexer}

theorem skip_succ (l : Lexer) (n : Nat) :
  l.skip (n + 1) = (l.skip n).next.2
  := by
  induction n generalizing l with
  | zero => rfl
  | succ n ih => apply ih

theorem Follows.tracks {text : String} (h : l.Follows text []) :
  l.Tracks (Cursor.start text.toList).read.2
  := by
  constructor
  · intro reading
    obtain ⟨hfault, -, -, herrors, hpending⟩ := h.reading reading
    refine ⟨hfault, ?_, hpending⟩
    rw [Bool.eq_false_iff, ne_eq, hasErrors_iff, not_not]
    exact herrors
  · intro stopped
    obtain ⟨offset, stop⟩ := Option.isSome_iff_exists.mp stopped
    obtain ⟨-, herrors, hfault⟩ := h.stopped offset stop
    rw [List.nil_append] at herrors
    constructor
    · rw [hasErrors_iff, herrors, ne_eq, faultsOf_eq_nil_iff]
      apply Option.ne_none_iff_isSome
    · intro hsome
      obtain ⟨fault, hmem⟩ := Option.isSome_iff_exists.mp hsome
      apply (hfault fault hmem).2

theorem Follows.skip {text : String} (h : l.Follows text []) (n : Nat) :
  (l.skip n).Follows text []
  := by
  induction n generalizing l with
  | zero => exact h
  | succ n ih => exact ih h.next

theorem toCome_skip (l : Lexer) (n : Nat) :
  (l.skip n).toCome = l.toCome.drop n
  := by
  induction n generalizing l with
  | zero => rfl
  | succ n ih => rw [skip, ih, toCome_next, List.drop_tail]

/-- The token that is looked at is the next one to come. -/
theorem peek_of_toCome {t : Token} {ts : List Token} (h : l.toCome = t :: ts) :
  l.peek.1 = t
  := by
  rw [peek_eq_headD, h]
  rfl

/-- When a token is looked at, the fault has been reported exactly if the token marks the end. -/
theorem Tracks.hasErrors_peek_iff (h : l.scan.Tracks fault) :
  l.peek.2.hasErrors ↔ fault.isSome ∧ l.peek.1.kind = .eof
  := by
  change l.scan.hasErrors ↔ fault.isSome ∧ (l.scan.pending.headD l.scan.endToken).kind = .eof
  cases stop : l.scan.stop? with
  | none =>
    obtain ⟨-, herrors, hpending⟩ := h.reading stop
    have fed := l.not_starved_scan
    cases pending : l.scan.pending with
    | nil => simp [starved, stop, pending] at fed
    | cons t ts => simp [herrors, hpending t (by simp [pending])]
  | some offset =>
    obtain ⟨herrors, hpending⟩ := h.stopped (by simp [stop])
    rw [herrors, iff_self_and]
    intro hsome
    cases pending : l.scan.pending with
    | nil => rfl
    | cons t ts => exact hpending hsome t (by simp [pending])

end Lexer

end EquationLang
