import EquationLang.Proofs.Position.LineBreaks
import EquationLang.Proofs.Token.Reading

/-!
# Positions found while a text is read

A lexer knows the lines of the part of its text that it has read (`Lexer.IsPlaced`).  So it finds
the position of every place that it has come past (`Lexer.IsPlaced.positionIn?_eq`), and all its
tokens are at such places.  Every other offset in this part resolves as it does when all lines are
known, too (`Lexer.IsPlaced.resolve_eq`).
-/

namespace EquationLang

/-- The tokens of a piece stand at places in the piece. -/
theorem Piece.exists_place_of_mem_tokens {p : Piece} {offset : Nat} {canEnd : Bool}
    {rest : List Char} {t : Token} (h : t ∈ p.tokens offset canEnd rest) :
  ∃ part behind, p.source = part ++ behind ∧ offset + byteLength part = t.pos
  := by
  cases p with
  | blank c =>
    rw [tokens] at h
    split at h
    · obtain rfl := List.mem_singleton.mp h
      exact ⟨[], [c], rfl, rfl⟩
    · cases h
  | lexeme kind text =>
    obtain rfl | h := List.mem_cons.mp h
    · exact ⟨[], text, rfl, rfl⟩
    · split at h
      · obtain rfl := List.mem_singleton.mp h
        exact ⟨text, [], (List.append_nil text).symm, rfl⟩
      · cases h
  | quoted body =>
    obtain rfl := List.mem_singleton.mp h
    exact ⟨['"'], body ++ ['"'], rfl, rfl⟩
  | comment | unrecognized | unclosed => cases h

namespace Lexer

/-- The offset is that of a place in the part of the text that has been read. -/
def HasPassed (l : Lexer) (offset : Nat) : Prop :=
  ∃ part behind, l.text.toList = part ++ (behind ++ l.rest) ∧ byteLength part = offset

/-- The lexer knows where it is in its text and which lines the text has up to there, and its tokens
stand in that part of the text. -/
structure IsPlaced (l : Lexer) : Prop where
  lines : ∃ before, l.text.toList = before ++ l.rest ∧ byteLength before = l.offset
    ∧ l.lines = .ofText before
  pending : ∀ t ∈ l.pending, l.HasPassed t.pos
  stop : ∀ offset ∈ l.stop?, l.HasPassed offset

theorem isPlaced_ofText (text : String) :
  (ofText text).IsPlaced
  := by
  constructor
  · exact ⟨[], rfl, rfl, rfl⟩
  · intro t ht
    cases ht
  · intro offset hoffset
    cases hoffset

variable {l : Lexer}

/-- A place that has been passed splits the part of the text that has been read. -/
theorem IsPlaced.exists_split (h : l.IsPlaced) {offset : Nat} (hpassed : l.HasPassed offset) :
  ∃ part behind, l.text.toList = part ++ (behind ++ l.rest) ∧ byteLength part = offset
    ∧ byteLength (part ++ behind) = l.offset ∧ l.lines = .ofText (part ++ behind)
  := by
  obtain ⟨before, htext, hbefore, hlines⟩ := h.lines
  obtain ⟨part, behind, htext', hpart⟩ := hpassed
  obtain rfl : before = part ++ behind := by
    rw [htext, ← List.append_assoc] at htext'
    exact List.append_cancel_right htext'
  exact ⟨part, behind, htext', hpart, hbefore, hlines⟩

/-- The position of a place that has been passed is the one in the whole text. -/
theorem IsPlaced.positionIn?_eq (h : l.IsPlaced) {offset : Nat} (hpassed : l.HasPassed offset) :
  positionIn? l.text.toList offset = some (l.resolve offset)
  := by
  obtain ⟨part, behind, htext, rfl, -, hlines⟩ := h.exists_split hpassed
  rw [resolve, hlines, htext, positionIn?_append, LineTable.position_ofText]

theorem IsPlaced.hasPassed_offset (h : l.IsPlaced) :
  l.HasPassed l.offset
  := by
  obtain ⟨before, htext, hbefore, -⟩ := h.lines
  exact ⟨before, [], htext, hbefore⟩

/-- A place that has been passed does not lie behind the part of the text that has been read. -/
theorem IsPlaced.le_offset (h : l.IsPlaced) {offset : Nat} (hpassed : l.HasPassed offset) :
  offset ≤ l.offset
  := by
  obtain ⟨part, behind, -, rfl, hoffset, -⟩ := h.exists_split hpassed
  rw [← hoffset, byteLength_append]
  apply Nat.le_add_right

/-- The lines of the part that has been read are enough to find the position of an offset in it,
whether a character starts there or not. -/
theorem IsPlaced.resolve_eq (h : l.IsPlaced) {offset : Nat} (hle : offset ≤ l.offset) :
  l.resolve offset = (LineTable.ofText l.text.toList).position l.text.toList offset
  := by
  obtain ⟨before, htext, hbefore, hlines⟩ := h.lines
  rw [← hbefore] at hle
  rw [resolve, hlines, LineTable.position, LineTable.position, htext, LineTable.ofText_append,
    LineTable.upTo_addBreaks hle]

theorem HasPassed.pass {offset : Nat} (h : l.HasPassed offset) {p : Piece} {rest : List Char}
    (found : Piece.front? l.rest = some (p, rest)) :
  (l.pass p rest).HasPassed offset
  := by
  obtain ⟨part, behind, htext, hpart⟩ := h
  refine ⟨part, behind ++ p.source, ?_, hpart⟩
  rw [List.append_assoc]
  change l.text.toList = part ++ (behind ++ (p.source ++ rest))
  rw [Piece.source_append_of_front? found]
  exact htext

theorem HasPassed.step {offset : Nat} (h : l.HasPassed offset) :
  l.step.HasPassed offset
  := by
  rw [Lexer.step]
  split
  · exact h
  · next found =>
    split
    · exact h.pass found
    · exact h.pass found

theorem IsPlaced.finish (h : l.IsPlaced) :
  l.finish.IsPlaced
  := by
  constructor
  · exact h.lines
  · intro t ht
    simp only [Lexer.finish, List.mem_append, List.mem_singleton] at ht
    obtain (ht | ht) | rfl := ht
    · exact h.pending t ht
    · split at ht
      · obtain rfl := List.mem_singleton.mp ht
        exact h.hasPassed_offset
      · cases ht
    · exact h.hasPassed_offset
  · intro offset hoffset
    obtain rfl := Option.mem_some.mp hoffset
    exact h.hasPassed_offset

theorem IsPlaced.pass (h : l.IsPlaced) {p : Piece} {rest : List Char}
    (found : Piece.front? l.rest = some (p, rest)) :
  (l.pass p rest).IsPlaced
  := by
  obtain ⟨before, htext, hbefore, hlines⟩ := h.lines
  have hsource := Piece.source_append_of_front? found
  constructor
  · refine ⟨before ++ p.source, ?_, ?_, ?_⟩
    · rw [List.append_assoc]
      change l.text.toList = before ++ (p.source ++ rest)
      rw [hsource, htext]
    · rw [byteLength_append, hbefore]
      rfl
    · rw [LineTable.ofText_append, hbefore, ← hlines]
      rfl
  · intro t ht
    obtain ht | ht := List.mem_append.mp ht
    · exact (h.pending t ht).pass found
    · obtain ⟨part, behind, hpart, hpos⟩ := Piece.exists_place_of_mem_tokens ht
      refine ⟨before ++ part, behind, ?_, ?_⟩
      · rw [List.append_assoc, ← List.append_assoc part, ← hpart]
        change l.text.toList = before ++ (p.source ++ rest)
        rw [hsource, htext]
      · rw [byteLength_append, hbefore, hpos]
  · intro offset hoffset
    exact (h.stop offset hoffset).pass found

/-- Reading a piece, or the end of the text. -/
theorem IsPlaced.step (h : l.IsPlaced) :
  l.step.IsPlaced
  := by
  rw [Lexer.step]
  split
  · exact h.finish
  · next p rest found =>
    have hpass := h.pass found
    split
    · exact hpass
    · have hfault := h.hasPassed_offset.pass found
      constructor
      · exact hpass.lines
      · intro t ht
        obtain ht | ht := List.mem_append.mp ht
        · exact hpass.pending t ht
        · obtain rfl := List.mem_singleton.mp ht
          exact hfault
      · intro offset hoffset
        obtain rfl := Option.mem_some.mp hoffset
        exact hfault

theorem HasPassed.scan {offset : Nat} (h : l.HasPassed offset) :
  l.scan.HasPassed offset
  := by
  fun_induction Lexer.scan l with
  | case1 l starved ih => exact ih h.step
  | case2 => exact h

theorem IsPlaced.scan (h : l.IsPlaced) :
  l.scan.IsPlaced
  := by
  fun_induction Lexer.scan l with
  | case1 l starved ih => exact ih h.step
  | case2 => exact h

end Lexer

end EquationLang
