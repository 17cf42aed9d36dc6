import EquationLang.Proofs.Grammar.BareTokens
import EquationLang.Proofs.Text.Slices

/-!
# Juxtaposed parens

A closing paren with an opening one right after it is read as if the operator `*` were written
between them.  At the two parens the text is read in the same way with and without the operator
(`Cursor.read_juxtaposed`, `Cursor.read_written`), but for the offsets of what comes after
(`Cursor.read_shift`).  So the tokens of the whole text are the same, and so is the outcome of
reading it (`juxtaposition_is_multiplication`).
-/

namespace EquationLang

/-! ### At the parens -/

namespace Cursor

/-- The tokens of two parens with the operator between them, where the first one is at `offset` and
`ts` come after the operator. -/
def multiplied (offset : Nat) (ts : List Token) : List Token :=
  ⟨.rparen, offset, ")"⟩ :: ⟨.operator, offset + 1, "*"⟩ :: ts

/-- Where the parens stand side by side, the operator is inserted. -/
theorem read_juxtaposed (offset : Nat) (canEnd : Bool) (rest : List Char) :
  (⟨offset, canEnd, ')' :: '(' :: rest⟩ : Cursor).read
    = (multiplied offset (⟨offset + 1, true, '(' :: rest⟩ : Cursor).read.1,
      (⟨offset + 1, true, '(' :: rest⟩ : Cursor).read.2)
  := by
  have found : Piece.front? (')' :: '(' :: rest) = some (.lexeme .rparen [')'], '(' :: rest) := rfl
  rw [read_of_piece (k := ⟨offset, canEnd, _⟩) found rfl]
  rfl

/-- Where the operator is written between the parens, it is read. -/
theorem read_written (offset : Nat) (canEnd : Bool) (rest : List Char) :
  (⟨offset, canEnd, ')' :: '*' :: '(' :: rest⟩ : Cursor).read
    = (multiplied offset (⟨offset + 2, false, '(' :: rest⟩ : Cursor).read.1,
      (⟨offset + 2, false, '(' :: rest⟩ : Cursor).read.2)
  := by
  have found :
      Piece.front? (')' :: '*' :: '(' :: rest) = some (.lexeme .rparen [')'], '*' :: '(' :: rest) :=
    rfl
  have found' : Piece.front? ('*' :: '(' :: rest) = some (.lexeme .operator ['*'], '(' :: rest) :=
    rfl
  rw [read_of_piece (k := ⟨offset, canEnd, _⟩) found rfl,
    read_of_piece (k := after _ (.lexeme .rparen [')']) _) found' rfl]
  rfl

/-- Before the opening paren, the text is read in the same way in both cases, but one byte further
on in the second one. -/
theorem read_multiplied (offset : Nat) (canEnd : Bool) (rest : List Char) :
  ∃ ts fault,
    (⟨offset, canEnd, ')' :: '(' :: rest⟩ : Cursor).read = (multiplied offset ts, fault)
      ∧ (⟨offset, canEnd, ')' :: '*' :: '(' :: rest⟩ : Cursor).read
        = (multiplied offset (ts.map (Token.shift 1)), fault.map (Prod.map (· + 1) id))
  := by
  have found : Piece.front? ('(' :: rest) = some (.lexeme .lparen ['('], rest) := rfl
  have hshift : (⟨offset + 2, false, '(' :: rest⟩ : Cursor).read
      = ((⟨offset + 1, true, '(' :: rest⟩ : Cursor).shift 1).read :=
    read_eq_of_lexeme found false true
  refine ⟨_, _, read_juxtaposed offset canEnd rest, ?_⟩
  rw [read_written, hshift, read_shift]

/-! ### In a text -/

/-- What comes before a closing paren is read in the same way whatever comes after the paren. -/
theorem exists_reads_of_rparen {cs rest : List Char}
    (h : ∃ t ∈ (start (cs ++ ')' :: rest)).read.1, t.kind = .rparen ∧ t.pos = byteLength cs) :
  ∃ ts canEnd, ∀ rest', (start (cs ++ ')' :: rest')).Reads ts ⟨byteLength cs, canEnd, ')' :: rest'⟩
  := by
  obtain ⟨t, ht, hkind, hpos⟩ := h
  obtain ⟨before, behind, hread⟩ := List.append_of_mem ht
  obtain ⟨k', -, hreads, -, hplace⟩ :=
    exists_before hread (by simp [hkind]) (by simp [Token.isOp, hkind])
  obtain ⟨part, hpart, hoffset, hagain⟩ := hreads.exists_part
  -- the part that is read is `cs`, since it is as long
  have hlength : byteLength part = byteLength cs := by
    rw [← hpos, hplace, hoffset]
    exact (Nat.zero_add _).symm
  have hsplit : cs ++ ')' :: rest = part ++ k'.rest := hpart
  have hrest : k'.rest = ')' :: rest := by
    apply Option.some.inj
    rw [← dropBytes?_append part, ← hsplit, hlength, dropBytes?_append]
  rw [hrest] at hsplit
  obtain rfl := List.append_cancel_right hsplit
  use before, k'.canEnd
  intro rest'
  have hreads' := hagain (')' :: rest') (by rw [hrest]; rfl)
  rw [← hplace, hpos] at hreads'
  exact hreads'

/-- With and without the operator between the parens, a text has the same tokens and the same fault,
but for the offsets of what comes after the operator. -/
theorem read_juxtaposition {cs rest : List Char}
    (h : ∃ t ∈ (start (cs ++ ')' :: rest)).read.1, t.kind = .rparen ∧ t.pos = byteLength cs) :
  ∃ before, ∀ rest', ∃ ts fault,
    (start (cs ++ ')' :: '(' :: rest')).read
        = (before ++ multiplied (byteLength cs) ts, fault)
      ∧ (start (cs ++ ')' :: '*' :: '(' :: rest')).read
        = (before ++ multiplied (byteLength cs) (ts.map (Token.shift 1)),
          fault.map (Prod.map (· + 1) id))
  := by
  obtain ⟨before, canEnd, hreads⟩ := exists_reads_of_rparen h
  use before
  intro rest'
  obtain ⟨ts, fault, hjuxtaposed, hwritten⟩ := read_multiplied (byteLength cs) canEnd rest'
  use ts, fault
  rw [(hreads _).read_eq, (hreads _).read_eq, hjuxtaposed, hwritten]
  exact ⟨rfl, rfl⟩

end Cursor

/-! ### With a terminator -/

/-- The end of a text decides about its terminator. -/
theorem getLast?_trimEnd (before cs : List Char) {c : Char} (hc : isBlank c = false) :
  (trimEnd (before ++ c :: cs)).getLast? = (trimEnd (c :: cs)).getLast?
  := by
  have hne : (c :: cs).reverse.dropWhile isBlank ≠ [] := by
    rw [ne_eq, List.dropWhile_eq_nil_iff]
    intro hall
    rw [hall c (by simp)] at hc
    cases hc
  rw [trimEnd, trimEnd, List.getLast?_reverse, List.getLast?_reverse, List.reverse_append,
    List.dropWhile_append, if_neg (by simpa using hne), List.head?_append_of_ne_nil _ hne]

/-- Texts that end in the same way get the same terminator. -/
theorem exists_normalize (cs : List Char) {c : Char} (hc : isBlank c = false) :
  ∃ behind, ∀ (eqn : String) (before : List Char), eqn.toList = before ++ c :: cs →
    (normalize eqn).toList = before ++ c :: (cs ++ behind)
  := by
  use if (trimEnd (c :: cs)).getLast? = some terminator then [] else [terminator]
  intro eqn before h
  rw [normalize, h, getLast?_trimEnd before cs hc]
  split
  · rw [h, List.append_nil]
  · rw [String.toList_push, h, List.append_assoc]
    rfl

theorem map_bare_map_shift (d : Nat) (ts : List Token) :
  (ts.map (Token.shift d)).map Token.bare = ts.map Token.bare
  := by
  rw [List.map_map]
  rfl

/-- The diagnostics are about the fault, and stand where it is. -/
theorem Lexer.Reports.toList_map {fault : Option (Nat × Diagnostic.Code × String)}
    {es : Diagnostics} (h : Reports ∅ fault es) :
  es.toList.map (fun d => (d.pos.offset, d.wording)) = fault.toList
  := by
  cases fault with
  | none =>
    obtain rfl : es = ∅ := h
    rfl
  | some fault =>
    obtain ⟨pos, hpos, rfl⟩ := h
    apply congrArg (fun offset => [(offset, fault.2)]) hpos

/-- Equations have the same lexical fault, if one of them has it somewhere else in its text. -/
theorem map_wording_of_moved {u v : String} {f : Nat → Nat}
    (h : (Cursor.start (normalize v).toList).read.2
      = (Cursor.start (normalize u).toList).read.2.map (Prod.map f id)) :
  (lexicalErrors u).map Diagnostic.wording = (lexicalErrors v).map Diagnostic.wording
  := by
  have hwording (eqn : String) : (lexicalErrors eqn).map Diagnostic.wording
      = (Cursor.start (normalize eqn).toList).read.2.toList.map Prod.snd := by
    rw [← (reports_lexicalErrors eqn).toList_map, List.map_map]
    rfl
  rw [hwording, hwording, h, Option.toList_map, List.map_map]
  rfl

/-! ### The main result -/

theorem toList_juxtaposed (a b : String) :
  (a ++ ")(" ++ b).toList = a.toList ++ ')' :: '(' :: b.toList
  := by
  simp

theorem toList_written (a b : String) :
  (a ++ ")*(" ++ b).toList = a.toList ++ ')' :: '*' :: '(' :: b.toList
  := by
  simp

/-- Where a closing paren that is read as such has an opening paren right after it, the text has the
same tokens as the one with the operator `*` written between the parens, and the same lexical fault.
Up to the operator, the tokens stand at the same offsets, and everything after it is one byte
further on in the second text.  So the outcome of reading the two texts is the same. -/
theorem juxtaposition_is_multiplication {a b : String}
    (h : ∃ t ∈ (Lexer.ofText (a ++ ")(" ++ b)).drain.1,
      t.kind = .rparen ∧ t.pos = a.utf8ByteSize) :
  (∃ before after,
      (Lexer.ofText (a ++ ")(" ++ b)).drain.1 = before ++ ⟨.rparen, a.utf8ByteSize, ")"⟩
          :: ⟨.operator, a.utf8ByteSize + 1, "*"⟩ :: after
        ∧ (Lexer.ofText (a ++ ")*(" ++ b)).drain.1 = before ++ ⟨.rparen, a.utf8ByteSize, ")"⟩
          :: ⟨.operator, a.utf8ByteSize + 1, "*"⟩ :: after.map (Token.shift 1))
    ∧ (Lexer.ofText (a ++ ")*(" ++ b)).drain.2.errors.toList.map
          (fun d => (d.pos.offset, d.wording))
        = (Lexer.ofText (a ++ ")(" ++ b)).drain.2.errors.toList.map
          (fun d => (d.pos.offset + 1, d.wording))
    ∧ ∀ name name' : String,
      SameOutcome (parse name (a ++ ")(" ++ b)) (parse name' (a ++ ")*(" ++ b))
  := by
  have hsize := utf8ByteSize_eq_byteLength a
  rw [Lexer.drain_eq_read, toList_juxtaposed, hsize] at h
  obtain ⟨before, hread⟩ := Cursor.read_juxtaposition h
  refine ⟨?_, ?_, ?_⟩
  · obtain ⟨ts, fault, hjuxtaposed, hwritten⟩ := hread b.toList
    use before, ts
    rw [Lexer.drain_eq_read, Lexer.drain_eq_read, toList_juxtaposed, toList_written, hjuxtaposed,
      hwritten, hsize]
    exact ⟨rfl, rfl⟩
  · obtain ⟨ts, fault, hjuxtaposed, hwritten⟩ := hread b.toList
    have hreports := (Lexer.reports_drain (a ++ ")(" ++ b)).toList_map
    have hreports' := (Lexer.reports_drain (a ++ ")*(" ++ b)).toList_map
    rw [toList_juxtaposed, hjuxtaposed] at hreports
    rw [toList_written, hwritten, Option.toList_map, ← hreports, List.map_map] at hreports'
    exact hreports'
  · intro name name'
    obtain ⟨behind, hnormalize⟩ := exists_normalize b.toList (c := '(') rfl
    obtain ⟨ts, fault, hjuxtaposed, hwritten⟩ := hread (b.toList ++ behind)
    have htext : (normalize (a ++ ")(" ++ b)).toList
        = a.toList ++ ')' :: '(' :: (b.toList ++ behind) := by
      rw [hnormalize _ (a.toList ++ [')']) (by simp), List.append_assoc]
      rfl
    have htext' : (normalize (a ++ ")*(" ++ b)).toList
        = a.toList ++ ')' :: '*' :: '(' :: (b.toList ++ behind) := by
      rw [hnormalize _ (a.toList ++ [')', '*']) (by simp), List.append_assoc]
      rfl
    apply sameOutcome_of_bare
    · rw [equationTokens_eq_read, equationTokens_eq_read, htext, htext', hjuxtaposed, hwritten,
        List.map_append, List.map_append]
      simp only [Cursor.multiplied, List.map_cons, map_bare_map_shift]
    · apply map_wording_of_moved (f := (· + 1))
      rw [htext, htext', hjuxtaposed, hwritten]

/-- The parens of a call and those of a product, where only the first operator is written. -/
theorem juxtaposition_is_multiplication_after_call :
  ∃ e e', parse "v" ("f(é" ++ ")(" ++ "y)(z)") = .ok e
    ∧ parse "v" ("f(é" ++ ")*(" ++ "y)(z)") = .ok e' ∧ e.unplaced = e'.unplaced ∧ e ≠ e'
  := by
  have hok : (parse "v" ("f(é" ++ ")(" ++ "y)(z)")).isOk := by decide +kernel
  have hne : parse "v" ("f(é" ++ ")(" ++ "y)(z)") ≠ parse "v" ("f(é" ++ ")*(" ++ "y)(z)") := by
    decide +kernel
  obtain ⟨-, -, houtcome⟩ :=
    juxtaposition_is_multiplication (a := "f(é") (b := "y)(z)") (by decide +kernel)
  have hsame := houtcome "v" "v"
  generalize parse "v" ("f(é" ++ ")(" ++ "y)(z)") = x at *
  generalize parse "v" ("f(é" ++ ")*(" ++ "y)(z)") = x' at *
  cases hsame with
  | ok h => exact ⟨_, _, rfl, rfl, h, fun heq => hne (congrArg Except.ok heq)⟩
  | error => cases hok

end EquationLang
