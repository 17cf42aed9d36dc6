import EquationLang.Proofs.Token.Calls
import EquationLang.Proofs.Token.Terminators

/-!
# Lines are read apart

Every piece but a string literal ends before a line break, and after a line break no statement is
left to be ended.  So a text without a fault is read in the same way when a line break and more text
follow it, but for the terminator at its end, and what follows is read as if it were a text of its
own (`Cursor.read_lines`, `lines_are_read_apart`).
-/

namespace EquationLang

/-- The token in a text that goes on with a line break: the line break is the terminator that is
inserted when the text ends there. -/
def Token.beforeLineBreak (t : Token) : Token :=
  if t.kind = .semi ∧ t.text = "" then { t with text := "\n" } else t

/-- The position in a text that begins with the lines `cs` and goes on with this one after a line
break. -/
def Position.below (cs : List Char) (p : Position) : Position where
  offset := p.offset + (byteLength cs + 1)
  line := p.line + (cs.count '\n' + 1)
  column := p.column

/-- The diagnostic in a text that begins with the lines `cs` and goes on with this one after a line
break. -/
def Diagnostic.below (cs : List Char) (d : Diagnostic) : Diagnostic :=
  { d with pos := d.pos.below cs }

/-! ### Positions after a line break -/

theorem byteLength_lineBreak (cs ds : List Char) :
  byteLength (cs ++ '\n' :: ds) = byteLength ds + (byteLength cs + 1)
  := by
  have hbreak : '\n'.utf8Size = 1 := by decide
  rw [byteLength_append, byteLength_cons, hbreak]
  omega

theorem Position.after_lines (cs ds : List Char) :
  Position.after (cs ++ '\n' :: ds) = (Position.after ds).below cs
  := by
  have hcolumn : (cs ++ '\n' :: ds).reverse.takeWhile (· ≠ '\n')
      = ds.reverse.takeWhile (· ≠ '\n') := by
    rw [List.reverse_append, List.reverse_cons, List.append_assoc, List.singleton_append,
      List.takeWhile_append]
    split
    · next hall =>
      rw [(List.takeWhile_prefix _).eq_of_length hall, List.takeWhile_cons_of_neg (by simp),
        List.append_nil]
    · rfl
  have hline : (cs ++ '\n' :: ds).count '\n' = ds.count '\n' + (cs.count '\n' + 1) := by
    rw [List.count_append, List.count_cons_self]
    omega
  rw [after, after, below, hcolumn, hline, byteLength_lineBreak, Nat.add_assoc]

theorem positionIn?_lines (cs ds : List Char) (offset : Nat) :
  positionIn? (cs ++ '\n' :: ds) (offset + (byteLength cs + 1))
    = (positionIn? ds offset).map (Position.below cs)
  := by
  have htake := takeBytes?_append_add (cs ++ ['\n']) ds offset
  rw [byteLength_lineBreak, byteLength_nil, Nat.zero_add, Nat.add_comm, List.append_assoc,
    List.singleton_append] at htake
  rw [positionIn?, positionIn?, htake, Option.map_map, Option.map_map]
  apply congrArg (Option.map · _)
  funext before
  rw [Function.comp_apply, Function.comp_apply, List.append_assoc, List.singleton_append,
    Position.after_lines]

/-- The faults of a text are reported further down if lines come before it. -/
theorem Lexer.faultsOf_lines {a b text : String} (h : text.toList = a.toList ++ '\n' :: b.toList)
    (hfault : (Cursor.start text.toList).read.2
      = (Cursor.start b.toList).read.2.map (Prod.map (· + (byteLength a.toList + 1)) id)) :
  faultsOf text = (faultsOf b).map (Diagnostic.below a.toList)
  := by
  rw [faultsOf, faultsOf, hfault, h]
  cases (Cursor.start b.toList).read.2 with
  | none => rfl
  | some fault =>
    obtain ⟨offset, code, message⟩ := fault
    simp only [Option.map_some, Prod.map_apply, Option.toList_some, id_eq, List.filterMap_cons,
      List.filterMap_nil, positionIn?_lines]
    cases positionIn? b.toList offset <;> rfl

/-! ### Pieces before a line break -/

namespace Piece

/-- A text may go on with a line break. -/
theorem replaces_lineBreak :
  Replaces none (some '\n')
  := by
  constructor
  · intro p sound hstop
    cases p with
    | comment body =>
      intro c hc
      exact (Option.mem_some.mp hc).symm
    | lexeme kind text =>
      cases kind with
      | num =>
        intro c hc hnumber
        obtain rfl := Option.mem_some.mp hc
        have hpart := hnumber.isNumberPart (c := '\n') (by simp)
        cases hpart
      | ident =>
        intro c hc
        obtain rfl := Option.mem_some.mp hc
        decide
      | operator =>
        intro _
        decide
      | eof | str | semi | lbrace | rbrace | lparen | rparen | lbracket | rbracket => trivial
    | blank | quoted => trivial
    | unrecognized | unclosed => cases sound
  · decide

end Piece

namespace Cursor

/-- A terminator that belongs to a piece has a text, so a line break after the piece does not
matter. -/
theorem Reads.map_beforeLineBreak {k k' : Cursor} {ts : List Token} (h : Reads k ts k') :
  ts.map Token.beforeLineBreak = ts
  := by
  apply (List.map_congr_left fun t ht => ?_).trans (List.map_id _)
  rw [Token.beforeLineBreak, if_neg fun hend => h.text_ne_of_semi ht hend.1 hend.2, id]

/-- A line break is a terminator if a statement can end there, and what follows is read as if it
were a text of its own. -/
theorem read_lineBreak (offset : Nat) (canEnd : Bool) (rest : List Char) :
  (⟨offset, canEnd, '\n' :: rest⟩ : Cursor).read
    = ((if canEnd then [⟨.semi, offset, "\n"⟩] else [])
        ++ (start rest).read.1.map (Token.shift (offset + 1)),
      (start rest).read.2.map (Prod.map (· + (offset + 1)) id))
  := by
  have found : Piece.front? ('\n' :: rest) = some (.blank '\n', rest) := rfl
  have hbreak : '\n'.utf8Size = 1 := by decide
  have hafter : (⟨offset, canEnd, '\n' :: rest⟩ : Cursor).after (.blank '\n') rest
      = (start rest).shift (offset + 1) := by
    simp [after, shift, start, Piece.source, Piece.canEnd, hbreak]
  rw [read_of_piece (k := ⟨offset, canEnd, '\n' :: rest⟩) found rfl, hafter, read_shift]
  simp [Piece.tokens]

/-- A text without a fault, a line break and another text are read one after the other. -/
theorem read_lines {cs : List Char} (h : (start cs).read.2 = none) (ds : List Char) :
  ∃ body, (start cs).read.1 = body ++ [.endOfText (byteLength cs)]
    ∧ (start (cs ++ '\n' :: ds)).read
      = (body.map Token.beforeLineBreak
          ++ (start ds).read.1.map (Token.shift (byteLength cs + 1)),
        (start ds).read.2.map (Prod.map (· + (byteLength cs + 1)) id))
  := by
  obtain ⟨ts, k, hreads, hlast⟩ := (start cs).exists_isLast
  have hoffset := (start_isIn cs).of_reads hreads
  obtain ⟨part, hpart, -, hagain⟩ := hreads.exists_replaced
  rw [hreads.read_eq] at h ⊢
  obtain ⟨hnil, hread⟩ | ⟨-, fault, hread⟩ := hlast
  · rw [← hoffset.offset_eq hnil]
    have hcs : cs = part := by
      rw [hnil, List.append_nil] at hpart
      exact hpart
    have hreads' := hagain ('\n' :: ds) (by rw [hnil]; exact Piece.replaces_lineBreak)
    use ts ++ if k.canEnd then [⟨.semi, k.offset, ""⟩] else []
    constructor
    · rw [hread, closing, List.append_assoc]
    · rw [← hcs] at hreads'
      have hread' : (start (cs ++ '\n' :: ds)).read = _ := hreads'.read_eq
      rw [hread', read_lineBreak, List.map_append, hreads.map_beforeLineBreak, List.append_assoc]
      cases k.canEnd <;> rfl
  · rw [hread] at h
    cases h

end Cursor

/-- A text without a fault has a line break and another text after it.  The tokens are those of the
first text, but with the line break in the place of a terminator inserted at its end, and those of
the second one, as much further on as the first text and the line break are long.  What is reported
about the second text is reported at its place further down. -/
theorem lines_are_read_apart {a : String} (b : String)
    (h : (Lexer.ofText a).drain.2.hasErrors = false) :
  ∃ body, (Lexer.ofText a).drain.1 = body ++ [.endOfText a.utf8ByteSize]
    ∧ (Lexer.ofText (a ++ "\n" ++ b)).drain.1
      = body.map Token.beforeLineBreak
        ++ (Lexer.ofText b).drain.1.map (Token.shift (a.utf8ByteSize + 1))
    ∧ (Lexer.ofText (a ++ "\n" ++ b)).drain.2.errors.toList
      = (Lexer.ofText b).drain.2.errors.toList.map (Diagnostic.below a.toList)
  := by
  have htext : (a ++ "\n" ++ b).toList = a.toList ++ '\n' :: b.toList := by simp
  have hsize := utf8ByteSize_eq_byteLength a
  rw [Lexer.hasErrors_drain] at h
  obtain ⟨body, hbody, hread⟩ := Cursor.read_lines h b.toList
  use body
  rw [Lexer.drain_eq_read, Lexer.drain_eq_read, Lexer.drain_eq_read, Lexer.toList_errors_drain,
    Lexer.toList_errors_drain, hsize, htext, hread]
  refine ⟨hbody, rfl, ?_⟩
  apply Lexer.faultsOf_lines htext
  rw [htext, hread]

/-- After a comment at the end of a line, a paren that is closed and a literal that is not. -/
theorem lines_are_read_apart_at_comment :
  (Lexer.ofText ("é(x) //)" ++ "\n" ++ "(y \"")).drain.1.map (fun t => (t.kind, t.pos, t.text))
      = [(.ident, 0, "é"), (.lparen, 2, "("), (.ident, 3, "x"), (.rparen, 4, ")"),
        (.semi, 9, "\n"), (.lparen, 10, "("), (.ident, 11, "y"), (.eof, 13, "")]
    ∧ (Lexer.ofText ("é(x) //)" ++ "\n" ++ "(y \"")).drain.2.errors.toList
      = [⟨.unclosedStringLiteral, "string literal not terminated", ⟨13, 2, 4⟩⟩]
  := by
  obtain ⟨body, hbody, htokens, herrors⟩ :=
    lines_are_read_apart (a := "é(x) //)") "(y \"" (by decide +kernel)
  have hbody' : body = [⟨.ident, 0, "é"⟩, ⟨.lparen, 2, "("⟩, ⟨.ident, 3, "x"⟩, ⟨.rparen, 4, ")"⟩,
      ⟨.semi, 9, ""⟩] := by
    have hdrain : (Lexer.ofText "é(x) //)").drain.1 = [⟨.ident, 0, "é"⟩, ⟨.lparen, 2, "("⟩,
        ⟨.ident, 3, "x"⟩, ⟨.rparen, 4, ")"⟩, ⟨.semi, 9, ""⟩] ++ [.endOfText 9] := by
      decide +kernel
    have hsize : "é(x) //)".utf8ByteSize = 9 := by decide
    rw [hdrain, hsize] at hbody
    apply (List.append_cancel_right hbody).symm
  rw [htokens, herrors, hbody']
  decide +kernel

end EquationLang
