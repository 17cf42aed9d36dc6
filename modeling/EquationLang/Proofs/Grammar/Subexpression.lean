import EquationLang.Proofs.Grammar.Acceptance
import EquationLang.Proofs.Text.Slices

/-!
# Parts of an equation that are read on their own

The text of a node of an accepted equation, cut out between the offsets where the node starts and
stops, is read as the same expression, moved to the start of the text.
-/

namespace EquationLang

/-- Moving tokens back undoes moving them on. -/
theorem map_mapPos_sub_shift (d : Nat) (ts : List Token) :
  (ts.map (Token.shift d)).map (Token.mapPos (· - d)) = ts
  := by
  have hid : Token.mapPos (· - d) ∘ Token.shift d = id := by
    funext t
    rw [Function.comp_apply, Token.shift, Token.mapPos, Nat.add_sub_cancel]
    rfl
  rw [List.map_map, hid, List.map_id]

/-- The text of an expression whose tokens are among those of the text `cs`: it is a part of `cs`
that ends with a character that is neither a blank nor a terminator, and with a terminator after it
it is read as the tokens of the expression, moved to the start. -/
theorem exists_part_of_spelled {cs : List Char} {e : Expr} {before us behind : List Token}
    (h : (Cursor.start cs).read.1 = before ++ (us ++ behind)) (hspelled : e.Spelled us) :
  ∃ ahead part last rest stop, cs = ahead ++ (part ++ [last] ++ rest)
    ∧ byteLength ahead = e.pos ∧ byteLength ahead + byteLength (part ++ [last]) = e.stop
    ∧ isBlank last = false ∧ last ≠ terminator
    ∧ Cursor.Reads (Cursor.start (part ++ [last] ++ [terminator]))
        (us.map (Token.mapPos (· - e.pos))) ⟨stop, true, [terminator]⟩
  := by
  obtain ⟨first, us', hfirst, hstart, hpos⟩ := hspelled.exists_first
  obtain ⟨us'', last, hlast, hend, hstop⟩ := hspelled.exists_last
  -- the stretch before the first token
  have hread := h
  rw [hfirst, List.cons_append] at hread
  obtain ⟨k, rest, hbefore, found, hk⟩ := Cursor.exists_before hread
    ⟨hstart.kind_ne (by simp), hstart.kind_ne (by simp), hstart.kind_ne (by simp)⟩
    hstart.ne_times
  obtain ⟨ahead, hahead, hoffset, -⟩ := hbefore.exists_part
  have hahead : cs = ahead ++ k.rest := hahead
  have hoffset : k.offset = byteLength ahead := by rw [hoffset, Cursor.start, Nat.zero_add]
  -- the stretch of the expression itself
  rw [hbefore.read_eq, List.append_cancel_left_eq, show k = ⟨k.offset, k.canEnd, k.rest⟩ from rfl,
    Cursor.read_eq_of_lexeme found k.canEnd false, hlast, List.append_assoc] at h
  obtain ⟨hcan, hstr⟩ := hend.canEndStatement
  obtain ⟨part, behind', hpart, hlastpos, hlexeme, hreads⟩ := Cursor.exists_through h hstr hcan
  obtain ⟨text, c, htext, hblank, hterminator⟩ := hlexeme.exists_last hcan
  obtain ⟨vs, stop, hvs, hshift, -⟩ :=
    (hreads [terminator] rfl).of_shift (Nat.zero_add k.offset).symm
  use ahead, part ++ text, c, behind', stop
  refine ⟨?_, ?_, ?_, hblank, hterminator, ?_⟩
  · rw [hahead, show k.rest = _ from hpart, htext]
    simp
  · rw [← hoffset, ← hk, hpos]
  · rw [← hstop, Token.stop, hlastpos, hoffset, utf8ByteSize_eq_byteLength, htext]
    simp [Nat.add_assoc]
  · rw [hlast, hshift, ← hpos, hk, map_mapPos_sub_shift, Cursor.start]
    rw [htext] at hvs
    simpa using hvs

/-- The text of each node of an accepted equation is accepted as an equation of its own, whose
expression is the node moved to the start. -/
theorem parse_slice_of_node {name eqn : String} {e s : Expr} (h : parse name eqn = .ok e)
    (hs : s.NodeOf e) :
  ∃ part, slice? eqn.toList s.pos s.stop = some part
    ∧ parse name (String.ofList part) = .ok (s.mapPos (· - s.pos))
  := by
  obtain ⟨-, ⟨us, semis, last, htokens, hspelled, -⟩, hcanonical, hnest⟩ :=
    parse_eq_ok_iff.mp h
  obtain ⟨before, vs, behind, rfl, hvs⟩ := hspelled.exists_node hs
  rw [equationTokens_eq_read, List.append_assoc, List.append_assoc] at htokens
  obtain ⟨ahead, part, c, rest, stop, htext, hpos, hstop, hblank, hterminator, hreads⟩ :=
    exists_part_of_spelled htokens hvs
  rw [← List.append_assoc, ← List.append_assoc] at htext
  obtain ⟨rest', heqn⟩ := exists_of_normalize htext hterminator
  use part ++ [c]
  constructor
  · rw [heqn, List.append_assoc, List.append_assoc, ← List.append_assoc part, ← hstop, ← hpos]
    apply slice?_append
  · obtain ⟨hcanonical', hnest'⟩ := hcanonical.node hs
    apply parse_of_reads hblank hterminator hreads rfl
    · apply hvs.mapPos
    · apply hcanonical'.of_unplaced_eq
      apply Expr.unplaced_mapPos
    · rw [Expr.nest_mapPos]
      apply hnest'.trans hnest

/-- The argument of a call is read on its own. -/
theorem parse_slice_of_argument :
  parse "y" "x ^ f(-b)" = .ok (.binary (.ident 0 "x") 2 .exp
      (.call (.ident 4 "f") 5 [.unary 6 .negative (.ident 7 "b")] 8))
    ∧ ∃ part, slice? "x ^ f(-b)".toList 6 8 = some part
      ∧ parse "y" (String.ofList part) = .ok (.unary 0 .negative (.ident 1 "b"))
  := by
  have h : parse "y" "x ^ f(-b)" = .ok (.binary (.ident 0 "x") 2 .exp
      (.call (.ident 4 "f") 5 [.unary 6 .negative (.ident 7 "b")] 8)) := by
    decide +kernel
  use h
  apply parse_slice_of_node (s := .unary 6 .negative (.ident 7 "b")) h
  apply Expr.NodeOf.inside (c := .call (.ident 4 "f") 5 [.unary 6 .negative (.ident 7 "b")] 8)
  · simp [Expr.children]
  · apply Expr.NodeOf.inside _ .root
    simp [Expr.children]

end EquationLang
