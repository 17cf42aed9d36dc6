import EquationLang.Proofs.Token.Answers
import EquationLang.Proofs.Token.Context
import EquationLang.Proofs.Token.Terminators

/-!
# The first fault of a text

Which characters of a text are faults is told by what comes before them (`FaultAt`).  A text is read
up to the first of its faults and not further: this fault alone is reported, and what comes before
it is read as if the text ended there, but that no terminator is inserted
(`reading_ends_at_first_fault`).
-/

namespace EquationLang

/-- The character at the offset is a fault of the text `cs`. -/
def FaultAt (cs : List Char) (offset : Nat) (code : Diagnostic.Code) : Prop :=
  ∃ before c behind, cs = before ++ c :: behind ∧ byteLength before = offset
    ∧ (Context.between.after before).IsFault c behind code

/-- The character at the offset is the first fault of the text `cs`. -/
def IsFirstFault (cs : List Char) (offset : Nat) (code : Diagnostic.Code) : Prop :=
  FaultAt cs offset code ∧ ∀ offset' code', FaultAt cs offset' code' → offset ≤ offset'

/-- The text is read up to the offset and not further: the tokens before the mark of the end are
those of the text before the offset, in which there is no fault, but for a terminator that is
inserted at its end. -/
def IsCutAt (text : String) (offset : Nat) : Prop :=
  ∃ before body, takeBytes? offset text.toList = some before
    ∧ (Lexer.ofText text).drain.1 = body ++ [.endOfText offset]
    ∧ (∀ t ∈ body, t.kind ≠ .eof ∧ t.pos < offset ∧ ¬ (t.kind = .semi ∧ t.text = ""))
    ∧ (Lexer.ofText (String.ofList before)).drain.1
      = body ++ (if Token.canEndAfter false body then [⟨.semi, offset, ""⟩] else [])
        ++ [.endOfText offset]
    ∧ (Lexer.ofText (String.ofList before)).drain.2.errors.toList = []

theorem FaultAt.lt_byteLength {cs : List Char} {offset : Nat} {code : Diagnostic.Code}
    (h : FaultAt cs offset code) :
  offset < byteLength cs
  := by
  obtain ⟨before, c, behind, rfl, rfl, -⟩ := h
  rw [byteLength_append]
  apply Nat.lt_add_of_pos_right (byteLength_pos (List.cons_ne_nil c behind))

/-- At an offset there is only one sort of fault. -/
theorem FaultAt.code_unique {cs : List Char} {offset : Nat} {code code' : Diagnostic.Code}
    (h : FaultAt cs offset code) (h' : FaultAt cs offset code') :
  code = code'
  := by
  obtain ⟨before, c, behind, rfl, rfl, hfault⟩ := h
  obtain ⟨before', c', behind', hcs, hoffset, hfault'⟩ := h'
  have hbefore : before = before' := by
    have htake := takeBytes?_append before (c :: behind)
    rw [hcs, ← hoffset, takeBytes?_append] at htake
    exact (Option.some.inj htake).symm
  subst hbefore
  obtain ⟨rfl, rfl⟩ := List.cons.inj (List.append_cancel_left hcs)
  apply hfault.code_unique hfault'

/-- The first fault is one place and of one sort. -/
theorem IsFirstFault.unique {cs : List Char} {offset offset' : Nat} {code code' : Diagnostic.Code}
    (h : IsFirstFault cs offset code) (h' : IsFirstFault cs offset' code') :
  offset = offset' ∧ code = code'
  := by
  have hoffset : offset = offset' := Nat.le_antisymm (h.2 _ _ h'.1) (h'.2 _ _ h.1)
  subst hoffset
  exact ⟨rfl, h.1.code_unique h'.1⟩

theorem Context.IsClear.not_isFault {k : Context} {before behind rest : List Char} {c : Char}
    (h : IsClear rest k (before ++ c :: behind)) (code : Diagnostic.Code) :
  ¬ (k.after before).IsFault c (behind ++ rest) code
  := (isClear_append.mp h).2.1 code

/-- There is no fault in a part of a text that is clear. -/
theorem FaultAt.le_of_isClear {part rest : List Char} {offset : Nat} {code : Diagnostic.Code}
    (h : FaultAt (part ++ rest) offset code) (hclear : Context.IsClear rest .between part) :
  byteLength part ≤ offset
  := by
  obtain ⟨before, c, behind, hcs, rfl, hfault⟩ := h
  by_contra hlt
  obtain ⟨middle, rfl, hmiddle⟩ :=
    exists_append_of_byteLength_le hcs.symm (Nat.le_of_lt (Nat.lt_of_not_le hlt))
  cases middle with
  | nil => exact hlt (by rw [List.append_nil])
  | cons d middle =>
    obtain ⟨rfl, rfl⟩ := List.cons.inj hmiddle
    exact hclear.not_isFault code hfault

/-! ### Reading up to a fault -/

/-- A piece that is a fault begins with a character that is one. -/
theorem Context.isFault_of_front? {k : Context} {cs rest : List Char} {p : Piece}
    {code : Diagnostic.Code} {message : String} (found : Piece.front? cs = some (p, rest))
    (fault : p.fault? = some (code, message)) (hk : k.IsOver cs.head?) :
  ∃ c behind, cs = c :: behind ∧ k.IsFault c behind code
  := by
  obtain ⟨rfl, hshape, hstop⟩ := Piece.front?_eq_some_iff.mp found
  have hstring : k ≠ .string := by
    rintro rfl
    exact hk
  cases p with
  | unrecognized c =>
    cases fault
    use c, rest, rfl
    apply IsFault.unrecognized hshape.1 hshape.2 hstring
    rintro rfl
    obtain rfl := hk c rfl
    cases hshape.2
  | unclosed body =>
    cases fault
    obtain rfl := List.head?_eq_none_iff.mp hstop
    use '"', body, List.append_nil _
    apply IsFault.unclosed rfl hstring
    · rintro rfl
      have hbreak := hk '"' rfl
      cases hbreak
    · rintro rfl
      exact hk '"' rfl (by decide)
    · exact hshape
  | blank | comment | lexeme | quoted => cases fault

namespace Cursor

/-- There is no fault between two places of which the second is read from the first, and nothing
that begins between them goes on after the second. -/
theorem Reads.isClear {k k' : Cursor} {ts : List Token} (h : Reads k ts k') {c : Context}
    (hc : c.IsOver k.rest.head?) :
  ∃ part, k.rest = part ++ k'.rest ∧ k'.offset = k.offset + byteLength part
    ∧ Context.IsClear k'.rest c part ∧ (c.after part).IsOver k'.rest.head?
  := by
  induction h generalizing c with
  | done => exact ⟨[], rfl, rfl, trivial, hc⟩
  | step found sound more ih =>
    next k k' p rest ts =>
    obtain ⟨hsource, hshape, hstop⟩ := Piece.front?_eq_some_iff.mp found
    rw [hsource] at hc ⊢
    obtain ⟨hclear, hover⟩ := Context.isClear_source hshape sound hstop hc
    obtain ⟨part, hrest, hoffset, hclear', hover'⟩ := ih hover
    have hrest : rest = part ++ k'.rest := hrest
    use p.source ++ part
    refine ⟨?_, ?_, ?_, ?_⟩
    · rw [hrest, List.append_assoc]
    · rw [hoffset, byteLength_append, ← Nat.add_assoc]
      rfl
    · rw [Context.isClear_append, ← hrest]
      exact ⟨hclear, hclear'⟩
    · rwa [Context.after_append]

/-- A text is read up to a place before which there is no fault, and there the text ends or has a
fault. -/
theorem exists_cut (cs : List Char) :
  ∃ ts k part, (start cs).Reads ts k ∧ cs = part ++ k.rest ∧ k.offset = byteLength part
    ∧ (∀ offset code, FaultAt cs offset code → k.offset ≤ offset)
    ∧ ((k.rest = [] ∧ k.read = (k.closing, none))
      ∨ ∃ code message, k.rest.head? ≠ some '('
        ∧ k.read = ([.endOfText k.offset], some (k.offset, code, message))
        ∧ FaultAt cs k.offset code)
  := by
  obtain ⟨ts, k, hreads, hend⟩ := (start cs).exists_reads_to_end
  have hlast := isLast_of_end hend
  obtain ⟨part, hcs, hoffset, hclear, hover⟩ := hreads.isClear (c := .between) trivial
  have hcs : cs = part ++ k.rest := hcs
  have hoffset : k.offset = byteLength part := hoffset.trans (Nat.zero_add _)
  refine ⟨ts, k, part, hreads, hcs, hoffset, ?_, ?_⟩
  · rw [hcs, hoffset]
    intro offset code h
    apply h.le_of_isClear hclear
  obtain hnil | ⟨p, rest, code, message, found, fault⟩ := hend
  · exact .inl ⟨hnil, read_of_nil hnil⟩
  · right
    obtain ⟨c, behind, hrest, hfault⟩ := Context.isFault_of_front? found fault hover
    refine ⟨code, message, hlast.head?_ne, read_of_fault found fault, ?_⟩
    exact ⟨part, c, behind, hrest ▸ hcs, hoffset.symm, hfault⟩

end Cursor

namespace Lexer

/-- At most one fault is reported, whatever the lexer is asked for. -/
theorem length_diagnostics_le (text : String) (calls : List Call) :
  (((ofText text).answers calls).flatMap Answer.diagnostics
    ++ ((ofText text).after calls).errors.toList).length ≤ 1
  := by
  have hfollows := (follows_ofText text).after calls
  rw [List.nil_append] at hfollows
  cases hstop : ((ofText text).after calls).stop? with
  | none =>
    obtain ⟨-, -, hgiven, herrors, -⟩ := hfollows.reading hstop
    rw [hgiven, herrors]
    exact Nat.zero_le 1
  | some offset =>
    obtain ⟨-, herrors, -⟩ := hfollows.stopped offset hstop
    rw [herrors]
    apply length_faultsOf_le

/-- The fault that ends the reading is reported at its offset. -/
theorem faultsOf_of_read {text : String} {part rest : List Char} {code : Diagnostic.Code}
    {message : String} (htext : text.toList = part ++ rest)
    (hfault : (Cursor.start text.toList).read.2 = some (byteLength part, code, message)) :
  faultsOf text = [⟨code, message, Position.after part⟩]
  := by
  rw [faultsOf, hfault, htext]
  simp only [Option.toList_some, List.filterMap_cons, List.filterMap_nil, positionIn?_append,
    Option.map_some]

end Lexer

/-- Where the reading comes to a fault, the text is cut. -/
theorem isCutAt_of_reads {text : String} {ts : List Token} {k : Cursor}
    (hreads : (Cursor.start text.toList).Reads ts k) (hparen : k.rest.head? ≠ some '(')
    (hread : k.read.1 = [.endOfText k.offset]) :
  IsCutAt text k.offset
  := by
  obtain ⟨part, hpart, hoffset, hagain⟩ := hreads.exists_replaced
  have hpart : text.toList = part ++ k.rest := hpart
  have hoffset : k.offset = byteLength part := hoffset.trans (Nat.zero_add _)
  have hprefix : (Cursor.start part).read
      = (ts ++ (⟨k.offset, k.canEnd, []⟩ : Cursor).closing, none) := by
    have hreads' := hagain [] (Piece.replaces_none hparen)
    rw [List.append_nil] at hreads'
    have hread' : (Cursor.start part).read = _ := hreads'.read_eq
    rw [hread', Cursor.read_of_nil rfl]
  refine ⟨part, ts, ?_, ?_, ?_, ?_, ?_⟩
  · rw [hpart, hoffset]
    apply takeBytes?_append
  · rw [Lexer.drain_eq_read, hreads.read_eq, hread]
  · intro t ht
    obtain ⟨body, stop, hbody, hproper, -⟩ := (Cursor.start text.toList).exists_end
    rw [hreads.read_eq, hread] at hbody
    obtain ⟨rfl, -⟩ := List.append_singleton_inj.mp hbody
    refine ⟨(hproper t ht).2, ?_, ?_⟩
    · apply (hreads.extent (Cursor.start_isIn _) t ht).2 hparen
    · exact fun hend => hreads.text_ne_of_semi ht hend.1 hend.2
  · have hcanEnd : k.canEnd = Token.canEndAfter false ts := hreads.canEnd_eq hparen
    rw [Lexer.drain_eq_read, String.toList_ofList, hprefix, Cursor.closing, ← hcanEnd,
      List.append_assoc]
  · rw [Lexer.toList_errors_drain, Lexer.faultsOf_eq_nil_iff, String.toList_ofList, hprefix]

/-- A text either has no fault and is read to its end, or it has a first fault, which is the only
one that is reported and where the text is cut. -/
theorem faultless_or_cut (text : String) :
  ((∀ offset code, ¬ FaultAt text.toList offset code) ∧ Lexer.faultsOf text = []
      ∧ ∃ body, (Lexer.ofText text).drain.1 = body ++ [.endOfText text.utf8ByteSize]
        ∧ ∀ t ∈ body, t.kind ≠ .eof)
    ∨ ∃ d, IsFirstFault text.toList d.pos.offset d.code ∧ Lexer.faultsOf text = [d]
      ∧ IsCutAt text d.pos.offset
  := by
  obtain ⟨ts, k, part, hreads, htext, hoffset, hbefore, hend⟩ := Cursor.exists_cut text.toList
  obtain ⟨hnil, hread⟩ | ⟨code, message, hparen, hread, hfault⟩ := hend
  · left
    have hend : k.offset = byteLength text.toList := by rw [hoffset, htext, hnil, List.append_nil]
    refine ⟨?_, ?_, ?_⟩
    · intro offset code h
      exact absurd (hbefore offset code h) (Nat.not_le_of_lt (hend ▸ h.lt_byteLength))
    · rw [Lexer.faultsOf_eq_nil_iff, hreads.read_eq, hread]
    · obtain ⟨body, stop, hbody, hkind⟩ := Lexer.exists_drain text
      have hstop : Token.endOfText stop = .endOfText k.offset := by
        have hlast := congrArg List.getLast? hbody
        rw [Lexer.drain_eq_read, hreads.read_eq, hread, Cursor.closing, ← List.append_assoc,
          List.getLast?_concat, List.getLast?_concat] at hlast
        exact (Option.some.inj hlast).symm
      use body
      rw [hbody, hstop, hend, ← utf8ByteSize_eq_byteLength]
      exact ⟨rfl, hkind⟩
  · right
    have hplace : (Position.after part).offset = k.offset := hoffset.symm
    use ⟨code, message, Position.after part⟩
    rw [hplace]
    refine ⟨⟨hfault, hbefore⟩, ?_, isCutAt_of_reads hreads hparen (by rw [hread])⟩
    apply Lexer.faultsOf_of_read htext
    rw [hreads.read_eq, hread, hoffset]

/-- At most one fault of a text is reported, and it is the first one.  The text is cut there.  If
there is no fault, nothing is reported and the text is read to its end. -/
theorem reading_ends_at_first_fault (text : String) :
  (∀ calls, (((Lexer.ofText text).answers calls).flatMap Lexer.Answer.diagnostics
      ++ ((Lexer.ofText text).after calls).errors.toList).length ≤ 1)
    ∧ (∀ offset code, IsFirstFault text.toList offset code
      ↔ ∃ d ∈ (Lexer.ofText text).drain.2.errors.toList, d.pos.offset = offset ∧ d.code = code)
    ∧ (∀ offset code, IsFirstFault text.toList offset code → IsCutAt text offset)
    ∧ ((∀ offset code, ¬ FaultAt text.toList offset code) →
      (Lexer.ofText text).drain.2.errors.toList = []
        ∧ ∃ body, (Lexer.ofText text).drain.1 = body ++ [.endOfText text.utf8ByteSize]
          ∧ ∀ t ∈ body, t.kind ≠ .eof)
  := by
  use Lexer.length_diagnostics_le text
  rw [Lexer.toList_errors_drain]
  obtain ⟨hnone, hfaults, hend⟩ | ⟨d, hfirst, hfaults, hcut⟩ := faultless_or_cut text
  · rw [hfaults]
    refine ⟨?_, fun offset code h => absurd h.1 (hnone offset code), fun _ => ⟨rfl, hend⟩⟩
    intro offset code
    exact ⟨fun h => absurd h.1 (hnone offset code), fun ⟨d, hd, _⟩ => nomatch hd⟩
  · rw [hfaults]
    refine ⟨?_, ?_, fun hnone => absurd hfirst.1 (hnone _ _)⟩
    · intro offset code
      constructor
      · intro h
        obtain ⟨rfl, rfl⟩ := hfirst.unique h
        exact ⟨d, List.mem_singleton_self d, rfl, rfl⟩
      · rintro ⟨d', hd', rfl, rfl⟩
        obtain rfl := List.mem_singleton.mp hd'
        exact hfirst
    · intro offset code h
      obtain ⟨rfl, -⟩ := hfirst.unique h
      exact hcut

end EquationLang
