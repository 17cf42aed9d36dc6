import EquationLang.Proofs.Token.Calls

/-!
# What a lexer answers

Whatever a lexer has been asked for before, the token it hands out next is the one of the text that
comes after those it has handed out, and it knows of the fault of its text from when it has come
past it until the fault is taken from it (`Lexer.answers_after_calls`).  Looking at a token does not
change the tokens that are handed out later.
-/

namespace EquationLang

namespace Cursor

/-- The fault that is found when reading on from a place does not stand before the place. -/
theorem le_of_fault {k : Cursor} {fault : Nat × Diagnostic.Code × String}
    (h : fault ∈ k.read.2) :
  k.offset ≤ fault.1
  := by
  fun_induction read k with
  | case1 => cases h
  | case2 k p rest found code message =>
    cases h
    apply Nat.le_refl
  | case3 k p rest found sound fewer ih =>
    apply Nat.le_trans _ (ih h)
    apply Nat.le_add_right

end Cursor

namespace Lexer

variable {l : Lexer} {text : String} {given : List Diagnostic}

/-! ### Tokens -/

/-- The next token that the lexer hands out is the first one of `ts`; if there is none, then it is
`mark`, or nothing at all. -/
structure HandsOut (ts : List Token) (mark : Token) (l : Lexer) : Prop where
  peek : (l.call .peek).1 = .token (some (ts.headD mark))
  next : (l.call .next).1 = .token (some (ts.headD mark))
  next? : (l.call .next?).1 = .token ts.head?

/-- The token that stands for a missing one is the one that marks the end of the text. -/
theorem Follows.endToken_eq (h : l.Follows text given) (stopped : l.stop?.isSome) {mark : Token}
    (hmark : (ofText text).drain.1.getLast? = some mark) :
  l.endToken = mark
  := by
  obtain ⟨offset, stop⟩ := Option.isSome_iff_exists.mp stopped
  obtain ⟨hlast, -⟩ := h.stopped offset stop
  rw [drain_eq_read] at hmark
  rw [endToken, stop]
  apply Option.some.inj (hlast.symm.trans hmark)

theorem Follows.peek_eq (h : l.Follows text given) {mark : Token}
    (hmark : (ofText text).drain.1.getLast? = some mark) :
  l.peek.1 = l.toCome.headD mark
  := by
  rw [peek_eq_headD]
  cases hcome : l.toCome with
  | cons t ts => rfl
  | nil =>
    have empty : l.scan.pending = [] := by
      rw [← toCome_scan] at hcome
      apply (List.append_eq_nil_iff.mp hcome).1
    apply h.scan.endToken_eq (stopped_of_scan_empty empty) hmark

theorem Follows.handsOut (h : l.Follows text given) {mark : Token}
    (hmark : (ofText text).drain.1.getLast? = some mark) :
  l.HandsOut l.toCome mark
  := by
  constructor
  · rw [Lexer.call, h.peek_eq hmark]
  · rw [Lexer.call, show l.next.1 = l.peek.1 from rfl, h.peek_eq hmark]
  · rw [call_next?, head?_pending_scan]

/-- Lexers that hand out the same tokens answer calls for a token alike. -/
theorem HandsOut.call_eq {l' : Lexer} {ts : List Token} {mark : Token} (h : l.HandsOut ts mark)
    (h' : l'.HandsOut ts mark) {c : Call} (looks : c.looks) :
  (l.call c).1 = (l'.call c).1
  := by
  cases c with
  | peek => rw [h.peek, h'.peek]
  | next => rw [h.next, h'.next]
  | next? => rw [h.next?, h'.next?]
  | resolve | hasErrors | takeErrors => cases looks

/-! ### Positions -/

theorem HasPassed.call {offset : Nat} (h : l.HasPassed offset) (c : Call) :
  (l.call c).2.HasPassed offset
  := by
  cases c with
  | peek | next => apply h.scan
  | next? =>
    rw [call_next?]
    apply h.scan
  | resolve | hasErrors | takeErrors => exact h

theorem HasPassed.after {offset : Nat} (h : l.HasPassed offset) (cs : List Call) :
  (l.after cs).HasPassed offset
  := by
  induction cs generalizing l with
  | nil => exact h
  | cons c cs ih => apply ih (h.call c)

/-- A lexer has come past every token it hands out. -/
theorem IsPlaced.hasPassed_call (h : l.IsPlaced) {c : Call} {t : Token}
    (ht : t ∈ (l.call c).1.tokens) :
  (l.call c).2.HasPassed t.pos
  := by
  have hscan := h.scan
  have hpeek : l.scan.HasPassed l.peek.1.pos := by
    rw [peek]
    cases hpending : l.scan.pending with
    | nil =>
      obtain ⟨offset, stop⟩ := Option.isSome_iff_exists.mp (stopped_of_scan_empty hpending)
      rw [List.headD_nil, endToken, stop]
      apply hscan.stop offset stop
    | cons t ts =>
      apply hscan.pending
      rw [hpending]
      apply List.mem_cons_self
  cases c with
  | peek | next =>
    obtain rfl := List.mem_singleton.mp ht
    exact hpeek
  | next? =>
    rw [call_next?] at ht ⊢
    apply hscan.pending t
    apply List.mem_of_mem_head? (Option.mem_toList.mp ht)
  | resolve | hasErrors | takeErrors => cases ht

theorem Follows.hasPassed_after (h : l.Follows text given) {cs : List Call} {t : Token}
    (ht : t ∈ (l.answers cs).flatMap Answer.tokens) :
  (l.after cs).HasPassed t.pos
  := by
  induction cs generalizing l given with
  | nil => cases ht
  | cons c cs ih =>
    rw [answers, List.flatMap_cons] at ht
    obtain ht | ht := List.mem_append.mp ht
    · apply (h.placed.hasPassed_call ht).after
    · apply ih (h.call c) ht

theorem Follows.positionIn?_eq (h : l.Follows text given) {offset : Nat}
    (hpassed : l.HasPassed offset) :
  positionIn? text.toList offset = some (l.resolve offset)
  := by
  rw [← h.text_eq]
  apply h.placed.positionIn?_eq hpassed

theorem Follows.le_offset_after (h : l.Follows text given) (cs : List Call) :
  l.offset ≤ (l.after cs).offset
  := (h.after cs).placed.le_offset (h.placed.hasPassed_offset.after cs)

/-- An offset in the part of the text that has been read keeps its position, whatever the lexer is
asked for. -/
theorem Follows.resolve_after (h : l.Follows text given) (cs : List Call) {offset : Nat}
    (hle : offset ≤ l.offset) :
  (l.after cs).resolve offset = (LineTable.ofText text.toList).position text.toList offset
  := by
  have hafter := h.after cs
  rw [hafter.placed.resolve_eq (Nat.le_trans hle (h.le_offset_after cs)), hafter.text_eq]

/-- Taking all tokens is a sequence of calls. -/
theorem exists_calls_of_drain (l : Lexer) :
  ∃ cs, l.drain.1 = (l.answers cs).flatMap Answer.tokens ∧ l.drain.2 = l.after cs
  := by
  fun_induction drain l with
  | case1 => exact ⟨[], rfl, rfl⟩
  | case2 l t l' taken fewer ts done hdrain ih =>
    obtain ⟨cs, htokens, hafter⟩ := ih
    rw [hdrain] at htokens hafter
    have hcall : l.call .next? = (.token (some t), l') := by rw [call, taken]
    use .next? :: cs
    rw [answers, after, hcall, List.flatMap_cons, ← htokens, ← hafter]
    exact ⟨rfl, rfl⟩

/-- A lexer has come past all tokens that are taken from it. -/
theorem Follows.hasPassed_drain (h : l.Follows text given) {t : Token} (ht : t ∈ l.drain.1) :
  l.drain.2.HasPassed t.pos
  := by
  obtain ⟨cs, htokens, hafter⟩ := l.exists_calls_of_drain
  rw [htokens] at ht
  rw [hafter]
  apply h.hasPassed_after ht

/-! ### Looking at a token -/

/-- Looking at a token changes no token that is handed out later, and no position in the part of the
text that has been read.  It changes nothing at all if a token is asked for next. -/
structure LooksAhead (l : Lexer) : Prop where
  /-- Calls for a token are answered alike. -/
  tokens : ∀ cs c, c.looks →
    (((l.call .peek).2.after cs).call c).1 = ((l.after cs).call c).1
  /-- Offsets in the part that has been read keep their position. -/
  positions : ∀ cs offset, offset ≤ l.offset →
    ((l.call .peek).2.after cs).resolve offset = (l.after cs).resolve offset
  /-- The answer and the lexer after it are the same. -/
  again : ∀ c, c.looks → (l.call .peek).2.call c = l.call c

theorem Follows.looksAhead (h : l.Follows text given) :
  l.LooksAhead
  := by
  have hpeek := h.call .peek
  constructor
  · intro cs c looks
    obtain ⟨ts, offset, hdrain, -⟩ := exists_drain text
    have hmark : (ofText text).drain.1.getLast? = some (.endOfText offset) := by
      rw [hdrain, List.getLast?_concat]
    have hcome : ((l.call .peek).2.after cs).toCome = (l.after cs).toCome := by
      rw [toCome_after, toCome_after, toCome_call]
      rfl
    have hout := (hpeek.after cs).handsOut hmark
    rw [hcome] at hout
    apply hout.call_eq ((h.after cs).handsOut hmark) looks
  · intro cs offset hle
    have hle' : offset ≤ (l.call .peek).2.offset := Nat.le_trans hle (h.le_offset_after [.peek])
    rw [h.resolve_after cs hle, hpeek.resolve_after cs hle']
  · intro c looks
    apply call_scan looks

/-! ### Faults -/

/-- The lexer has read past the place of a diagnostic. -/
def HasReached (l : Lexer) (d : Diagnostic) : Prop := d.pos.offset < l.offset

/-- Of the diagnostics `es` of its text, the lexer has handed out `given`.  It has those it has read
past, and no longer those it has handed out. -/
structure Tells (es given : List Diagnostic) (l : Lexer) : Prop where
  /-- The lexer has errors once it has come to them, until they are taken. -/
  hasErrors : l.hasErrors ↔ given = [] ∧ ∃ d ∈ es, l.HasReached d
  /-- What can be taken now. -/
  takeErrors : l.takeErrors.1.toList = if l.hasErrors then es else []
  /-- What has been taken by now. -/
  handedOut : given <+: es
  once : given.length ≤ 1

theorem length_faultsOf_le (text : String) :
  (faultsOf text).length ≤ 1
  := by
  apply Nat.le_trans (List.length_filterMap_le _ _)
  cases (Cursor.start text.toList).read.2 with
  | none => apply Nat.zero_le
  | some fault => apply Nat.le_refl

/-- A fault of a text is reported at its place. -/
theorem exists_fault_of_mem_faultsOf {d : Diagnostic} (h : d ∈ faultsOf text) :
  ∃ fault ∈ (Cursor.start text.toList).read.2, fault.1 = d.pos.offset
  := by
  obtain ⟨fault, hfault, hd⟩ := List.mem_filterMap.mp h
  use fault, Option.mem_toList.mp hfault
  obtain ⟨pos, hpos, rfl⟩ := Option.map_eq_some_iff.mp hd
  apply (offset_of_positionIn? hpos).symm

/-- The faults of a text are reported where they are in the text. -/
theorem positionIn?_of_mem_faultsOf {d : Diagnostic} (h : d ∈ faultsOf text) :
  positionIn? text.toList d.pos.offset = some d.pos
  := by
  obtain ⟨fault, -, hd⟩ := List.mem_filterMap.mp h
  obtain ⟨pos, hpos, rfl⟩ := Option.map_eq_some_iff.mp hd
  rw [← offset_of_positionIn? hpos] at hpos
  exact hpos

/-- A lexer has read past the fault of its text when it has come to the end. -/
theorem Follows.hasReached_iff (h : l.Follows text given) {d : Diagnostic}
    (hd : d ∈ faultsOf text) :
  l.HasReached d ↔ l.stop?.isSome
  := by
  obtain ⟨fault, hmem, hplace⟩ := exists_fault_of_mem_faultsOf hd
  rw [HasReached, ← hplace]
  cases stop : l.stop? with
  | none =>
    have hle := Cursor.le_of_fault ((h.reading stop).1 ▸ hmem)
    rw [← Nat.not_le]
    simp only [Option.isSome_none, Bool.false_eq_true, iff_false, not_not]
    exact hle
  | some offset =>
    have hlt := ((h.stopped offset stop).2.2 fault hmem).1
    simp only [hlt, Option.isSome_some]

/-- Diagnostics that a lexer has are the faults of its text, and it has not handed them out. -/
theorem Follows.eq_faultsOf (h : l.Follows text given) (herrors : l.hasErrors) :
  l.stop?.isSome ∧ given = [] ∧ l.errors.toList = faultsOf text
  := by
  rw [hasErrors_iff] at herrors
  cases stop : l.stop? with
  | none => exact absurd (h.reading stop).2.2.2.1 herrors
  | some offset =>
    obtain ⟨-, hfaults, -⟩ := h.stopped offset stop
    have hlength := length_faultsOf_le text
    have hpos := List.length_pos_iff.mpr herrors
    have hgiven : given = [] := by
      rw [← hfaults, List.length_append] at hlength
      apply List.eq_nil_of_length_eq_zero
      omega
    rw [hgiven, List.nil_append] at hfaults
    exact ⟨rfl, hgiven, hfaults⟩

theorem Follows.given_isPrefix (h : l.Follows text given) :
  given <+: faultsOf text
  := by
  cases stop : l.stop? with
  | none =>
    rw [(h.reading stop).2.2.1]
    apply List.nil_prefix
  | some offset =>
    rw [← (h.stopped offset stop).2.1]
    apply List.prefix_append

theorem Follows.tells (h : l.Follows text given) :
  l.Tells (faultsOf text) given
  := by
  constructor
  case hasErrors =>
    constructor
    · intro herrors
      obtain ⟨stopped, hgiven, hfaults⟩ := h.eq_faultsOf herrors
      obtain ⟨d, hd⟩ := List.exists_mem_of_ne_nil _ (l.hasErrors_iff.mp herrors)
      rw [hfaults] at hd
      use hgiven, d, hd
      apply (h.hasReached_iff hd).mpr stopped
    · rintro ⟨rfl, d, hd, reached⟩
      obtain ⟨offset, stop⟩ := Option.isSome_iff_exists.mp ((h.hasReached_iff hd).mp reached)
      rw [← (h.stopped offset stop).2.1, List.nil_append] at hd
      apply l.hasErrors_iff.mpr (List.ne_nil_of_mem hd)
  case takeErrors =>
    split
    · next herrors => apply (h.eq_faultsOf herrors).2.2
    · next herrors =>
      rw [hasErrors_iff, not_not] at herrors
      exact herrors
  case handedOut => apply h.given_isPrefix
  case once => apply Nat.le_trans h.given_isPrefix.length_le (length_faultsOf_le text)

/-! ### All calls together -/

/-- After any calls, a lexer hands out the tokens of its text that have not been taken, and then the
mark of the end again and again, or nothing; and it tells the fault of its text once.  Never more
than two tokens are pending. -/
theorem answers_after_calls (text : String) (calls : List Call) :
  ∃ body mark, (ofText text).drain.1 = body ++ [mark] ∧ mark.kind = .eof
    ∧ (∀ t ∈ body, t.kind ≠ .eof)
    ∧ ((ofText text).after calls).HandsOut
      ((ofText text).drain.1.drop (calls.countP Call.takes)) mark
    ∧ ((ofText text).after calls).LooksAhead
    ∧ ((ofText text).after calls).Tells (ofText text).drain.2.errors.toList
      (((ofText text).answers calls).flatMap Answer.diagnostics)
    ∧ ((ofText text).after calls).pending.length ≤ 2
  := by
  obtain ⟨body, offset, hdrain, hbody⟩ := exists_drain text
  have hmark : (ofText text).drain.1.getLast? = some (.endOfText offset) := by
    rw [hdrain, List.getLast?_concat]
  have hafter := (follows_ofText text).after calls
  rw [List.nil_append] at hafter
  refine ⟨body, .endOfText offset, hdrain, rfl, hbody, ?_, hafter.looksAhead, ?_, hafter.pending⟩
  · rw [drain_tokens, ← toCome_after]
    apply hafter.handsOut hmark
  · rw [toList_errors_drain]
    apply hafter.tells

/-- Looking at a token changes the position of an offset that has not been read before, and whether
there is a fault. -/
theorem answers_change_after_peek :
  ((ofText "\na").call (.resolve 1)).1 = .position ⟨1, 1, 2⟩
    ∧ (((ofText "\na").call .peek).2.call (.resolve 1)).1 = .position ⟨1, 2, 1⟩
    ∧ ((ofText "\"").call .hasErrors).1 = .flag false
    ∧ (((ofText "\"").call .peek).2.call .hasErrors).1 = .flag true
  := by
  refine ⟨rfl, ?_, rfl, ?_⟩
  · apply congrArg Answer.position
    decide +kernel
  · apply congrArg Answer.flag
    decide +kernel

end Lexer

end EquationLang
