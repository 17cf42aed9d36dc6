import EquationLang.Proofs.Token.Resolution
import EquationLang.Proofs.Token.Stretch

/-!
# Calls of a lexer

A lexer can be asked in any order for the next token, with or without taking it, for the position of
an offset, and for the faults it has found (`Lexer.Call`).  The tokens it hands out are those of the
text, one after the other, and of the fault of a text it tells once it has come past it
(`Lexer.Follows`).
-/

namespace EquationLang

namespace Lexer

/-- What a lexer can be asked for. -/
inductive Call where
  /-- Look at the next token. -/
  | peek
  /-- Take the next token, or the mark of the end. -/
  | next
  /-- Take the next token, if one is left. -/
  | next?
  | resolve (offset : Nat)
  | hasErrors
  | takeErrors

namespace Call

/-- Whether the call takes a token. -/
def takes : Call → Bool
  | next | next? => true
  | _ => false

/-- Whether the call looks at a token. -/
def looks : Call → Bool
  | peek | next | next? => true
  | _ => false

end Call

/-- What a lexer answers. -/
inductive Answer where
  /-- A token, or that none is left. -/
  | token (t : Option Token)
  | position (p : Position)
  | flag (b : Bool)
  | errors (ds : Diagnostics)

namespace Answer

/-- The token that is answered. -/
def tokens : Answer → List Token
  | token t => t.toList
  | _ => []

/-- The diagnostics that are handed out. -/
def diagnostics : Answer → List Diagnostic
  | errors ds => ds.toList
  | _ => []

end Answer

/-- The answer to a call, and the lexer after it. -/
def call (l : Lexer) : Call → Answer × Lexer
  | .peek => (.token (some l.peek.1), l.peek.2)
  | .next => (.token (some l.next.1), l.next.2)
  | .next? =>
    match l.next? with
    | none => (.token none, l)
    | some (t, l') => (.token (some t), l')
  | .resolve offset => (.position (l.resolve offset), l)
  | .hasErrors => (.flag l.hasErrors, l)
  | .takeErrors => (.errors l.takeErrors.1, l.takeErrors.2)

/-- The lexer after calls. -/
def after (l : Lexer) : List Call → Lexer
  | [] => l
  | c :: cs => (l.call c).2.after cs

/-- The answers to calls. -/
def answers (l : Lexer) : List Call → List Answer
  | [] => []
  | c :: cs => (l.call c).1 :: (l.call c).2.answers cs

theorem after_append (l : Lexer) (cs ds : List Call) :
  l.after (cs ++ ds) = (l.after cs).after ds
  := by
  induction cs generalizing l with
  | nil => rfl
  | cons c cs ih => apply ih

variable {l : Lexer}

/-! ### Tokens -/

/-- Reading on does nothing if it is not needed. -/
theorem scan_of_fed (fed : l.starved = false) :
  l.scan = l
  := by
  rw [scan, if_neg]
  rw [fed]
  simp

/-- Reading on twice is reading on once. -/
theorem scan_scan (l : Lexer) :
  l.scan.scan = l.scan
  := scan_of_fed l.not_starved_scan

/-- Lexers that are the same after reading on are the same after a token has been taken. -/
theorem next_congr {l' : Lexer} (h : l.scan = l'.scan) :
  l.next = l'.next
  := by rw [next, next, h]

/-- A call for a token that may be missing leaves the same lexer as one for a token. -/
theorem call_next? (l : Lexer) :
  l.call .next? = (.token l.scan.pending.head?, l.next.2)
  := by
  rw [call, next?, next]
  cases hpending : l.scan.pending with
  | nil =>
    have hscan := scan_eq_self hpending
    have hnext : { l with pending := [] } = l := by
      rw [hscan] at hpending
      rw [← hpending]
    rw [hscan, List.tail_nil, hnext]
    rfl
  | cons t ts => rfl

/-- The lexer after taking a token that is not missing. -/
theorem eq_next_of_next? {l' : Lexer} {t : Token} (h : l.next? = some (t, l')) :
  l' = l.next.2
  := by
  have hcall := l.call_next?
  rw [call, h] at hcall
  apply (Prod.mk.inj hcall).2

/-- A lexer from which all tokens have been taken has come to the end. -/
theorem stopped_drain (l : Lexer) :
  l.drain.2.stop?.isSome
  := by
  fun_induction drain l with
  | case1 l taken =>
    have hcall := l.call_next?
    rw [call, taken] at hcall
    have empty : l.scan.pending = [] := by
      apply List.head?_eq_none_iff.mp
      simpa using (congrArg Prod.fst hcall).symm
    rw [← scan_eq_self empty]
    apply stopped_of_scan_empty empty
  | case2 l t l' taken fewer ts done hdrain ih =>
    rw [hdrain] at ih
    exact ih

/-- A call that looks at a token finds the same after reading on. -/
theorem call_scan {c : Call} (h : c.looks) :
  l.scan.call c = l.call c
  := by
  cases c with
  | peek => simp only [call, peek, scan_scan]
  | next => simp only [call, next, scan_scan]
  | next? => rw [call_next?, call_next?, next, next, scan_scan]
  | resolve | hasErrors | takeErrors => cases h

/-- The tokens to come after taking one. -/
theorem toCome_next (l : Lexer) :
  l.next.2.toCome = l.toCome.tail
  := by
  rw [← toCome_scan l]
  cases hpending : l.scan.pending with
  | nil =>
    have stopped := stopped_of_scan_empty hpending
    have hnext : l.next.2.pending = [] := by rw [next, hpending, List.tail_nil]
    rw [toCome_of_stopped stopped, toCome_of_stopped (l := l.next.2) stopped, hpending, hnext]
    rfl
  | cons t ts =>
    have hnext : l.next.2.pending = ts := by rw [next, hpending, List.tail_cons]
    rw [toCome, toCome, hpending, hnext]
    rfl

theorem toCome_call (l : Lexer) (c : Call) :
  (l.call c).2.toCome = if c.takes then l.toCome.tail else l.toCome
  := by
  cases c with
  | peek => apply toCome_scan
  | next => apply toCome_next
  | next? =>
    rw [call_next?]
    apply toCome_next
  | resolve | hasErrors | takeErrors => rfl

/-- The tokens to come are those of the text but for as many as have been taken. -/
theorem toCome_after (l : Lexer) (cs : List Call) :
  (l.after cs).toCome = l.toCome.drop (cs.countP Call.takes)
  := by
  induction cs generalizing l with
  | nil => rfl
  | cons c cs ih =>
    rw [after, ih, toCome_call, List.countP_cons]
    split
    · rw [List.drop_tail]
    · rfl

/-- The token at the front of the lexer is the first one to come. -/
theorem head?_pending_scan (l : Lexer) :
  l.scan.pending.head? = l.toCome.head?
  := by
  rw [← toCome_scan]
  cases hpending : l.scan.pending with
  | nil => rw [toCome_of_stopped (stopped_of_scan_empty hpending), hpending]
  | cons t ts => rw [toCome, hpending, List.cons_append, List.head?_cons, List.head?_cons]

/-- The token that is looked at is the first one to come. -/
theorem peek_eq_headD (l : Lexer) :
  l.peek.1 = l.toCome.headD l.scan.endToken
  := by
  rw [peek, List.headD_eq_head?_getD, head?_pending_scan, ← List.headD_eq_head?_getD]

/-! ### The mark of the end, and the fault that is there -/

/-- The faults of a text, as they are reported. -/
def faultsOf (text : String) : List Diagnostic :=
  (Cursor.start text.toList).read.2.toList.filterMap fun (offset, code, message) =>
    (positionIn? text.toList offset).map (⟨code, message, ·⟩)

/-- The lexer has read a part of the text, with at most two tokens pending, and has handed out the
diagnostics `given`.  Until it comes to the end it knows of no fault; then it has the mark of the
end where the text ends for the reader, and `given` together with the errors it still has are the
faults of the text. -/
structure Follows (text : String) (given : List Diagnostic) (l : Lexer) : Prop where
  text_eq : l.text = text
  placed : l.IsPlaced
  pending : l.pending.length ≤ 2
  reading : l.stop? = none →
    l.cursor.read.2 = (Cursor.start text.toList).read.2
      ∧ l.cursor.read.1.getLast? = (Cursor.start text.toList).read.1.getLast?
      ∧ given = [] ∧ l.errors.toList = [] ∧ ∀ t ∈ l.pending, t.kind ≠ .eof
  stopped : ∀ offset ∈ l.stop?,
    (Cursor.start text.toList).read.1.getLast? = some (.endOfText offset)
      ∧ given ++ l.errors.toList = faultsOf text
      ∧ ∀ fault ∈ (Cursor.start text.toList).read.2,
        fault.1 < l.offset ∧ ∀ t ∈ l.pending, t.kind = .eof

theorem follows_ofText (text : String) :
  (ofText text).Follows text []
  := by
  constructor
  case text_eq => rfl
  case placed => apply isPlaced_ofText
  case pending => apply Nat.zero_le
  case reading =>
    intro _
    exact ⟨rfl, rfl, rfl, rfl, fun t ht => nomatch ht⟩
  case stopped =>
    intro offset hoffset
    cases hoffset

section

variable {text : String} {given : List Diagnostic}

/-- Reading the end of the text. -/
theorem Follows.finish (h : l.Follows text given) (empty : l.pending = [])
    (reading : l.stop? = none) (found : Piece.front? l.rest = none) :
  l.finish.Follows text given
  := by
  have hread : l.cursor.read = _ := Cursor.read_of_nil (Piece.front?_eq_none_iff.mp found)
  obtain ⟨hfault, hlast, hgiven, herrors, -⟩ := h.reading reading
  rw [hread] at hfault hlast
  constructor
  case text_eq => apply h.text_eq
  case placed => apply h.placed.finish
  case pending =>
    rw [Lexer.finish, empty]
    split <;> simp
  case reading =>
    intro reading'
    cases reading'
  case stopped =>
    intro offset hoffset
    obtain rfl := Option.mem_some.mp hoffset
    refine ⟨?_, ?_, ?_⟩
    · rw [← hlast]
      apply List.getLast?_concat
    · rw [hgiven, faultsOf, ← hfault]
      exact herrors
    · rw [← hfault]
      intro fault hmem
      cases hmem

/-- Reading a piece that is no fault. -/
theorem Follows.pass (h : l.Follows text given) (empty : l.pending = [])
    (reading : l.stop? = none) {p : Piece} {rest : List Char}
    (found : Piece.front? l.rest = some (p, rest)) (sound : p.fault? = none) :
  (l.pass p rest).Follows text given
  := by
  have hread : l.cursor.read = _ := Cursor.read_of_piece found sound
  obtain ⟨hfault, hlast, hgiven, herrors, -⟩ := h.reading reading
  rw [hread] at hfault hlast
  have hpending : (l.pass p rest).pending = p.tokens l.offset l.canEnd rest := by
    rw [Lexer.pass, empty, List.nil_append]
  constructor
  case text_eq => apply h.text_eq
  case placed => apply h.placed.pass found
  case pending =>
    rw [hpending]
    have hlength := length_tokens_le p l.offset l.canEnd rest
    rwa [sound] at hlength
  case reading =>
    intro _
    refine ⟨hfault, ?_, hgiven, herrors, ?_⟩
    · obtain ⟨ts, offset, hts, -⟩ := (l.cursor.after p rest).exists_end
      rw [← hlast]
      change (l.cursor.after p rest).read.1.getLast? = _
      rw [hts, ← List.append_assoc, List.getLast?_concat, List.getLast?_concat]
    · rw [hpending]
      intro t ht
      apply (Piece.isProper_of_mem_tokens (Piece.wellFormed_of_front? found).1 ht).2
  case stopped =>
    intro offset hoffset
    rw [Lexer.pass, reading] at hoffset
    cases hoffset

/-- Reading a fault. -/
theorem Follows.fail (h : l.Follows text given) (empty : l.pending = [])
    (reading : l.stop? = none) {p : Piece} {rest : List Char} {code : Diagnostic.Code}
    {message : String} (found : Piece.front? l.rest = some (p, rest))
    (unsound : p.fault? = some (code, message)) :
  ((l.pass p rest).fail l.offset code message).Follows text given
  := by
  have hread : l.cursor.read = _ := Cursor.read_of_fault found unsound
  obtain ⟨hfault, hlast, hgiven, herrors, -⟩ := h.reading reading
  rw [hread] at hfault hlast
  have hpending : ((l.pass p rest).fail l.offset code message).pending
      = [.endOfText l.offset] := by
    rw [Lexer.fail, Lexer.pass, empty, tokens_of_fault (by rw [unsound]; rfl)]
    rfl
  constructor
  case text_eq => apply h.text_eq
  case placed =>
    have hstep := h.placed.step
    rw [step, found] at hstep
    simpa only [unsound] using hstep
  case pending =>
    rw [hpending]
    simp
  case reading =>
    intro reading'
    cases reading'
  case stopped =>
    intro offset hoffset
    obtain rfl := Option.mem_some.mp hoffset
    refine ⟨hlast.symm, ?_, ?_⟩
    · have hposition := (h.placed.pass found).positionIn?_eq (h.placed.hasPassed_offset.pass found)
      have htext : (l.pass p rest).text = text := h.text_eq
      have herrors' : (l.pass p rest).errors.toList = [] := herrors
      rw [htext] at hposition
      rw [hgiven, faultsOf, ← hfault]
      simp [Lexer.fail, Diagnostics.push, herrors', Lexer.cursor, hposition]
    · rw [← hfault]
      intro fault hmem
      obtain rfl := Option.mem_some.mp hmem
      constructor
      · apply Nat.lt_add_of_pos_right (byteLength_pos (Piece.source_ne_nil_of_front? found))
      · rw [hpending]
        simp [Token.endOfText]

/-- Reading a piece, or the end of the text, when no token is pending. -/
theorem Follows.step (h : l.Follows text given) (starved : l.starved) :
  l.step.Follows text given
  := by
  obtain ⟨empty, reading⟩ : l.pending = [] ∧ l.stop? = none := by
    simpa [Lexer.starved] using starved
  rw [Lexer.step]
  split
  · next found => apply h.finish empty reading found
  · next p rest found =>
    split
    · next sound => apply h.pass empty reading found sound
    · next code message unsound => apply h.fail empty reading found unsound

theorem Follows.scan (h : l.Follows text given) :
  l.scan.Follows text given
  := by
  fun_induction Lexer.scan l with
  | case1 l starved ih => apply ih (h.step starved)
  | case2 => exact h

/-- Taking a token. -/
theorem Follows.next (h : l.Follows text given) :
  l.next.2.Follows text given
  := by
  have hscan := h.scan
  constructor
  case text_eq => apply hscan.text_eq
  case placed =>
    constructor
    · apply hscan.placed.lines
    · intro t ht
      apply hscan.placed.pending t (List.mem_of_mem_tail ht)
    · apply hscan.placed.stop
  case pending =>
    have hlength := hscan.pending
    rw [Lexer.next, List.length_tail]
    omega
  case reading =>
    intro reading
    obtain ⟨hfault, hlast, hgiven, herrors, hpending⟩ := hscan.reading reading
    exact ⟨hfault, hlast, hgiven, herrors, fun t ht => hpending t (List.mem_of_mem_tail ht)⟩
  case stopped =>
    intro offset hoffset
    obtain ⟨hlast, herrors, hfault⟩ := hscan.stopped offset hoffset
    refine ⟨hlast, herrors, ?_⟩
    intro fault hmem
    obtain ⟨hlt, hpending⟩ := hfault fault hmem
    exact ⟨hlt, fun t ht => hpending t (List.mem_of_mem_tail ht)⟩

/-- Taking the diagnostics. -/
theorem Follows.takeErrors (h : l.Follows text given) :
  l.takeErrors.2.Follows text (given ++ l.errors.toList)
  := by
  constructor
  case text_eq => apply h.text_eq
  case placed => exact ⟨h.placed.lines, h.placed.pending, h.placed.stop⟩
  case pending => apply h.pending
  case reading =>
    intro reading
    obtain ⟨hfault, hlast, hgiven, herrors, hpending⟩ := h.reading reading
    refine ⟨hfault, hlast, ?_, rfl, hpending⟩
    rw [hgiven, herrors]
    rfl
  case stopped =>
    intro offset hoffset
    obtain ⟨hlast, herrors, hfault⟩ := h.stopped offset hoffset
    refine ⟨hlast, ?_, hfault⟩
    rw [← herrors]
    apply List.append_nil

theorem Follows.call (h : l.Follows text given) (c : Call) :
  (l.call c).2.Follows text (given ++ (l.call c).1.diagnostics)
  := by
  cases c with
  | peek =>
    rw [show (l.call .peek).1.diagnostics = [] from rfl, List.append_nil]
    apply h.scan
  | next =>
    rw [show (l.call .next).1.diagnostics = [] from rfl, List.append_nil]
    apply h.next
  | next? =>
    rw [call_next?, show Answer.diagnostics (.token _) = [] from rfl, List.append_nil]
    apply h.next
  | resolve | hasErrors => simpa [Lexer.call, Answer.diagnostics] using h
  | takeErrors => apply h.takeErrors

theorem Follows.after (h : l.Follows text given) (cs : List Call) :
  (l.after cs).Follows text (given ++ (l.answers cs).flatMap Answer.diagnostics)
  := by
  induction cs generalizing l given with
  | nil => simpa [answers, Lexer.after] using h
  | cons c cs ih =>
    rw [answers, List.flatMap_cons, ← List.append_assoc]
    apply ih (h.call c)

/-- Taking all tokens. -/
theorem Follows.drain (h : l.Follows text given) :
  l.drain.2.Follows text given
  := by
  fun_induction Lexer.drain l with
  | case1 => exact h
  | case2 l t l' taken fewer ts done hdrain ih =>
    rw [hdrain] at ih
    apply ih
    rw [eq_next_of_next? taken]
    apply h.next

end

/-- A text that is read to its end has its faults reported. -/
theorem toList_errors_drain (text : String) :
  (ofText text).drain.2.errors.toList = faultsOf text
  := by
  obtain ⟨offset, stop⟩ := Option.isSome_iff_exists.mp (ofText text).stopped_drain
  apply ((follows_ofText text).drain.stopped offset stop).2.1

theorem faultsOf_eq_nil_iff {text : String} :
  faultsOf text = [] ↔ (Cursor.start text.toList).read.2 = none
  := by
  rw [← toList_errors_drain]
  apply (reports_drain text).toList_eq_nil_iff

/-- The last token that is taken from a text is the one that marks the end. -/
theorem exists_drain (text : String) :
  ∃ ts offset, (ofText text).drain.1 = ts ++ [.endOfText offset] ∧ ∀ t ∈ ts, t.kind ≠ .eof
  := by
  obtain ⟨ts, offset, hread, hts, -⟩ := (Cursor.start text.toList).exists_end
  use ts, offset
  rw [drain_eq_read]
  exact ⟨hread, fun t ht => (hts t ht).2⟩

end Lexer

end EquationLang
