import EquationLang.Proofs.Text.Slices
import EquationLang.Proofs.Token.Stretch

/-!
# How tokens lie over a text

Between its tokens, a text has blanks and comments (`IsGap`), and nothing else.  `Laid cs offset ts`
says how the tokens `ts` lie over the text `cs` from an offset on, up to the mark of the end; only
an inserted operator takes up no text.  Tokens that are read lie over their text (`laid_read`), and
what is said about two neighbouring tokens follows by induction on how they lie.
-/

namespace EquationLang

/-- From one offset to the other, the text has blanks, and comments that go on up to the end of the
line or of the text. -/
inductive IsGap (cs : List Char) : Nat → Nat → Prop where
  | done (start : Nat) : IsGap cs start start
  | blank {start stop : Nat} {c : Char} (hc : charAt? cs start = some c) (hblank : isBlank c)
      (more : IsGap cs (start + c.utf8Size) stop) :
    IsGap cs start stop
  | comment {start next stop : Nat} {body : List Char}
      (hslice : slice? cs start next = some ('/' :: '/' :: body)) (hbody : '\n' ∉ body)
      (hend : ∀ c ∈ charAt? cs next, c = '\n') (more : IsGap cs next stop) :
    IsGap cs start stop

theorem IsGap.le {cs : List Char} {start stop : Nat} (h : IsGap cs start stop) :
  start ≤ stop
  := by
  induction h with
  | done => exact Nat.le_refl _
  | blank _ _ _ ih => exact Nat.le_of_add_right_le ih
  | comment hslice _ _ _ ih =>
    obtain ⟨_, _, _, _, rfl⟩ := slice?_eq_some_iff.mp hslice
    exact Nat.le_of_add_right_le ih

namespace Token

/-- Whether the token is an operator that has been inserted: it has an opening paren in its
place. -/
def isInserted (cs : List Char) (t : Token) : Bool := t.isOp "*" && charAt? cs t.pos = some '('

/-- The offset where the source of the token begins: that of its text, or of the quote before it. -/
def sourceStart (t : Token) : Nat := if t.kind = .str then t.pos - 1 else t.pos

/-- The offset where the source of the token in the text `cs` ends.  An inserted operator has no
source, and the source of a string literal includes the quote after its text. -/
def sourceStop (cs : List Char) (t : Token) : Nat :=
  if t.isInserted cs then t.pos else if t.kind = .str then t.stop + 1 else t.stop

end Token

/-- The tokens lie over the text `cs` from an offset on. -/
inductive Laid (cs : List Char) : Nat → List Token → Prop where
  | stop {start : Nat} (hslice : slice? cs start start = some []) :
    Laid cs start [.endOfText start]
  | blank {start : Nat} {c : Char} {ts : List Token} (hc : charAt? cs start = some c)
      (hblank : isBlank c) (more : Laid cs (start + c.utf8Size) ts) :
    Laid cs start ts
  | comment {start next : Nat} {body : List Char} {ts : List Token}
      (hslice : slice? cs start next = some ('/' :: '/' :: body)) (hbody : '\n' ∉ body)
      (hend : ∀ c ∈ charAt? cs next, c = '\n') (more : Laid cs next ts) :
    Laid cs start ts
  /-- A token that is written as it is, or a terminator at the end of a line or of the text. -/
  | written {t : Token} {ts : List Token} (hkind : t.kind ≠ .str ∧ t.kind ≠ .eof)
      (hslice : slice? cs t.pos t.stop = some t.text.toList)
      (hident : t.kind = .ident → ∀ c ∈ charAt? cs t.stop, isIdentContinue c = false)
      (hparen : t.kind = .rparen → charAt? cs t.stop ≠ some '(') (more : Laid cs t.stop ts) :
    Laid cs t.pos (t :: ts)
  | quoted {start stop : Nat} {body : List Char} {ts : List Token}
      (hslice : slice? cs start stop = some ('"' :: (body ++ ['"']))) (hbody : '"' ∉ body)
      (more : Laid cs stop ts) :
    Laid cs start (⟨.str, start + 1, String.ofList body⟩ :: ts)
  /-- An operator between a closing paren and an opening one. -/
  | inserted {start : Nat} {ts : List Token}
      (hslice : slice? cs start (start + 2) = some [')', '('])
      (more : Laid cs (start + 1) (⟨.lparen, start + 1, "("⟩ :: ts)) :
    Laid cs start (⟨.rparen, start, ")"⟩ :: ⟨.operator, start + 1, "*"⟩
      :: ⟨.lparen, start + 1, "("⟩ :: ts)

/-! ### Tokens that are read lie over their text -/

namespace Cursor

/-- The place lies in the text `cs`. -/
def IsIn (cs : List Char) (k : Cursor) : Prop :=
  ∃ before, cs = before ++ k.rest ∧ byteLength before = k.offset

theorem start_isIn (cs : List Char) :
  (start cs).IsIn cs
  := ⟨[], rfl, rfl⟩

section

variable {cs : List Char} {k : Cursor} (h : k.IsIn cs)

include h

theorem IsIn.slice? (part : List Char) {rest : List Char} (hrest : k.rest = part ++ rest) :
  slice? cs k.offset (k.offset + byteLength part) = some part
  := by
  obtain ⟨before, rfl, hbefore⟩ := h
  rw [hrest, ← hbefore]
  apply slice?_append

theorem IsIn.charAt? :
  charAt? cs k.offset = k.rest.head?
  := by
  obtain ⟨before, rfl, hbefore⟩ := h
  rw [← hbefore]
  apply charAt?_append

/-- A piece further on is still in the text. -/
theorem IsIn.after {p : Piece} {rest : List Char} (hrest : k.rest = p.source ++ rest) :
  (k.after p rest).IsIn cs
  := by
  obtain ⟨before, rfl, hbefore⟩ := h
  use before ++ p.source
  constructor
  · rw [hrest, List.append_assoc]
    rfl
  · rw [byteLength_append, hbefore]
    rfl

/-- A place further on is still in the text. -/
theorem IsIn.of_reads {ts : List Token} {k' : Cursor} (hreads : Reads k ts k') :
  k'.IsIn cs
  := by
  obtain ⟨part, hrest, hoffset, -⟩ := hreads.exists_part
  obtain ⟨before, rfl, hbefore⟩ := h
  use before ++ part
  rw [hrest, List.append_assoc, byteLength_append, hbefore, hoffset]
  exact ⟨rfl, rfl⟩

/-- The end of a text is as far from its start as it is long. -/
theorem IsIn.offset_eq (hnil : k.rest = []) :
  k.offset = byteLength cs
  := by
  obtain ⟨before, rfl, hbefore⟩ := h
  rw [hnil, List.append_nil, hbefore]

end

/-- An opening paren is the first token where it stands. -/
theorem read_of_lparen {k : Cursor} (h : k.rest.head? = some '(') :
  ∃ ts, k.read.1 = ⟨.lparen, k.offset, "("⟩ :: ts
  := by
  obtain ⟨rest, hrest⟩ := List.head?_eq_some_iff.mp h
  have found : Piece.front? k.rest = some (.lexeme .lparen ['('], rest) := by
    rw [hrest]
    apply Piece.front?_of_punctuation? rfl
    simp
  rw [read_of_piece found rfl]
  exact ⟨_, rfl⟩

/-- The tokens of a piece lie over it, if those after it lie over the rest of the text. -/
theorem laid_of_piece {cs rest : List Char} {k : Cursor} (h : k.IsIn cs) {p : Piece}
    (found : Piece.front? k.rest = some (p, rest)) (sound : p.fault? = none)
    (more : Laid cs (k.after p rest).offset (k.after p rest).read.1) :
  Laid cs k.offset (p.tokens k.offset k.canEnd rest ++ (k.after p rest).read.1)
  := by
  obtain ⟨hrest, hshape, hstop⟩ := Piece.front?_eq_some_iff.mp found
  have hslice : slice? cs k.offset (k.after p rest).offset = some p.source := h.slice? _ hrest
  have hnext : charAt? cs (k.after p rest).offset = rest.head? := (h.after hrest).charAt?
  cases p with
  | blank c =>
    rw [Piece.tokens]
    split
    · next hbreak =>
      obtain ⟨rfl, -⟩ := hbreak
      have htext : "\n".toList = ['\n'] := by decide
      rw [Piece.source, ← htext] at hslice
      apply Laid.written (t := ⟨.semi, k.offset, "\n"⟩) _ hslice _ _ more <;> simp
    · apply Laid.blank (charAt?_of_slice? hslice) hshape more
  | comment body =>
    apply Laid.comment hslice hshape _ more
    rw [hnext]
    apply hstop
  | lexeme kind text =>
    have hkind : kind ≠ .str ∧ kind ≠ .eof := by
      constructor <;>
      · rintro rfl
        cases hshape
    have hlength : k.offset + (String.ofList text).utf8ByteSize
        = (k.after (.lexeme kind text) rest).offset := by
      rw [utf8ByteSize_ofList]
      rfl
    rw [Piece.tokens]
    split
    · next hparen =>
      obtain ⟨rfl, hopening⟩ := hparen
      obtain ⟨c, rfl, hc⟩ := hshape
      obtain rfl := punctuation?_injective (d := ')') hc rfl (by simp)
      obtain ⟨ts, hts⟩ := read_of_lparen (k := k.after (.lexeme .rparen [')']) rest) hopening
      obtain ⟨rest', rfl⟩ := List.head?_eq_some_iff.mp hopening
      rw [hts] at more ⊢
      apply Laid.inserted (h.slice? [')', '('] hrest) more
    · next hparen =>
      apply Laid.written (t := ⟨kind, k.offset, String.ofList text⟩) hkind
      · rw [Token.stop, String.toList_ofList, hlength]
        apply hslice
      · rw [Token.stop, hlength, hnext]
        rintro rfl c hc
        apply Bool.eq_false_iff.mpr (hstop c hc)
      · rw [Token.stop, hlength, hnext]
        rintro rfl hopening
        apply hparen ⟨rfl, hopening⟩
      · rw [Token.stop, hlength]
        apply more
  | quoted body => apply Laid.quoted hslice hshape more
  | unrecognized | unclosed => cases sound

/-- The tokens of a text lie over it. -/
theorem laid_read {cs : List Char} {k : Cursor} (h : k.IsIn cs) :
  Laid cs k.offset k.read.1
  := by
  fun_induction read k with
  | case1 k found =>
    have hend : charAt? cs k.offset = none := by
      rw [h.charAt?, Piece.front?_eq_none_iff.mp found]
      rfl
    have hslice := h.slice? [] rfl
    rw [closing]
    split
    · apply Laid.written (t := ⟨.semi, k.offset, ""⟩) _ hslice _ _ (.stop hslice) <;> simp
    · apply Laid.stop hslice
  | case2 k => apply Laid.stop (h.slice? [] rfl)
  | case3 k p rest found sound fewer ih =>
    apply laid_of_piece h found sound
    apply ih
    apply h.after (Piece.front?_eq_some_iff.mp found).1

end Cursor

end EquationLang
