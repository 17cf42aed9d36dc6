import EquationLang.Proofs.Token.Terminated

/-!
# Layout around a text

Blanks and comments in front of a text have no tokens (`Cursor.reads_layout`).  Blanks and
terminators behind a text have no tokens but terminators, and make no difference to what is read
before them: a fault stays the same, a comment at the end of the text takes in what follows it up to
a line break, and every other piece stops (`Cursor.read_trailed`).
-/

namespace EquationLang

/-- Blanks and comments, each comment with the line break that ends it. -/
inductive IsLayout : List Char → Prop where
  | nil : IsLayout []
  | blank {c : Char} {cs : List Char} (hc : isBlank c) (h : IsLayout cs) : IsLayout (c :: cs)
  | comment {body cs : List Char} (hbody : '\n' ∉ body) (h : IsLayout cs) :
    IsLayout ('/' :: '/' :: (body ++ '\n' :: cs))

theorem IsLayout.append {cs cs' : List Char} (h : IsLayout cs) (h' : IsLayout cs') :
  IsLayout (cs ++ cs')
  := by
  induction h with
  | nil => exact h'
  | blank hc _ ih => exact .blank hc ih
  | @comment body cs hbody _ ih =>
    have happend : '/' :: '/' :: (body ++ '\n' :: cs) ++ cs'
        = '/' :: '/' :: (body ++ '\n' :: (cs ++ cs')) := by
      simp
    rw [happend]
    exact .comment hbody ih

theorem isLayout_of_isBlank {cs : List Char} (h : ∀ c ∈ cs, isBlank c) :
  IsLayout cs
  := by
  induction cs with
  | nil => exact .nil
  | cons c cs ih =>
    apply IsLayout.blank (h c List.mem_cons_self)
    apply ih
    intro d hd
    apply h d (List.mem_cons_of_mem c hd)

/-- Blanks and terminators. -/
def IsTrailer (cs : List Char) : Prop := ∀ c ∈ cs, isBlank c ∨ c = terminator

instance : DecidablePred IsTrailer := fun cs => List.decidableBAll _ cs

theorem isTrailer_nil :
  IsTrailer []
  := List.forall_mem_nil _

theorem isTrailer_terminator :
  IsTrailer [terminator]
  := by
  intro c hc
  right
  exact List.mem_singleton.mp hc

namespace IsTrailer

variable {c : Char} {cs cs' : List Char}

theorem tail (h : IsTrailer (c :: cs)) :
  IsTrailer cs
  := fun d hd => h d (List.mem_cons_of_mem c hd)

theorem append (h : IsTrailer cs) (h' : IsTrailer cs') :
  IsTrailer (cs ++ cs')
  := by
  intro c hc
  obtain hc | hc := List.mem_append.mp hc
  · exact h c hc
  · exact h' c hc

theorem class_of_mem (h : IsTrailer cs) (hc : c ∈ cs) :
  isNumberPart c = false ∧ isIdentContinue c = false ∧ c ≠ '/' ∧ c ≠ '(' ∧ c ≠ '"'
  := by
  have hc := h c hc
  refine ⟨?_, ?_, ?_, ?_, ?_⟩
  · apply Bool.eq_false_iff.mpr
    intro hpart
    obtain ⟨hblank, hterminator⟩ := class_of_isNumberPart hpart
    simp [hblank, hterminator] at hc
  · apply Bool.eq_false_iff.mpr
    intro hcontinue
    obtain ⟨hblank, -, -, hterminator⟩ := isIdentContinue_iff.mp hcontinue
    simp [hblank, hterminator] at hc
  all_goals
    rintro rfl
    revert hc
    decide

/-- A text does not go on with an opening paren where blanks and terminators come after it. -/
theorem head?_append_eq_paren (h : IsTrailer cs) (rest : List Char) :
  (rest ++ cs).head? = some '(' ↔ rest.head? = some '('
  := by
  cases rest with
  | cons => rfl
  | nil =>
    have hne : cs.head? ≠ some '(' := by
      intro hhead
      apply (h.class_of_mem (List.mem_of_mem_head? hhead)).2.2.2.1 rfl
    simp [hne]

end IsTrailer

/-- The text that is read is the equation with blanks and terminators behind it. -/
theorem exists_trailer_of_normalize (eqn : String) :
  ∃ cs, IsTrailer cs ∧ (normalize eqn).toList = eqn.toList ++ cs
  := by
  obtain h | h := toList_normalize eqn
  · exact ⟨[], isTrailer_nil, by rw [h, List.append_nil]⟩
  · exact ⟨[terminator], isTrailer_terminator, h⟩

namespace Piece

/-- A piece that is no fault stays the same when blanks and terminators come after the text, unless
it is a comment at the end of the text. -/
theorem front?_trailed {p : Piece} {text rest : List Char} (found : front? text = some (p, rest))
    (sound : p.fault? = none) :
  (∀ cs, IsTrailer cs → front? (text ++ cs) = some (p, rest ++ cs))
    ∨ ∃ body, p = comment body ∧ rest = []
  := by
  obtain ⟨rfl, hshape, hstop⟩ := front?_eq_some_iff.mp found
  have hfound {cs : List Char} (hstop : p.StopsBefore (rest ++ cs).head?) :
      front? (p.source ++ rest ++ cs) = some (p, rest ++ cs) :=
    front?_eq_some_iff.mpr ⟨List.append_assoc _ _ _, hshape, hstop⟩
  cases rest with
  | cons c rest =>
    left
    intro cs _
    exact hfound hstop
  | nil =>
    cases p with
    | comment body =>
      right
      exact ⟨body, rfl, rfl⟩
    | lexeme kind text =>
      left
      intro cs hcs
      apply hfound
      apply stopsBefore_of_class kind text
      intro c hc
      obtain ⟨hnumber, hident, hslash, -⟩ := hcs.class_of_mem (List.mem_of_mem_head? hc)
      exact ⟨hnumber, hident, hslash⟩
    | blank | quoted =>
      left
      intro cs _
      exact hfound trivial
    | unrecognized | unclosed => cases sound

/-- A comment at the end of a text goes on up to the first line break after the text. -/
theorem front?_comment_append {body : List Char} (h : '\n' ∉ body) (cs : List Char) :
  front? ((comment body).source ++ cs)
    = some (comment (body ++ cs.takeWhile (· ≠ '\n')), cs.dropWhile (· ≠ '\n'))
  := by
  refine front?_eq_some_iff.mpr ⟨?_, ?_, ?_⟩
  · simp [source, List.takeWhile_append_dropWhile]
  · rw [WellFormed, List.mem_append, not_or]
    exact ⟨h, not_mem_takeWhile_ne '\n' cs⟩
  · intro c hc
    apply eq_of_mem_head?_dropWhile_ne hc

/-- A fault stays the same when blanks and terminators come after the text. -/
theorem exists_fault_trailed {p : Piece} {text rest cs : List Char}
    {fault : Diagnostic.Code × String} (found : front? text = some (p, rest))
    (hfault : p.fault? = some fault) (h : IsTrailer cs) :
  ∃ q rest', front? (text ++ cs) = some (q, rest') ∧ q.fault? = some fault
  := by
  obtain ⟨rfl, hshape, hstop⟩ := front?_eq_some_iff.mp found
  cases p with
  | unrecognized c =>
    use unrecognized c, rest ++ cs
    refine ⟨front?_eq_some_iff.mpr ⟨?_, hshape, trivial⟩, hfault⟩
    apply List.append_assoc
  | unclosed body =>
    obtain rfl : rest = [] := List.head?_eq_none_iff.mp hstop
    use unclosed (body ++ cs), []
    refine ⟨front?_eq_some_iff.mpr ⟨?_, ?_, rfl⟩, hfault⟩
    · simp [source]
    · have hbody : '"' ∉ body := hshape
      have hcs : '"' ∉ cs := fun hmem => (h.class_of_mem hmem).2.2.2.2 rfl
      simp [WellFormed, hbody, hcs]
  | blank | comment | lexeme | quoted => cases hfault

end Piece

namespace Cursor

/-- Layout has no tokens, and after it a line break does not end a statement. -/
theorem reads_layout {cs : List Char} (h : IsLayout cs) (offset : Nat) (rest : List Char) :
  Reads ⟨offset, false, cs ++ rest⟩ [] ⟨offset + byteLength cs, false, rest⟩
  := by
  have hblank {c : Char} (hc : isBlank c) (offset : Nat) (rest : List Char) :
      Reads ⟨offset, false, c :: rest⟩ [] ⟨offset + c.utf8Size, false, rest⟩ := by
    have found : Piece.front? (c :: rest) = some (.blank c, rest) :=
      Piece.front?_eq_some_iff.mpr ⟨rfl, hc, trivial⟩
    have hreads := Reads.step (k := ⟨offset, false, c :: rest⟩) found rfl (.done _)
    rw [show (Piece.blank c).tokens offset false rest = [] by simp [Piece.tokens]] at hreads
    exact hreads
  induction h generalizing offset with
  | nil => exact .done _
  | @blank c cs hc _ ih =>
    rw [byteLength_cons, ← Nat.add_assoc]
    apply (hblank hc offset (cs ++ rest)).trans (ih _)
  | @comment body cs hbody _ ih =>
    have found : Piece.front? ('/' :: '/' :: (body ++ '\n' :: cs) ++ rest)
        = some (.comment body, '\n' :: (cs ++ rest)) := by
      refine Piece.front?_eq_some_iff.mpr ⟨?_, ?_, ?_⟩
      · simp [Piece.source]
      · exact hbody
      · simp [Piece.StopsBefore]
    have hreads := Reads.step (k := ⟨offset, false, _⟩) found rfl
      ((hblank (c := '\n') rfl _ (cs ++ rest)).trans (ih _))
    have hlength : byteLength ('/' :: '/' :: (body ++ '\n' :: cs))
        = byteLength ('/' :: '/' :: body) + '\n'.utf8Size + byteLength cs := by
      simp [Nat.add_assoc]
    rw [hlength, ← Nat.add_assoc, ← Nat.add_assoc]
    exact hreads

/-- Blanks and terminators are read as terminators. -/
theorem read_of_isTrailer {cs : List Char} (h : IsTrailer cs) (offset : Nat) (canEnd : Bool) :
  ∃ semis stop, (∀ t ∈ semis, t.kind = .semi)
    ∧ (⟨offset, canEnd, cs⟩ : Cursor).read = (semis ++ [.endOfText stop], none)
  := by
  induction cs generalizing offset canEnd with
  | nil =>
    refine ⟨_, offset, ?_, read_of_nil rfl⟩
    intro t ht
    dsimp only at ht
    split at ht
    · obtain rfl := List.mem_singleton.mp ht
      rfl
    · cases ht
  | cons c cs ih =>
    obtain ⟨p, found, sound, hkind⟩ : ∃ p, Piece.front? (c :: cs) = some (p, cs)
        ∧ p.fault? = none ∧ ∀ t ∈ p.tokens offset canEnd cs, t.kind = .semi := by
      obtain hc | rfl := h c List.mem_cons_self
      · refine ⟨.blank c, Piece.front?_eq_some_iff.mpr ⟨rfl, hc, trivial⟩, rfl, ?_⟩
        intro t ht
        rw [Piece.tokens] at ht
        split at ht
        · obtain rfl := List.mem_singleton.mp ht
          rfl
        · cases ht
      · refine ⟨.lexeme .semi [terminator], rfl, rfl, ?_⟩
        intro t ht
        obtain rfl := List.mem_singleton.mp ht
        rfl
    obtain ⟨semis, stop, hsemis, hread⟩ :=
      ih h.tail (offset + byteLength p.source) (p.canEnd canEnd)
    refine ⟨p.tokens offset canEnd cs ++ semis, stop, ?_, ?_⟩
    · intro t ht
      obtain ht | ht := List.mem_append.mp ht
      · exact hkind t ht
      · exact hsemis t ht
    · rw [read_of_piece (k := ⟨offset, canEnd, c :: cs⟩) found sound, after, hread,
        List.append_assoc]

/-- The place, with the text `cs` behind what follows. -/
def trailed (k : Cursor) (cs : List Char) : Cursor := { k with rest := k.rest ++ cs }

/-- Blanks and terminators behind a text make no difference to its tokens, but for terminators at
the end, or its fault is the same. -/
theorem read_trailed (k : Cursor) :
  (∃ ts, ∀ cs, IsTrailer cs → ∃ semis stop, (∀ t ∈ semis, t.kind = .semi)
      ∧ (k.trailed cs).read = (ts ++ (semis ++ [.endOfText stop]), none))
    ∨ ∃ ts fault, ∀ cs, IsTrailer cs → (k.trailed cs).read = (ts, some fault)
  := by
  fun_induction read k with
  | case1 k found =>
    left
    use []
    intro cs hcs
    rw [trailed, Piece.front?_eq_none_iff.mp found]
    exact read_of_isTrailer hcs k.offset k.canEnd
  | case2 k p rest found code message fault =>
    right
    use [.endOfText k.offset], (k.offset, code, message)
    intro cs hcs
    obtain ⟨q, rest', found', hfault⟩ := Piece.exists_fault_trailed found fault hcs
    exact read_of_fault (k := k.trailed cs) found' hfault
  | case3 k p rest found sound fewer ih =>
    obtain hfound | ⟨body, rfl, rfl⟩ := Piece.front?_trailed found sound
    · have hread (cs : List Char) (hcs : IsTrailer cs) : (k.trailed cs).read
          = (p.tokens k.offset k.canEnd rest ++ ((k.after p rest).trailed cs).read.1,
            ((k.after p rest).trailed cs).read.2) := by
        rw [read_of_piece (k := k.trailed cs) (hfound cs hcs) sound,
          ← Piece.tokens_congr (hcs.head?_append_eq_paren rest)]
        rfl
      obtain ⟨ts, hts⟩ | ⟨ts, fault, hts⟩ := ih
      · left
        use p.tokens k.offset k.canEnd rest ++ ts
        intro cs hcs
        obtain ⟨semis, stop, hsemis, hmore⟩ := hts cs hcs
        refine ⟨semis, stop, hsemis, ?_⟩
        rw [hread cs hcs, hmore, List.append_assoc]
      · right
        use p.tokens k.offset k.canEnd rest ++ ts, fault
        intro cs hcs
        rw [hread cs hcs, hts cs hcs]
    · left
      use []
      intro cs hcs
      obtain ⟨hsource, hshape, -⟩ := Piece.front?_eq_some_iff.mp found
      have found' := Piece.front?_comment_append hshape cs
      rw [← List.append_nil (Piece.source _), ← hsource] at found'
      rw [read_of_piece (k := k.trailed cs) found' rfl]
      apply read_of_isTrailer
      exact fun c hc => hcs c (List.dropWhile_subset _ hc)

end Cursor

end EquationLang
