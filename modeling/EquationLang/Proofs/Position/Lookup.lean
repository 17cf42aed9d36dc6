import EquationLang.Proofs.Position.LineBreaks
import Mathlib.Data.List.TakeWhile
import Mathlib.Tactic.Common

/-!
# Line tables of any offsets

Whatever offsets are added to a line table, and in whatever order, the starts of its lines increase:
an offset is left out unless it is larger than all before it (`LineTable.mem_starts_ofOffsets`).  So
the line of an offset can be found by halving (`LineTable.IsIncreasing.search?_eq`), later lines do
not matter for it (`LineTable.position_foldl_addLine`), and the positions in a text are in the order
of their offsets (`LineTable.IsIncreasing.position_atMost`).
-/

namespace EquationLang

/-! ### Halving -/

section

variable {α : Type} {p : α → Bool} {xs ys : List α}

/-- Find by halving how many elements come before the first one that `p` does not hold of, if it is
known that they are at least `low` and at most `high`. -/
def bisect (p : α → Bool) (xs : List α) (low high : Nat) : Nat :=
  if low < high then
    if xs[(low + high) / 2]?.any p then bisect p xs ((low + high) / 2 + 1) high
    else bisect p xs low ((low + high) / 2)
  else low
termination_by high - low

/-- Halving finds the number of elements that `p` holds of, if these are the first ones. -/
theorem bisect_eq {n low high : Nat} (h : ∀ i x, xs[i]? = some x → (p x ↔ i < n)) (hlow : low ≤ n)
    (hn : n ≤ high) (hhigh : high ≤ xs.length) :
  bisect p xs low high = n
  := by
  fun_induction bisect p xs low high with
  | case1 low high hlt hmiddle ih =>
    obtain ⟨x, hx, hp⟩ := (Option.any_eq_true _ _).mp hmiddle
    apply ih ((h _ x hx).mp hp) hn hhigh
  | case2 low high hlt hmiddle ih =>
    have hin : (low + high) / 2 < xs.length := by omega
    have hlater : ¬ (low + high) / 2 < n := by
      rw [← h _ _ (List.getElem?_eq_getElem hin)]
      simpa [hin] using hmiddle
    apply ih hlow (Nat.not_lt.mp hlater) (Nat.le_of_lt hin)
  | case3 low high hle => omega

theorem bisect_append (hxs : ∀ x ∈ xs, p x) (hys : ∀ y ∈ ys, ¬ p y) :
  bisect p (xs ++ ys) 0 (xs ++ ys).length = xs.length
  := by
  apply bisect_eq _ (Nat.zero_le _) _ (Nat.le_refl _)
  · intro i x hx
    by_cases hi : i < xs.length
    · rw [List.getElem?_append_left hi] at hx
      simp [hi, hxs x (List.mem_of_getElem? hx)]
    · rw [List.getElem?_append_right (Nat.not_lt.mp hi)] at hx
      simp [hi, hys x (List.mem_of_getElem? hx)]
  · rw [List.length_append]
    apply Nat.le_add_right

end

/-- The position comes in an earlier line than the other one, or in the same line in no later
column. -/
def Position.AtMost (pos pos' : Position) : Prop :=
  pos.line < pos'.line ∨ pos.line = pos'.line ∧ pos.column ≤ pos'.column

namespace LineTable

variable {t : LineTable} {offset : Nat}

/-! ### Adding offsets -/

/-- The table after adding the offsets, one after the other. -/
def ofOffsets (offsets : List Nat) : LineTable := offsets.foldl addLine {}

theorem ofOffsets_concat (offsets : List Nat) (offset : Nat) :
  ofOffsets (offsets ++ [offset]) = (ofOffsets offsets).addLine offset
  := List.foldl_append

/-- The offset is larger than 0, and than all that come before it. -/
def IsNew (offsets : List Nat) (offset : Nat) : Prop :=
  ∃ before behind, offsets = before ++ offset :: behind ∧ ∀ earlier ∈ 0 :: before, earlier < offset

theorem isNew_concat {offsets : List Nat} {start : Nat} :
  IsNew (offsets ++ [offset]) start
    ↔ IsNew offsets start ∨ (∀ earlier ∈ 0 :: offsets, earlier < offset) ∧ start = offset
  := by
  constructor
  · rintro ⟨before, behind, hsplit, hbefore⟩
    obtain rfl | ⟨behind, last, rfl⟩ := behind.eq_nil_or_concat
    · obtain ⟨rfl, rfl⟩ := List.append_singleton_inj.mp hsplit
      exact .inr ⟨hbefore, rfl⟩
    · rw [List.concat_eq_append, ← List.cons_append, ← List.append_assoc] at hsplit
      obtain ⟨rfl, -⟩ := List.append_singleton_inj.mp hsplit
      exact .inl ⟨before, behind, rfl, hbefore⟩
  · rintro (⟨before, behind, rfl, hbefore⟩ | ⟨hbefore, rfl⟩)
    · use before, behind ++ [offset]
      rw [List.append_assoc, List.cons_append]
      exact ⟨rfl, hbefore⟩
    · exact ⟨offsets, [], rfl, hbefore⟩

/-- The latest start is the last one. -/
theorem starts_cons (start : Nat) (later : List Nat) :
  starts ⟨start :: later⟩ = starts ⟨later⟩ ++ [start]
  := by
  rw [starts, List.reverse_cons, ← List.cons_append, starts]

theorem starts_addLine_of_lt (h : t.latest < offset) :
  (t.addLine offset).starts = t.starts ++ [offset]
  := by
  rw [addLine_of_lt h, starts_cons]

theorem addLine_of_le (h : offset ≤ t.latest) :
  t.addLine offset = t
  := if_neg (Nat.not_lt.mpr h)

theorem length_starts (t : LineTable) :
  t.starts.length = t.lineCount
  := by
  simp [starts, lineCount]

theorem getElem?_starts (t : LineTable) :
  t.starts[t.lineCount - 1]? = some t.latest
  := by
  rw [← length_starts, ← List.getLast?_eq_getElem?]
  obtain ⟨later⟩ := t
  cases later with
  | nil => rfl
  | cons start later => rw [starts_cons, List.getLast?_concat, latest, List.headD_cons]

/-- The latest start is the largest of the offsets that have been added, and of 0. -/
theorem latest_ofOffsets_lt_iff {offsets : List Nat} :
  (ofOffsets offsets).latest < offset ↔ ∀ earlier ∈ 0 :: offsets, earlier < offset
  := by
  induction offsets using List.reverseRecOn with
  | nil => simp [ofOffsets, latest]
  | append_singleton offsets added ih =>
    rw [ofOffsets_concat, ← List.cons_append, List.forall_mem_append, ← ih,
      List.forall_mem_singleton]
    by_cases hlt : (ofOffsets offsets).latest < added
    · rw [addLine_of_lt hlt]
      exact ⟨fun h => ⟨Nat.lt_trans hlt h, h⟩, fun h => h.2⟩
    · rw [addLine_of_le (Nat.not_lt.mp hlt)]
      exact ⟨fun h => ⟨h, Nat.lt_of_le_of_lt (Nat.not_lt.mp hlt) h⟩, fun h => h.1⟩

/-- Of the offsets, the new ones start a line. -/
theorem mem_starts_ofOffsets {offsets : List Nat} {start : Nat} :
  start ∈ (ofOffsets offsets).starts ↔ start = 0 ∨ IsNew offsets start
  := by
  induction offsets using List.reverseRecOn with
  | nil => simp [ofOffsets, starts, IsNew]
  | append_singleton offsets added ih =>
    rw [ofOffsets_concat, isNew_concat, ← or_assoc, ← ih, ← latest_ofOffsets_lt_iff]
    by_cases hlt : (ofOffsets offsets).latest < added
    · rw [starts_addLine_of_lt hlt, List.mem_append, List.mem_singleton]
      simp [hlt]
    · rw [addLine_of_le (Nat.not_lt.mp hlt)]
      simp [hlt]

/-- Each start is larger than those before it. -/
def IsIncreasing (t : LineTable) : Prop := t.starts.Pairwise (· < ·)

theorem IsIncreasing.le_latest (h : t.IsIncreasing) {start : Nat} (hstart : start ∈ t.starts) :
  start ≤ t.latest
  := by
  obtain ⟨later⟩ := t
  cases later with
  | nil => apply Nat.le_of_eq (List.mem_singleton.mp hstart)
  | cons last later =>
    rw [IsIncreasing, starts_cons, List.pairwise_append] at h
    rw [starts_cons, List.mem_append, List.mem_singleton] at hstart
    obtain hstart | rfl := hstart
    · apply Nat.le_of_lt (h.2.2 start hstart last (List.mem_singleton_self last))
    · apply Nat.le_refl

theorem IsIncreasing.addLine (h : t.IsIncreasing) (offset : Nat) :
  (t.addLine offset).IsIncreasing
  := by
  by_cases hlt : t.latest < offset
  · rw [IsIncreasing, starts_addLine_of_lt hlt]
    apply List.pairwise_append.mpr
    use h, List.pairwise_singleton _ _
    intro start hstart added hadded
    obtain rfl := List.mem_singleton.mp hadded
    apply Nat.lt_of_le_of_lt (h.le_latest hstart) hlt
  · rw [addLine_of_le (Nat.not_lt.mp hlt)]
    exact h

theorem isIncreasing_ofOffsets (offsets : List Nat) :
  (ofOffsets offsets).IsIncreasing
  := by
  induction offsets using List.reverseRecOn with
  | nil => apply List.pairwise_singleton
  | append_singleton offsets added ih =>
    rw [ofOffsets_concat]
    apply ih.addLine

/-! ### Finding the line of an offset -/

/-- The lines up to an offset come before the others. -/
theorem starts_eq_append (t : LineTable) (offset : Nat) :
  t.starts = (t.upTo offset).starts ++ (t.later.takeWhile (offset < ·)).reverse
  := by
  rw [starts, upTo, starts, List.cons_append, ← List.reverse_append,
    List.takeWhile_append_dropWhile]

theorem latest_upTo_le (t : LineTable) (offset : Nat) :
  (t.upTo offset).latest ≤ offset
  := by
  have hhead := List.head?_dropWhile_not (offset < ·) t.later
  rw [latest, upTo]
  cases hrest : t.later.dropWhile (offset < ·) with
  | nil => apply Nat.zero_le
  | cons start later =>
    rw [hrest] at hhead
    apply Nat.not_lt.mp (of_decide_eq_false hhead)

/-- The lines up to an offset are those that do not start after it. -/
theorem IsIncreasing.exists_starts (h : t.IsIncreasing) (offset : Nat) :
  ∃ behind, t.starts = (t.upTo offset).starts ++ behind
    ∧ (∀ start ∈ (t.upTo offset).starts, start ≤ offset) ∧ ∀ start ∈ behind, ¬ start ≤ offset
  := by
  refine ⟨_, t.starts_eq_append offset, ?_, ?_⟩
  · rw [IsIncreasing, t.starts_eq_append offset, List.pairwise_append] at h
    intro start hstart
    apply Nat.le_trans (IsIncreasing.le_latest h.1 hstart) (t.latest_upTo_le offset)
  · intro start hstart
    have hlt := List.mem_takeWhile_imp (List.mem_reverse.mp hstart)
    apply Nat.not_le_of_lt (of_decide_eq_true hlt)

/-- The number of the line is that of the starts up to the offset. -/
theorem IsIncreasing.line_position (h : t.IsIncreasing) (text : List Char) (offset : Nat) :
  (t.position text offset).line = t.starts.countP (· ≤ offset)
  := by
  obtain ⟨behind, hstarts, hle, hlt⟩ := h.exists_starts offset
  have hle' : (t.upTo offset).starts.countP (· ≤ offset) = (t.upTo offset).starts.length := by
    apply List.countP_eq_length.mpr
    intro start hstart
    apply decide_eq_true (hle start hstart)
  have hlt' : behind.countP (· ≤ offset) = 0 := by
    apply List.countP_eq_zero.mpr
    intro start hstart
    simpa using hlt start hstart
  rw [hstarts, List.countP_append, hle', hlt', Nat.add_zero, length_starts, position]

theorem one_le_line_position (t : LineTable) (text : List Char) (offset : Nat) :
  1 ≤ (t.position text offset).line
  := Nat.le_add_left 1 _

/-- The line of a position starts at the latest start up to the offset. -/
theorem getElem?_line_position (t : LineTable) (text : List Char) (offset : Nat) :
  t.starts[(t.position text offset).line - 1]? = some (t.upTo offset).latest
  := by
  have hlt : (t.upTo offset).lineCount - 1 < (t.upTo offset).starts.length := by
    rw [length_starts]
    apply Nat.lt_succ_self
  rw [position, t.starts_eq_append offset, List.getElem?_append_left hlt, getElem?_starts]

/-- The column of an offset in a line that starts at `start`. -/
def columnFrom (text : List Char) (start offset : Nat) : Nat :=
  1 + ((slice? text start (min offset (byteLength text))).map List.length).getD 0

theorem column_position (t : LineTable) (text : List Char) (offset : Nat) :
  (t.position text offset).column = columnFrom text (t.upTo offset).latest offset
  := by
  rw [position, columnFrom]
  cases slice? text (t.upTo offset).latest (min offset (byteLength text)) <;> rfl

/-- The position of an offset in a text, where the number of its line is found by halving; `none` if
there is no line with that number. -/
def search? (t : LineTable) (text : List Char) (offset : Nat) : Option Position :=
  let line := max 1 (bisect (· ≤ offset) t.starts 0 t.starts.length)
  t.starts[line - 1]?.map fun start => ⟨offset, line, columnFrom text start offset⟩

/-- Halving finds the position. -/
theorem IsIncreasing.search?_eq (h : t.IsIncreasing) (text : List Char) (offset : Nat) :
  t.search? text offset = some (t.position text offset)
  := by
  obtain ⟨behind, hstarts, hle, hlt⟩ := h.exists_starts offset
  have hbisect : bisect (· ≤ offset) t.starts 0 t.starts.length = (t.upTo offset).lineCount := by
    rw [hstarts, bisect_append (by simpa using hle) (by simpa using hlt), length_starts]
  have hline : max 1 (bisect (· ≤ offset) t.starts 0 t.starts.length)
      = (t.position text offset).line := by
    rw [hbisect]
    apply Nat.max_eq_right (one_le_line_position t text offset)
  rw [search?, hline, getElem?_line_position, Option.map_some, ← column_position]
  rfl

/-! ### Positions of other offsets, and in other tables -/

/-- Lines that start after an offset do not matter for its position. -/
theorem position_foldl_addLine {more : List Nat} (h : ∀ added ∈ more, offset < added)
    (text : List Char) :
  (more.foldl addLine t).position text offset = t.position text offset
  := by
  induction more generalizing t with
  | nil => rfl
  | cons added more ih =>
    obtain ⟨hadded, hmore⟩ := List.forall_mem_cons.mp h
    rw [List.foldl_cons, ih hmore, position, position, upTo_addLine hadded]

/-- In a text that falls into two parts at every start of a line, positions are in the order of
their offsets. -/
theorem IsIncreasing.position_atMost (h : t.IsIncreasing) {text : List Char} {offset' : Nat}
    (hstarts : ∀ start ∈ t.starts, IsBoundary text start) (hoffset : IsBoundary text offset)
    (hoffset' : IsBoundary text offset') (hle : offset ≤ offset') :
  (t.position text offset).AtMost (t.position text offset')
  := by
  have hline : (t.position text offset).line ≤ (t.position text offset').line := by
    rw [h.line_position, h.line_position]
    apply List.countP_mono_left
    intro start _ hstart
    apply decide_eq_true (Nat.le_trans (of_decide_eq_true hstart) hle)
  obtain hlt | heq := Nat.lt_or_eq_of_le hline
  · exact .inl hlt
  · -- in the same line, the part of the text that is counted for the first offset comes first
    right
    use heq
    have hlatest : (t.upTo offset).latest = (t.upTo offset').latest := by
      apply Option.some.inj
      rw [← t.getElem?_line_position text, ← t.getElem?_line_position text, heq]
    have hmem := List.mem_of_getElem? (t.getElem?_line_position text offset)
    obtain ⟨part, more, hpart, hmore⟩ :=
      exists_slices (hstarts _ hmem) hoffset hoffset' (t.latest_upTo_le offset) hle
    rw [column_position, column_position, ← hlatest, columnFrom, columnFrom,
      Nat.min_eq_left hoffset.le, Nat.min_eq_left hoffset'.le, hpart, hmore]
    simp

/-- Whatever offsets are added to a line table, its starts are 0 and the new ones among the offsets,
in increasing order.  The line of an offset is the last one that does not start after it, halving
finds it, and the column counts the characters from its start on.  Later lines do not matter, and
the positions in a text are in the order of their offsets. -/
theorem positions_of_added_lines (offsets : List Nat) (text : List Char) :
  ((ofOffsets offsets).starts.head? = some 0
      ∧ (ofOffsets offsets).starts.Pairwise (· < ·)
      ∧ ∀ start, start ∈ (ofOffsets offsets).starts ↔ start = 0 ∨ IsNew offsets start)
    ∧ (∀ offset, ∃ pos start, (ofOffsets offsets).position text offset = pos
      ∧ (ofOffsets offsets).search? text offset = some pos
      ∧ pos.line = (ofOffsets offsets).starts.countP (· ≤ offset) ∧ 1 ≤ pos.line
      ∧ (ofOffsets offsets).starts[pos.line - 1]? = some start
      ∧ (∀ part, slice? text start (min offset (byteLength text)) = some part →
        pos.column = 1 + part.length)
      ∧ (slice? text start (min offset (byteLength text)) = none → pos.column = 1))
    ∧ (∀ more offset, (∀ added ∈ more, offset < added) →
      (ofOffsets (offsets ++ more)).position text offset
        = (ofOffsets offsets).position text offset)
    ∧ ((∀ start ∈ (ofOffsets offsets).starts, IsBoundary text start) →
      ∀ offset offset', IsBoundary text offset → IsBoundary text offset' → offset ≤ offset' →
        ((ofOffsets offsets).position text offset).AtMost
          ((ofOffsets offsets).position text offset'))
  := by
  have hincreasing := isIncreasing_ofOffsets offsets
  refine ⟨⟨rfl, hincreasing, fun start => mem_starts_ofOffsets⟩, ?_, ?_, ?_⟩
  · intro offset
    refine ⟨_, _, rfl, hincreasing.search?_eq text offset, hincreasing.line_position text offset,
      one_le_line_position _ text offset, getElem?_line_position _ text offset, ?_, ?_⟩
    · intro part hpart
      rw [column_position, columnFrom, hpart]
      rfl
    · intro hnone
      rw [column_position, columnFrom, hnone]
      rfl
  · intro more offset hmore
    rw [ofOffsets, List.foldl_append]
    apply position_foldl_addLine hmore
  · intro hstarts offset offset' hoffset hoffset' hle
    apply hincreasing.position_atMost hstarts hoffset hoffset' hle

/-- An offset that is added late starts no line, and a column counts characters. -/
example :
    (ofOffsets [2, 1, 2]).position ['a', '\n', 'é', 'b'] 4 = ⟨4, 2, 2⟩
  := by decide

end LineTable

end EquationLang
