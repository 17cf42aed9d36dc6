import EquationLang.Proofs.Diagnostic.Sorted
import Mathlib.Data.List.Destutter
import Mathlib.Data.List.Sort
import Mathlib.Logic.Function.Basic
import Mathlib.Tactic.Common

/-!
# The first report at each offset

A sorted list of diagnostics is in strictly increasing order of offsets and has, for each offset,
the diagnostic that comes first there (`Diagnostics.firstAt?_sorted`).  There is only one such list
(`Diagnostics.eq_of_firstAt?_eq`), so it is also what is left of a stable sort when the diagnostics
that repeat the offset before them are dropped (`Diagnostics.sorted_eq_dropRepeats`).  All this
holds however the diagnostics were collected, by reports and by moving all entries of one list to
the end of another one (`Diagnostics.Call`).
-/

namespace EquationLang

/-- The diagnostic has a smaller offset than the other one. -/
def Diagnostic.Precedes (d e : Diagnostic) : Prop := d.pos.offset < e.pos.offset

instance : Std.Irrefl Diagnostic.Precedes := ⟨fun _ => Nat.lt_irrefl _⟩

instance : Std.Antisymm Diagnostic.Precedes := ⟨fun _ _ h h' => absurd h' (Nat.lt_asymm h)⟩

instance : Trans Diagnostic.Precedes Diagnostic.Precedes Diagnostic.Precedes := ⟨Nat.lt_trans⟩

/-- The diagnostics have different offsets. -/
def Diagnostic.Apart (d e : Diagnostic) : Prop := d.pos.offset ≠ e.pos.offset

instance : DecidableRel Diagnostic.Apart := fun _ _ => inferInstanceAs (Decidable (_ ≠ _))

namespace Diagnostics

variable {d : Diagnostic} {ds es : List Diagnostic} {offset : Nat}

/-! ### The first diagnostic at an offset -/

/-- The first one of the diagnostics at an offset. -/
def firstAt? (offset : Nat) (ds : List Diagnostic) : Option Diagnostic :=
  ds.find? (·.pos.offset = offset)

theorem firstAt?_cons_of_eq (h : d.pos.offset = offset) (ds : List Diagnostic) :
  firstAt? offset (d :: ds) = some d
  := List.find?_cons_of_pos (decide_eq_true h)

theorem firstAt?_cons_of_ne (h : d.pos.offset ≠ offset) (ds : List Diagnostic) :
  firstAt? offset (d :: ds) = firstAt? offset ds
  := List.find?_cons_of_neg (by simpa)

theorem firstAt?_append (offset : Nat) (ds es : List Diagnostic) :
  firstAt? offset (ds ++ es) = (firstAt? offset ds).or (firstAt? offset es)
  := List.find?_append

theorem firstAt?_eq_none (h : ∀ e ∈ ds, offset < e.pos.offset) :
  firstAt? offset ds = none
  := by
  apply List.find?_eq_none.mpr
  intro e he heq
  apply Nat.ne_of_gt (h e he) (of_decide_eq_true heq)

/-! ### Diagnostics in order -/

/-- The diagnostics are in strictly increasing order of offsets. -/
def InOrder (ds : List Diagnostic) : Prop := ds.Pairwise Diagnostic.Precedes

/-- Diagnostics in order are all after what is before the first one. -/
theorem InOrder.firstAt?_eq_none (h : InOrder (d :: ds)) (hlt : offset < d.pos.offset) :
  firstAt? offset (d :: ds) = none
  := by
  apply Diagnostics.firstAt?_eq_none
  intro e he
  obtain rfl | he := List.mem_cons.mp he
  · exact hlt
  · apply Nat.lt_trans hlt (List.rel_of_pairwise_cons h he)

/-- Of diagnostics in order, no other one is at the offset of the first one there. -/
theorem InOrder.filter_offset (h : InOrder ds) (offset : Nat) :
  ds.filter (·.pos.offset = offset) = (firstAt? offset ds).toList
  := by
  induction ds with
  | nil => rfl
  | cons d ds ih =>
    obtain ⟨hlater, hrest⟩ := List.pairwise_cons.mp h
    by_cases hd : d.pos.offset = offset
    · obtain rfl := hd
      rw [List.filter_cons_of_pos (by simp), firstAt?_cons_of_eq rfl, ih hrest,
        Diagnostics.firstAt?_eq_none hlater]
      rfl
    · rw [List.filter_cons_of_neg (by simpa), firstAt?_cons_of_ne hd, ih hrest]

theorem InOrder.mem_iff (h : InOrder ds) :
  d ∈ ds ↔ firstAt? d.pos.offset ds = some d
  := by
  rw [← Option.mem_toList, ← h.filter_offset, List.mem_filter]
  simp

/-- Diagnostics in order are determined by the first one at each offset. -/
theorem eq_of_firstAt?_eq (hds : InOrder ds) (hes : InOrder es)
    (h : ∀ offset, firstAt? offset ds = firstAt? offset es) :
  ds = es
  := by
  apply List.Pairwise.eq_of_mem_iff hds hes
  intro d
  rw [hds.mem_iff, hes.mem_iff, h]

/-! ### Sorting by insertion -/

/-- Inserting a diagnostic keeps the order. -/
theorem InOrder.insertByOffset (h : InOrder es) (d : Diagnostic) :
  InOrder (insertByOffset d es)
  := by
  fun_induction Diagnostics.insertByOffset d es with
  | case1 => apply List.pairwise_singleton
  | case2 e es hlt => apply List.Pairwise.cons_cons_of_trans (R := Diagnostic.Precedes) hlt h
  | case3 => exact h
  | case4 e es hle hne ih =>
    obtain ⟨hlater, hrest⟩ := List.pairwise_cons.mp h
    apply List.pairwise_cons.mpr ⟨?_, ih hrest⟩
    intro f hf
    obtain rfl | hf := List.mem_cons.mp (insertByOffset_subset d es hf)
    · apply Nat.lt_of_le_of_ne (Nat.not_lt.mp hle) (Ne.symm hne)
    · apply hlater f hf

/-- A diagnostic that is inserted counts as the last one. -/
theorem InOrder.firstAt?_insertByOffset (h : InOrder es) (d : Diagnostic) (offset : Nat) :
  firstAt? offset (Diagnostics.insertByOffset d es) = firstAt? offset (es ++ [d])
  := by
  fun_induction Diagnostics.insertByOffset d es with
  | case1 => rfl
  | case2 e es hlt =>
    by_cases hd : d.pos.offset = offset
    · rw [firstAt?_append, h.firstAt?_eq_none (hd ▸ hlt), firstAt?_cons_of_eq hd,
        firstAt?_cons_of_eq hd]
      rfl
    · rw [firstAt?_append, firstAt?_cons_of_ne hd, firstAt?_cons_of_ne hd]
      exact Option.or_none.symm
  | case3 e es hle heq =>
    by_cases he : e.pos.offset = offset
    · rw [List.cons_append, firstAt?_cons_of_eq he, firstAt?_cons_of_eq he]
    · rw [firstAt?_append, firstAt?_cons_of_ne (heq ▸ he) []]
      exact Option.or_none.symm
  | case4 e es hle hne ih =>
    by_cases he : e.pos.offset = offset
    · rw [List.cons_append, firstAt?_cons_of_eq he, firstAt?_cons_of_eq he]
    · rw [List.cons_append, firstAt?_cons_of_ne he, firstAt?_cons_of_ne he,
        ih (List.pairwise_cons.mp h).2]

/-- Inserting diagnostics one after the other keeps the order, and those inserted count as the last
ones. -/
theorem InOrder.foldl_insertByOffset (h : InOrder es) (ds : List Diagnostic) :
  InOrder (ds.foldl (fun es d => Diagnostics.insertByOffset d es) es)
    ∧ ∀ offset, firstAt? offset (ds.foldl (fun es d => Diagnostics.insertByOffset d es) es)
      = firstAt? offset (es ++ ds)
  := by
  induction ds generalizing es with
  | nil => exact ⟨h, fun _ => by rw [List.append_nil, List.foldl_nil]⟩
  | cons d ds ih =>
    obtain ⟨horder, hfirst⟩ := ih (h.insertByOffset d)
    use horder
    intro offset
    rw [List.foldl_cons, hfirst, firstAt?_append, h.firstAt?_insertByOffset, ← firstAt?_append,
      List.append_assoc, List.singleton_append]

theorem inOrder_sorted (ds : Diagnostics) :
  InOrder ds.sorted
  := (InOrder.foldl_insertByOffset List.Pairwise.nil ds.toList).1

/-- Sorting keeps the first diagnostic at each offset. -/
theorem firstAt?_sorted (ds : Diagnostics) (offset : Nat) :
  firstAt? offset ds.sorted = firstAt? offset ds.toList
  := (InOrder.foldl_insertByOffset List.Pairwise.nil ds.toList).2 offset

/-- Diagnostics in order stay as they are. -/
theorem InOrder.sorted_eq (h : InOrder ds) :
  sorted ⟨ds⟩ = ds
  := eq_of_firstAt?_eq (inOrder_sorted ⟨ds⟩) h (firstAt?_sorted ⟨ds⟩)

/-! ### Stable sorting -/

/-- The first diagnostic has no larger offset than the second one. -/
def atMost (d e : Diagnostic) : Bool := d.pos.offset ≤ e.pos.offset

theorem atMost_iff {d e : Diagnostic} :
  atMost d e ↔ d.pos.offset ≤ e.pos.offset
  := decide_eq_true_iff

theorem atMost_trans (a b c : Diagnostic) (hab : atMost a b) (hbc : atMost b c) :
  atMost a c
  := atMost_iff.mpr ((atMost_iff.mp hab).trans (atMost_iff.mp hbc))

theorem atMost_total (a b : Diagnostic) :
  atMost a b || atMost b a
  := by
  rw [Bool.or_eq_true, atMost_iff, atMost_iff]
  apply Nat.le_total

/-- The diagnostics in order of their offsets, those at one offset in the order in which they
come. -/
def stableSorted (ds : List Diagnostic) : List Diagnostic := ds.mergeSort atMost

/-- The diagnostics but for those at the offset of the last one kept before them. -/
def dropRepeats (ds : List Diagnostic) : List Diagnostic := ds.destutter Diagnostic.Apart

/-- A stable sort leaves the diagnostics at one offset in their order. -/
theorem filter_stableSorted (ds : List Diagnostic) (offset : Nat) :
  (stableSorted ds).filter (·.pos.offset = offset) = ds.filter (·.pos.offset = offset)
  := by
  have hpairwise : (ds.filter (·.pos.offset = offset)).Pairwise (atMost · ·) := by
    apply List.pairwise_filter.mpr
    apply List.pairwise_of_forall
    intro a b ha hb
    rw [atMost_iff, of_decide_eq_true ha, of_decide_eq_true hb]
  have hsublist := (List.sublist_mergeSort atMost_trans atMost_total hpairwise
    List.filter_sublist).filter (·.pos.offset = offset)
  rw [List.filter_filter] at hsublist
  symm
  apply List.Sublist.eq_of_length
  · simpa [stableSorted] using hsublist
  · apply ((List.mergeSort_perm ds atMost).filter _).length_eq.symm

theorem firstAt?_stableSorted (ds : List Diagnostic) (offset : Nat) :
  firstAt? offset (stableSorted ds) = firstAt? offset ds
  := by
  rw [firstAt?, firstAt?, ← List.head?_filter, filter_stableSorted, List.head?_filter]

/-- Dropping repeats drops no diagnostic that comes first at its offset. -/
theorem firstAt?_dropRepeats (ds : List Diagnostic) (offset : Nat) :
  firstAt? offset (dropRepeats ds) = firstAt? offset ds
  := by
  cases ds with
  | nil => rfl
  | cons d ds =>
    rw [dropRepeats, List.destutter_cons']
    induction ds generalizing d with
    | nil => rfl
    | cons e ds ih =>
      by_cases hapart : d.Apart e
      · rw [List.destutter'_cons_pos _ hapart]
        by_cases hd : d.pos.offset = offset
        · rw [firstAt?_cons_of_eq hd, firstAt?_cons_of_eq hd]
        · rw [firstAt?_cons_of_ne hd, firstAt?_cons_of_ne hd, ih]
      · rw [List.destutter'_cons_neg _ hapart, ih]
        by_cases hd : d.pos.offset = offset
        · rw [firstAt?_cons_of_eq hd, firstAt?_cons_of_eq hd]
        · have he : e.pos.offset ≠ offset := not_not.mp hapart ▸ hd
          rw [firstAt?_cons_of_ne hd, firstAt?_cons_of_ne hd, firstAt?_cons_of_ne he]

/-- Dropping the repeats of sorted diagnostics leaves no two at one offset. -/
theorem inOrder_dropRepeats (h : ds.Pairwise (atMost · ·)) :
  InOrder (dropRepeats ds)
  := by
  have hle : (dropRepeats ds).Pairwise (atMost · ·) := h.sublist (List.destutter_sublist ..)
  have hne : (dropRepeats ds).IsChain Diagnostic.Apart := List.isChain_destutter ..
  apply List.IsChain.pairwise
  rw [List.isChain_iff_getElem] at hne ⊢
  intro i hi
  apply Nat.lt_of_le_of_ne _ (hne i hi)
  apply atMost_iff.mp
  apply List.pairwise_iff_getElem.mp hle
  apply Nat.lt_succ_self

/-- The sorted diagnostics are those that a stable sort leaves without repeated offsets. -/
theorem sorted_eq_dropRepeats (ds : Diagnostics) :
  ds.sorted = dropRepeats (stableSorted ds.toList)
  := by
  have horder : InOrder (dropRepeats (stableSorted ds.toList)) :=
    inOrder_dropRepeats (List.pairwise_mergeSort atMost_trans atMost_total ds.toList)
  apply eq_of_firstAt?_eq (inOrder_sorted ds) horder
  intro offset
  rw [firstAt?_sorted, firstAt?_dropRepeats, firstAt?_stableSorted]

/-! ### Collecting diagnostics -/

@[simp]
theorem toList_empty :
  (∅ : Diagnostics).toList = []
  := rfl

@[simp]
theorem toList_push (ds : Diagnostics) (d : Diagnostic) :
  (ds.push d).toList = ds.toList ++ [d]
  := rfl

/-- Moving diagnostics empties their list. -/
@[simp]
theorem toList_moveTo (source target : Diagnostics) :
  (source.moveTo target).1.toList = target.toList ++ source.toList
    ∧ (source.moveTo target).2.toList = []
  := ⟨rfl, rfl⟩

/-- What can be done with lists of diagnostics, each known by its `ι`. -/
inductive Call (ι : Type) where
  /-- Report a diagnostic in a list. -/
  | push (list : ι) (d : Diagnostic)
  /-- Move all diagnostics of one list to the end of another one. -/
  | append (target source : ι) (ne : target ≠ source)

variable {ι : Type} [DecidableEq ι]

/-- The lists after a call. -/
def Call.perform (lists : ι → Diagnostics) : Call ι → ι → Diagnostics
  | push list d => Function.update lists list ((lists list).push d)
  | append target source _ =>
    let moved := (lists source).moveTo (lists target)
    Function.update (Function.update lists target moved.1) source moved.2

/-- The lists after calls, if all of them are empty at first. -/
def collect (calls : List (Call ι)) : ι → Diagnostics := calls.foldl Call.perform fun _ => ∅

/-- What a call makes of lists of diagnostics: a report comes at the end of its list; diagnostics
that are moved come at the end of the other list, and none are left where they were; and all other
lists stay as they are. -/
def Call.Effect (before after : ι → Diagnostics) : Call ι → Prop
  | push list d =>
    (after list).toList = (before list).toList ++ [d] ∧ ∀ i ≠ list, after i = before i
  | append target source _ =>
    (after target).toList = (before target).toList ++ (before source).toList
      ∧ (after source).toList = [] ∧ ∀ i, i ≠ target → i ≠ source → after i = before i

theorem Call.effect_perform (lists : ι → Diagnostics) (call : Call ι) :
  call.Effect lists (call.perform lists)
  := by
  cases call with
  | push list d =>
    constructor
    · rw [perform, Function.update_self, toList_push]
    · intro i hi
      rw [perform, Function.update_of_ne hi]
  | append target source ne =>
    refine ⟨?_, ?_, ?_⟩
    · rw [perform, Function.update_of_ne ne, Function.update_self, (toList_moveTo _ _).1]
    · rw [perform, Function.update_self, (toList_moveTo _ _).2]
    · intro i htarget hsource
      rw [perform, Function.update_of_ne hsource, Function.update_of_ne htarget]

theorem Call.Effect.exists_mem_push_iff {before after : ι → Diagnostics} {list : ι}
    {e : Diagnostic} (h : (push list e).Effect before after) :
  (∃ i, d ∈ (after i).toList) ↔ (∃ i, d ∈ (before i).toList) ∨ d = e
  := by
  obtain ⟨hlist, hothers⟩ := h
  have hmem : d ∈ (after list).toList ↔ d ∈ (before list).toList ∨ d = e := by
    rw [hlist, List.mem_append, List.mem_singleton]
  constructor
  · rintro ⟨i, hi⟩
    by_cases hlist : i = list
    · subst hlist
      apply (hmem.mp hi).imp_left fun hi => ⟨i, hi⟩
    · rw [hothers i hlist] at hi
      exact .inl ⟨i, hi⟩
  · rintro (⟨i, hi⟩ | hd)
    · by_cases hlist : i = list
      · subst hlist
        exact ⟨i, hmem.mpr (.inl hi)⟩
      · use i
        rwa [hothers i hlist]
    · exact ⟨list, hmem.mpr (.inr hd)⟩

theorem Call.Effect.exists_mem_append_iff {before after : ι → Diagnostics} {target source : ι}
    {ne : target ≠ source} (h : (append target source ne).Effect before after) :
  (∃ i, d ∈ (after i).toList) ↔ ∃ i, d ∈ (before i).toList
  := by
  obtain ⟨htarget, hsource, hothers⟩ := h
  have hmem : d ∈ (after target).toList
      ↔ d ∈ (before target).toList ∨ d ∈ (before source).toList := by
    rw [htarget, List.mem_append]
  constructor
  · rintro ⟨i, hi⟩
    by_cases his : i = source
    · rw [his, hsource] at hi
      cases hi
    · by_cases hit : i = target
      · obtain hi | hi := hmem.mp (hit ▸ hi)
        · exact ⟨target, hi⟩
        · exact ⟨source, hi⟩
      · rw [hothers i hit his] at hi
        exact ⟨i, hi⟩
  · rintro ⟨i, hi⟩
    by_cases his : i = source
    · exact ⟨target, hmem.mpr (.inr (his ▸ hi))⟩
    · by_cases hit : i = target
      · exact ⟨target, hmem.mpr (.inl (hit ▸ hi))⟩
      · use i
        rwa [hothers i hit his]

/-- A call loses no diagnostic, and adds none but one that it reports. -/
theorem Call.Effect.exists_mem_iff {before after : ι → Diagnostics} {call : Call ι}
    (h : call.Effect before after) :
  (∃ i, d ∈ (after i).toList) ↔ (∃ i, d ∈ (before i).toList) ∨ ∃ i, call = .push i d
  := by
  cases call with
  | push list e =>
    rw [h.exists_mem_push_iff]
    simp [eq_comm]
  | append target source ne =>
    rw [h.exists_mem_append_iff]
    simp

theorem collect_concat (calls : List (Call ι)) (call : Call ι) :
  collect (calls ++ [call]) = call.perform (collect calls)
  := List.foldl_concat ..

/-- The lists have the diagnostics that were reported and no others. -/
theorem exists_mem_collect (calls : List (Call ι)) :
  (∃ i, d ∈ (collect calls i).toList) ↔ ∃ i, .push i d ∈ calls
  := by
  suffices h : ∀ lists : ι → Diagnostics, (∃ i, d ∈ (calls.foldl Call.perform lists i).toList)
      ↔ (∃ i, d ∈ (lists i).toList) ∨ ∃ i, .push i d ∈ calls by
    rw [collect, h]
    simp
  induction calls with
  | nil => simp
  | cons call calls ih =>
    intro lists
    rw [List.foldl_cons, ih, (call.effect_perform lists).exists_mem_iff, or_assoc, ← exists_or]
    simp only [List.mem_cons, eq_comm]

/-- However diagnostics are collected, a sorted list is in strictly increasing order of offsets and
has, at each offset, the diagnostic that comes first there and no other one.  Sorted diagnostics
stay as they are when they are sorted again, and they are those that a stable sort leaves without
repeated offsets.  What comes first in a list is told by the effects of the calls, one after the
other. -/
theorem sorted_keeps_first_reports (calls : List (Call ι)) (i : ι) :
  InOrder (collect calls i).sorted
    ∧ (∀ offset, (collect calls i).sorted.filter (·.pos.offset = offset)
      = (firstAt? offset (collect calls i).toList).toList)
    ∧ sorted ⟨(collect calls i).sorted⟩ = (collect calls i).sorted
    ∧ (collect calls i).sorted = dropRepeats (stableSorted (collect calls i).toList)
    ∧ (∀ d, (∃ j, d ∈ (collect calls j).toList) ↔ ∃ j, .push j d ∈ calls)
    ∧ (∀ j, (collect ([] : List (Call ι)) j).toList = [])
    ∧ ∀ call : Call ι, call.Effect (collect calls) (collect (calls ++ [call]))
  := by
  have horder : InOrder (collect calls i).sorted := inOrder_sorted _
  refine ⟨horder, ?_, horder.sorted_eq, sorted_eq_dropRepeats _, fun d => exists_mem_collect calls,
    fun j => rfl, ?_⟩
  · intro offset
    rw [horder.filter_offset, firstAt?_sorted]
  · intro call
    rw [collect_concat]
    apply call.effect_perform

/-- A list that is moved keeps its order, behind what was reported in the other one before. -/
example (d e f : Diagnostic) :
    (collect [.push false d, .push true e, .append true false (by decide), .push false f]
      true).toList = [e, d]
  := rfl

end Diagnostics

end EquationLang
