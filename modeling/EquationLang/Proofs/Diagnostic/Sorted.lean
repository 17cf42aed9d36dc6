import EquationLang.Diagnostic.Basic

/-!
# Sorted diagnostics

Of the diagnostics at one offset, only the one that was reported first is kept.
-/

namespace EquationLang.Diagnostics

/-- If all diagnostics are about one place, then the first one is kept. -/
theorem sorted_of_offset {d : Diagnostic} {ds : List Diagnostic}
    (h : ∀ e ∈ ds, e.pos.offset = d.pos.offset) :
  sorted ⟨d :: ds⟩ = [d]
  := by
  rw [sorted, List.foldl_cons, insertByOffset]
  induction ds with
  | nil => rfl
  | cons e ds ih =>
    have he : e.pos.offset = d.pos.offset := h e List.mem_cons_self
    rw [List.foldl_cons, insertByOffset, he, if_neg (Nat.lt_irrefl _), if_pos rfl]
    apply ih
    intro e' he'
    apply h e' (List.mem_cons_of_mem e he')

theorem insertByOffset_subset (d : Diagnostic) (es : List Diagnostic) :
  insertByOffset d es ⊆ d :: es
  := by
  fun_induction insertByOffset d es with
  | case1 | case2 => apply List.Subset.refl
  | case3 => apply List.subset_cons_self
  | case4 e es _ _ ih =>
    intro f hf
    obtain rfl | hf := List.mem_cons.mp hf
    · apply List.mem_cons_of_mem _ List.mem_cons_self
    · obtain rfl | hf := List.mem_cons.mp (ih hf)
      · apply List.mem_cons_self
      · apply List.mem_cons_of_mem _ (List.mem_cons_of_mem _ hf)

/-- Only diagnostics that have been reported are kept. -/
theorem sorted_subset (ds : List Diagnostic) :
  sorted ⟨ds⟩ ⊆ ds
  := by
  suffices h : ∀ es, ds.foldl (fun es d => insertByOffset d es) es ⊆ es ++ ds by
    apply h []
  induction ds with
  | nil => simp
  | cons d ds ih =>
    intro es f hf
    obtain hf | hf := List.mem_append.mp (ih _ hf)
    · obtain rfl | hf := List.mem_cons.mp (insertByOffset_subset d es hf)
      · simp
      · apply List.mem_append_left _ hf
    · apply List.mem_append_right _ (List.mem_cons_of_mem _ hf)

end EquationLang.Diagnostics
