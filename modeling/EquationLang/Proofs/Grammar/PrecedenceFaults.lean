import EquationLang.Grammar.Precedence
import Mathlib.Data.List.Nodup
import Mathlib.Tactic.Common

/-!
# The first fault of a precedence table

A table is usable if it has a level, no level is empty and no operator occurs twice.  In any other
table there is a fault that a scan of the levels in order, and of the operators of each level in
order, comes to first (`PrecedenceTable.faultless_or_firstFault`), and a check of the table finds
that one (`PrecedenceTable.check_of_firstFault`).
-/

namespace EquationLang.PrecedenceTable

/-- The table has neither an empty level nor an operator that occurs twice. -/
structure IsFaultless (table : PrecedenceTable) : Prop where
  levels : ∀ level ∈ table, level ≠ []
  distinct : table.flatten.Nodup

/-- A scan of the table comes to the fault, and to no other one before it. -/
inductive FirstFault : PrecedenceTable → Fault → Prop where
  | noLevels : FirstFault [] .noLevels
  | emptyLevel {before : PrecedenceTable} (faultless : before.IsFaultless)
      (behind : PrecedenceTable) :
    FirstFault (before ++ [] :: behind) (.emptyLevel before.length)
  /-- The operator occurs in the levels `before`, or in the `part` of its level before it. -/
  | repeated {before : PrecedenceTable} {part : List Operator} {op : Operator}
      (levels : ∀ level ∈ before, level ≠ []) (distinct : (before.flatten ++ part).Nodup)
      (again : op ∈ before.flatten ++ part) (rest : List Operator) (behind : PrecedenceTable) :
    FirstFault (before ++ (part ++ op :: rest) :: behind) (.repeated op)

variable {before table : PrecedenceTable} {part seen : List Operator} {op : Operator}

/-! ### Scanning what has no fault -/

/-- Operators that do not occur twice are passed over. -/
theorem checkLevel_append (h : (part.reverse ++ seen).Nodup) (rest : List Operator) :
  checkLevel seen (part ++ rest) = checkLevel (part.reverse ++ seen) rest
  := by
  induction part generalizing seen with
  | nil => rfl
  | cons op part ih =>
    rw [List.reverse_cons, List.append_assoc, List.singleton_append] at h ⊢
    have hop : op ∉ seen := (List.nodup_cons.mp h.of_append_right).1
    rw [List.cons_append, checkLevel, if_neg hop, ih h]

theorem checkLevel_of_nodup (h : (part.reverse ++ seen).Nodup) :
  checkLevel seen part = .ok (part.reverse ++ seen)
  := by
  have hpart := checkLevel_append h []
  rwa [List.append_nil] at hpart

theorem checkLevel_of_mem (h : (part.reverse ++ seen).Nodup) (again : op ∈ part.reverse ++ seen)
    (rest : List Operator) :
  checkLevel seen (part ++ op :: rest) = .error (.repeated op)
  := by
  rw [checkLevel_append h, checkLevel, if_pos again]

/-- A level that is not empty is scanned operator by operator. -/
theorem checkFrom_cons {level : List Operator} (h : level ≠ []) (n : Nat) (seen : List Operator)
    (table : PrecedenceTable) :
  checkFrom n seen (level :: table)
    = (checkLevel seen level).bind fun seen => checkFrom (n + 1) seen table
  := by
  obtain ⟨op, level, rfl⟩ := List.exists_cons_of_ne_nil h
  rfl

/-- Levels that are not empty and in which no operator occurs twice are passed over. -/
theorem checkFrom_append (levels : ∀ level ∈ before, level ≠ [])
    (distinct : (before.flatten.reverse ++ seen).Nodup) (n : Nat) (table : PrecedenceTable) :
  checkFrom n seen (before ++ table)
    = checkFrom (n + before.length) (before.flatten.reverse ++ seen) table
  := by
  induction before generalizing n seen with
  | nil => rfl
  | cons level before ih =>
    obtain ⟨hlevel, hlevels⟩ := List.forall_mem_cons.mp levels
    rw [List.flatten_cons, List.reverse_append, List.append_assoc] at distinct ⊢
    rw [List.cons_append, checkFrom_cons hlevel, checkLevel_of_nodup distinct.of_append_right]
    change checkFrom (n + 1) _ _ = _
    rw [ih hlevels distinct, List.length_cons, Nat.add_assoc, Nat.add_comm 1]

/-- A check comes past levels without a fault, and remembers their operators. -/
theorem check_append (levels : ∀ level ∈ before, level ≠ []) (distinct : before.flatten.Nodup)
    (h : before ++ table ≠ []) :
  check (before ++ table) = checkFrom before.length before.flatten.reverse table
  := by
  have hcheck : check (before ++ table) = checkFrom 0 [] (before ++ table) := by
    obtain ⟨level, rest, hsplit⟩ := List.exists_cons_of_ne_nil h
    rw [hsplit]
    rfl
  have hdistinct : (before.flatten.reverse ++ []).Nodup := by
    rwa [List.append_nil, List.nodup_reverse]
  rw [hcheck, checkFrom_append levels hdistinct, List.append_nil, Nat.zero_add]

/-! ### The fault that is found -/

theorem check_of_isFaultless (h : table.IsFaultless) (hne : table ≠ []) :
  table.check = .ok ()
  := by
  have hne' : table ++ [] ≠ [] := by rwa [List.append_nil]
  have hcheck := check_append h.levels h.distinct hne'
  rw [List.append_nil] at hcheck
  exact hcheck

theorem check_of_firstFault {fault : Fault} (h : FirstFault table fault) :
  table.check = .error fault
  := by
  cases h with
  | noLevels => rfl
  | emptyLevel faultless behind =>
    rw [check_append faultless.levels faultless.distinct (by simp)]
    rfl
  | @repeated before part op levels distinct again rest behind =>
    have hlevel : checkLevel before.flatten.reverse (part ++ op :: rest)
        = .error (.repeated op) := by
      rw [← List.nodup_reverse, List.reverse_append] at distinct
      rw [← List.mem_reverse, List.reverse_append] at again
      apply checkLevel_of_mem distinct again
    rw [check_append levels distinct.of_append_left (by simp), checkFrom_cons (by simp), hlevel]
    rfl

/-- Of operators after distinct ones, either none occurs twice or there is a first one that does. -/
theorem nodup_or_exists_again (distinct : part.Nodup) (ops : List Operator) :
  (part ++ ops).Nodup ∨ ∃ more op rest, ops = more ++ op :: rest ∧ (part ++ more).Nodup
    ∧ op ∈ part ++ more
  := by
  induction ops generalizing part with
  | nil =>
    left
    rwa [List.append_nil]
  | cons op ops ih =>
    by_cases hop : op ∈ part
    · right
      use [], op, ops, rfl
      rw [List.append_nil]
      exact ⟨distinct, hop⟩
    · have hpart : (part ++ [op]).Nodup := by
        rw [← List.concat_eq_append]
        apply distinct.concat hop
      obtain hops | ⟨more, op', rest, rfl, hmore, hop'⟩ := ih hpart
      · left
        rwa [List.append_assoc] at hops
      · right
        rw [List.append_assoc] at hmore hop'
        exact ⟨op :: more, op', rest, rfl, hmore, hop'⟩

/-- Behind levels without a fault, either there is none or a scan comes to a first one. -/
theorem faultless_or_firstFault (h : before.IsFaultless) (table : PrecedenceTable) :
  (before ++ table).IsFaultless ∨ ∃ fault, FirstFault (before ++ table) fault
  := by
  induction table generalizing before with
  | nil =>
    left
    rwa [List.append_nil]
  | cons level table ih =>
    by_cases hlevel : level = []
    · subst hlevel
      right
      exact ⟨_, .emptyLevel h table⟩
    · obtain hops | ⟨part, op, rest, rfl, hpart, hop⟩ := nodup_or_exists_again h.distinct level
      · have hbefore : (before ++ [level]).IsFaultless := by
          constructor
          · rw [List.forall_mem_append, List.forall_mem_singleton]
            exact ⟨h.levels, hlevel⟩
          · rwa [List.flatten_append, List.flatten_singleton]
        have htable := ih hbefore
        rwa [List.append_assoc, List.singleton_append] at htable
      · right
        exact ⟨_, .repeated h.levels hpart hop rest table⟩

/-- A table is usable, or a scan comes to a first fault. -/
theorem usable_or_firstFault (table : PrecedenceTable) :
  (table ≠ [] ∧ table.IsFaultless) ∨ ∃ fault, FirstFault table fault
  := by
  by_cases hne : table = []
  · subst hne
    exact .inr ⟨_, .noLevels⟩
  · have hnil : IsFaultless [] := ⟨List.forall_mem_nil _, List.nodup_nil⟩
    obtain h | h := faultless_or_firstFault hnil table
    · exact .inl ⟨hne, h⟩
    · exact .inr h

theorem check_eq_ok_iff :
  table.check = .ok () ↔ table ≠ [] ∧ table.IsFaultless
  := by
  constructor
  · intro hok
    obtain h | ⟨fault, h⟩ := usable_or_firstFault table
    · exact h
    · rw [check_of_firstFault h] at hok
      cases hok
  · rintro ⟨hne, h⟩
    apply check_of_isFaultless h hne

theorem check_eq_error_iff {fault : Fault} :
  table.check = .error fault ↔ FirstFault table fault
  := by
  constructor
  · intro herror
    obtain ⟨hne, h⟩ | ⟨fault', h⟩ := usable_or_firstFault table
    · rw [check_of_isFaultless h hne] at herror
      cases herror
    · rw [check_of_firstFault h] at herror
      cases herror
      exact h
  · apply check_of_firstFault

theorem mapError_eq_error_iff {text : String} :
  table.check.mapError Fault.message = .error text
    ↔ ∃ fault, FirstFault table fault ∧ fault.message = text
  := by
  simp only [← check_eq_error_iff]
  cases table.check <;> simp [Except.mapError]

/-- A check accepts the tables that have a level, no empty level and no operator twice.  Of any
other table it reports, in words, the fault that comes first: that there is no level, that a level
is empty, or that an operator occurs for the second time. -/
theorem check_reports_first_fault (table : PrecedenceTable) :
  (table.check = .ok () ↔ table ≠ [] ∧ (∀ level ∈ table, level ≠ []) ∧ table.flatten.Nodup)
    ∧ ∀ text, table.check.mapError Fault.message = .error text
      ↔ (table = [] ∧ text = "precedence table has no levels")
        ∨ (∃ before behind, table = before ++ [] :: behind
          ∧ (∀ level ∈ before, level ≠ []) ∧ before.flatten.Nodup
          ∧ text = "precedence level " ++ toString before.length ++ " is empty")
        ∨ ∃ before part op rest behind, table = before ++ (part ++ op :: rest) :: behind
          ∧ (∀ level ∈ before, level ≠ []) ∧ (before.flatten ++ part).Nodup
          ∧ op ∈ before.flatten ++ part
          ∧ text = "operator '" ++ op.symbol ++ "' appears in more than one precedence level"
  := by
  constructor
  · rw [check_eq_ok_iff]
    exact and_congr_right fun _ => ⟨fun h => ⟨h.levels, h.distinct⟩, fun h => ⟨h.1, h.2⟩⟩
  · intro text
    rw [mapError_eq_error_iff]
    constructor
    · rintro ⟨fault, hfirst, rfl⟩
      cases hfirst with
      | noLevels => exact .inl ⟨rfl, rfl⟩
      | emptyLevel faultless behind =>
        exact .inr (.inl ⟨_, behind, rfl, faultless.levels, faultless.distinct, rfl⟩)
      | repeated levels distinct again rest behind =>
        exact .inr (.inr ⟨_, _, _, rest, behind, rfl, levels, distinct, again, rfl⟩)
    · rintro (⟨rfl, rfl⟩ | ⟨before, behind, rfl, levels, distinct, rfl⟩
        | ⟨before, part, op, rest, behind, rfl, levels, distinct, again, rfl⟩)
      · exact ⟨_, .noLevels, rfl⟩
      · exact ⟨_, .emptyLevel ⟨levels, distinct⟩ behind, rfl⟩
      · exact ⟨_, .repeated levels distinct again rest behind, rfl⟩

/-- An empty level is not reported if an operator is repeated before it. -/
example :
    check [[.add], [.mul, .add], []] = .error (.repeated .add)
  := by decide

end EquationLang.PrecedenceTable
