import EquationLang.Proofs.Dependency.Names
import EquationLang.Proofs.Text.Lowercase

/-!
# Canonical names of canonical names

A canonical name has no blanks and is in lower case, but it can be in quotes, if the name was in two
pairs of them, and it can have an escaped line break in it, if the name had one in a capital letter.
These are the names whose canonical form is not its own canonical form
(`canonicalize_canonicalize_iff`).
-/

namespace EquationLang

theorem ne_of_isBlank {c d : Char} (hc : isBlank c = true) (hd : isBlank d = false) :
  c ≠ d
  := by
  rintro rfl
  rw [hd] at hc
  cases hc

/-! ### Quotes and escapes -/

/-- The text is in quotes. -/
def InQuotes (cs : List Char) : Prop := ∃ body, cs = '"' :: body ++ ['"']

theorem inQuotes_iff {cs : List Char} :
  InQuotes cs ↔ cs.head? = some '"' ∧ cs.tail.getLast? = some '"'
  := by
  constructor
  · rintro ⟨body, rfl⟩
    exact ⟨rfl, List.getLast?_concat⟩
  · rintro ⟨hhead, hlast⟩
    obtain ⟨rest, rfl⟩ := List.head?_eq_some_iff.mp hhead
    obtain ⟨body, hbody⟩ := List.getLast?_eq_some_iff.mp hlast
    exact ⟨body, congrArg _ hbody⟩

instance : DecidablePred InQuotes := fun _ => decidable_of_iff' _ inQuotes_iff

/-- A line break is written as an escape in the text. -/
def HasEscape (cs : List Char) : Prop := ['\\', 'n'] <:+: cs ∨ ['\\', 'r'] <:+: cs

/-- In lower case, a line break would be written as an escape in the text. -/
def HasCapitalEscape (cs : List Char) : Prop := ['\\', 'N'] <:+: cs ∨ ['\\', 'R'] <:+: cs

instance : DecidablePred HasCapitalEscape := fun _ => inferInstanceAs (Decidable (_ ∨ _))

/-! ### Unquoted texts -/

theorem unquote_of_not_inQuotes {cs : List Char} (h : ¬ InQuotes cs) :
  unquote cs = cs
  := by
  by_cases hhead : cs.head? = some '"'
  · obtain ⟨rest, rfl⟩ := List.head?_eq_some_iff.mp hhead
    rw [unquote, if_neg]
    intro hlast
    exact h (inQuotes_iff.mpr ⟨rfl, hlast⟩)
  · apply unquote_of_head?_ne hhead

theorem length_unquote_lt {cs : List Char} (h : InQuotes cs) :
  (unquote cs).length < cs.length
  := by
  obtain ⟨body, rfl⟩ := h
  rw [unquote_quoted, List.length_append, List.length_cons, List.length_singleton]
  omega

theorem unquote_subset (cs : List Char) :
  unquote cs ⊆ cs
  := by
  by_cases h : InQuotes cs
  · obtain ⟨body, rfl⟩ := h
    rw [unquote_quoted]
    simp
  · rw [unquote_of_not_inQuotes h]
    apply List.Subset.refl

/-! ### Underscores between words -/

/-- The characters with an underscore for each run of blanks and escaped line breaks. -/
def underscored (cs : List Char) : List Char := underscoreRuns false (nameUnits cs)

section

variable {cs : List Char} {d : Char} {inRun : Bool} {units : List (Option Char)}

theorem mem_nameUnits (h : some d ∈ nameUnits cs) :
  d ∈ cs ∧ isBlank d = false
  := by
  fun_induction nameUnits cs with
  | case1 => cases h
  | case2 cs ih | case3 cs ih =>
    obtain h | h := List.mem_cons.mp h
    · cases h
    · exact ⟨List.mem_cons_of_mem _ (List.mem_cons_of_mem _ (ih h).1), (ih h).2⟩
  | case4 c cs _ _ ih =>
    obtain h | h := List.mem_cons.mp h
    · split at h
      · cases h
      · next hc =>
        obtain rfl := Option.some.inj h
        exact ⟨List.mem_cons_self, by simpa using hc⟩
    · exact ⟨List.mem_cons_of_mem _ (ih h).1, (ih h).2⟩

theorem mem_underscoreRuns (h : d ∈ underscoreRuns inRun units) :
  d = '_' ∨ some d ∈ units
  := by
  fun_induction underscoreRuns inRun units with
  | case1 => cases h
  | case2 inRun c units ih =>
    obtain rfl | h := List.mem_cons.mp h
    · exact .inr List.mem_cons_self
    · exact (ih h).imp_right (List.mem_cons_of_mem _)
  | case3 units ih => exact (ih h).imp_right (List.mem_cons_of_mem _)
  | case4 inRun units _ ih =>
    obtain rfl | h := List.mem_cons.mp h
    · exact .inl rfl
    · exact (ih h).imp_right (List.mem_cons_of_mem _)

/-- The text is one of characters of the name, none of them a blank, and of underscores. -/
theorem mem_underscored (h : d ∈ underscored cs) :
  (d = '_' ∨ d ∈ cs) ∧ isBlank d = false
  := by
  obtain rfl | h := mem_underscoreRuns h
  · exact ⟨.inl rfl, rfl⟩
  · exact ⟨.inr (mem_nameUnits h).1, (mem_nameUnits h).2⟩

theorem length_nameUnits_le (cs : List Char) :
  (nameUnits cs).length ≤ cs.length
  := by
  fun_induction nameUnits cs with
  | case1 => exact Nat.le_refl _
  | case2 cs ih | case3 cs ih =>
    rw [List.length_cons, List.length_cons, List.length_cons]
    omega
  | case4 c cs _ _ ih =>
    rw [List.length_cons, List.length_cons]
    omega

theorem length_underscoreRuns_le (inRun : Bool) (units : List (Option Char)) :
  (underscoreRuns inRun units).length ≤ units.length
  := by
  fun_induction underscoreRuns inRun units with
  | case1 => exact Nat.le_refl _
  | case2 | case3 | case4 =>
    simp only [List.length_cons]
    omega

/-- Where no blank and no escaped line break is, no underscore is put. -/
theorem underscored_eq (hblank : ∀ c ∈ cs, isBlank c = false) (hescape : ¬ HasEscape cs) :
  underscored cs = cs
  := by
  have hunits : nameUnits cs = cs.map some := by
    induction cs with
    | nil => rfl
    | cons c cs ih =>
      obtain ⟨hc, hcs⟩ := List.forall_mem_cons.mp hblank
      simp only [HasEscape, pair_infix_cons_iff] at hescape
      rw [nameUnits_cons, if_neg (by simp [hc]), ih hcs, List.map_cons]
      · rintro (h | h)
        · exact hescape (.inl (.inr h))
        · exact hescape (.inr (.inr h))
      · rintro rfl
        exact ⟨fun h => hescape (.inl (.inl ⟨rfl, h⟩)), fun h => hescape (.inr (.inl ⟨rfl, h⟩))⟩
  rw [underscored, hunits]
  by_cases hne : cs = []
  · rw [hne]
    rfl
  · have happend := underscoreRuns_word_append hne false []
    rwa [List.append_nil, underscoreRuns, List.append_nil] at happend

/-! ### What is kept of a name -/

theorem pair_infix_none_cons_iff :
  ['\\', d] <:+: underscoreRuns inRun (none :: units)
    ↔ ['\\', d] <:+: underscoreRuns true units
  := by
  rw [underscoreRuns]
  split
  · rfl
  · rw [pair_infix_cons_iff]
    simp

theorem getLast?_cons_of_ne {α : Type} {a b : α} (h : a ≠ b) (l : List α) :
  (a :: l).getLast? = some b ↔ l.getLast? = some b
  := by
  rw [List.getLast?_cons, Option.some_inj]
  cases l.getLast? with
  | none => simp [h]
  | some c => simp

theorem nameUnits_ne_nil (h : cs ≠ []) :
  nameUnits cs ≠ []
  := by
  fun_cases nameUnits cs with
  | case1 => contradiction
  | case2 | case3 | case4 => simp

theorem underscoreRuns_ne_nil (h : units ≠ []) :
  underscoreRuns false units ≠ []
  := by
  obtain ⟨unit, units, rfl⟩ := List.exists_cons_of_ne_nil h
  cases unit <;> simp [underscoreRuns]

/-- Underscores between the characters do not change the last one. -/
theorem getLast?_underscoreRuns_iff (hunderscore : d ≠ '_') :
  (underscoreRuns inRun units).getLast? = some d ↔ units.getLast? = some (some d)
  := by
  fun_induction underscoreRuns inRun units with
  | case1 => simp
  | case2 inRun c units ih =>
    by_cases hunits : units = []
    · simp [hunits, underscoreRuns]
    · rw [List.getLast?_cons_of_ne_nil (underscoreRuns_ne_nil hunits), ih,
        List.getLast?_cons_of_ne_nil hunits]
  | case3 units ih => rw [ih, getLast?_cons_of_ne (by simp)]
  | case4 inRun units _ ih =>
    rw [getLast?_cons_of_ne hunderscore.symm, ih, getLast?_cons_of_ne (by simp)]

section

variable (hblank : isBlank d = false) (hbackslash : d ≠ '\\')

include hblank hbackslash

theorem getLast?_nameUnits_iff (hd : ¬ IsBreakLetter d) :
  (nameUnits cs).getLast? = some (some d) ↔ cs.getLast? = some d
  := by
  obtain ⟨hn, hr⟩ := not_or.mp hd
  fun_induction nameUnits cs with
  | case1 => simp
  | case2 cs ih =>
    rw [getLast?_cons_of_ne (by simp), ih, getLast?_cons_of_ne hbackslash.symm,
      getLast?_cons_of_ne (Ne.symm hn)]
  | case3 cs ih =>
    rw [getLast?_cons_of_ne (by simp), ih, getLast?_cons_of_ne hbackslash.symm,
      getLast?_cons_of_ne (Ne.symm hr)]
  | case4 c cs _ _ ih =>
    by_cases hcs : cs = []
    · subst hcs
      split
      · next hc =>
        have hne : c ≠ d := ne_of_isBlank hc hblank
        simp [nameUnits, hne]
      · simp [nameUnits]
    · rw [List.getLast?_cons_of_ne_nil (nameUnits_ne_nil hcs), ih,
        List.getLast?_cons_of_ne_nil hcs]

variable (hunderscore : d ≠ '_')

include hunderscore

/-- The text begins with a character that is kept exactly if the name does. -/
theorem head?_underscored_iff :
  (underscored cs).head? = some d ↔ cs.head? = some d
  := by
  rw [underscored]
  fun_cases nameUnits cs with
  | case1 => rfl
  | case2 cs | case3 cs => simp [underscoreRuns, hunderscore.symm, hbackslash.symm]
  | case4 c cs =>
    split
    · next hc =>
      have hne : c ≠ d := ne_of_isBlank hc hblank
      simp [underscoreRuns, hunderscore.symm, hne]
    · rfl

/-- A backslash stands before a character that is kept exactly if it does so in the name, and no
line break is written with the two. -/
theorem pair_infix_underscoreRuns_iff :
  ['\\', d] <:+: underscoreRuns inRun (nameUnits cs) ↔ ['\\', d] <:+: cs ∧ ¬ IsBreakLetter d
  := by
  fun_induction nameUnits cs generalizing inRun with
  | case1 => simp [underscoreRuns]
  | case2 cs ih =>
    rw [pair_infix_none_cons_iff, ih, pair_infix_cons_iff, pair_infix_cons_iff]
    apply and_congr_left
    intro hd
    simp [Ne.symm (not_or.mp hd).1]
  | case3 cs ih =>
    rw [pair_infix_none_cons_iff, ih, pair_infix_cons_iff, pair_infix_cons_iff]
    apply and_congr_left
    intro hd
    simp [Ne.symm (not_or.mp hd).2]
  | case4 c cs hn hr ih =>
    rw [pair_infix_cons_iff]
    split
    · next hc =>
      have hne : c ≠ '\\' := ne_of_isBlank hc rfl
      rw [pair_infix_none_cons_iff, ih]
      simp [hne]
    · next hc =>
      have hhead : (underscoreRuns false (nameUnits cs)).head? = some d ↔ cs.head? = some d :=
        head?_underscored_iff hblank hbackslash hunderscore
      have hletter : c = '\\' ∧ cs.head? = some d → ¬ IsBreakLetter d := by
        rintro ⟨hfirst, hsecond⟩ hd
        obtain ⟨rest, hrest⟩ := List.head?_eq_some_iff.mp hsecond
        obtain rfl | rfl := hd
        · exact hn rest hfirst hrest
        · exact hr rest hfirst hrest
      rw [underscoreRuns, pair_infix_cons_iff, ih, hhead, or_and_right,
        and_iff_left_of_imp hletter]

end

end

/-! ### Canonical forms -/

variable {cs : List Char}

/-- The characters of a name, without the blanks around it and the quotes around that. -/
def bareName (name : String) : List Char := unquote (trim name.toList)

theorem canonicalize_eq (name : String) :
  canonicalize name = String.ofList (lowercase (underscored (bareName name)))
  := rfl

theorem not_hasEscape_underscored (cs : List Char) :
  ¬ HasEscape (underscored cs)
  := by
  rintro (h | h)
  · exact ((pair_infix_underscoreRuns_iff rfl (by decide) (by decide)).mp h).2 (.inl rfl)
  · exact ((pair_infix_underscoreRuns_iff rfl (by decide) (by decide)).mp h).2 (.inr rfl)

theorem hasCapitalEscape_underscored_iff :
  HasCapitalEscape (underscored cs) ↔ HasCapitalEscape cs
  := by
  have hiff {d : Char} (hd : d = 'N' ∨ d = 'R') :
      ['\\', d] <:+: underscored cs ↔ ['\\', d] <:+: cs := by
    rw [underscored, pair_infix_underscoreRuns_iff]
    · obtain rfl | rfl := hd <;> simp [IsBreakLetter]
    all_goals obtain rfl | rfl := hd <;> decide
  rw [HasCapitalEscape, hiff (.inl rfl), hiff (.inr rfl), HasCapitalEscape]

theorem hasEscape_lowercase_iff :
  HasEscape (lowercase cs) ↔ HasEscape cs ∨ HasCapitalEscape cs
  := by
  rw [HasEscape, lowercase, escape_infix_lowercaseAfter (.inl rfl),
    escape_infix_lowercaseAfter (.inr rfl), or_or_or_comm]
  rfl

theorem inQuotes_cons_quote_iff :
  InQuotes ('"' :: cs) ↔ cs.getLast? = some '"'
  := by simp [inQuotes_iff]

theorem inQuotes_underscored_iff :
  InQuotes (underscored cs) ↔ InQuotes cs
  := by
  have hhead : (underscored cs).head? = some '"' ↔ cs.head? = some '"' :=
    head?_underscored_iff rfl (by decide) (by decide)
  by_cases hquote : cs.head? = some '"'
  · obtain ⟨rest, rfl⟩ := List.head?_eq_some_iff.mp hquote
    have hcons : underscored ('"' :: rest) = '"' :: underscored rest := by
      rw [underscored, nameUnits_cons (by simp)]
      rfl
    have hnot : ¬ IsBreakLetter '"' := by decide
    rw [hcons, inQuotes_cons_quote_iff, inQuotes_cons_quote_iff, underscored,
      getLast?_underscoreRuns_iff (by decide), getLast?_nameUnits_iff rfl (by decide) hnot]
  · rw [inQuotes_iff, inQuotes_iff, hhead]
    simp [hquote]

theorem inQuotes_lowercase_iff :
  InQuotes (lowercase cs) ↔ InQuotes cs
  := by
  by_cases hquote : cs.head? = some '"'
  · obtain ⟨rest, rfl⟩ := List.head?_eq_some_iff.mp hquote
    rw [lowercase, lowercaseAfter_cons_quote, inQuotes_cons_quote_iff, inQuotes_cons_quote_iff,
      getLast?_lowercaseAfter_eq_quote_iff]
  · rw [inQuotes_iff, inQuotes_iff, lowercase, head?_lowercaseAfter_eq_quote_iff]
    simp [hquote]

theorem trim_of_not_blank (h : ∀ c ∈ cs, isBlank c = false) :
  trim cs = cs
  := by
  have hdrop {ds : List Char} (hds : ∀ c ∈ ds, isBlank c = false) : ds.dropWhile isBlank = ds := by
    cases ds with
    | nil => rfl
    | cons c ds => rw [List.dropWhile_cons_of_neg (by simp [hds c])]
  rw [trim, trimStart, hdrop h, trimEnd, hdrop (by simpa using h), List.reverse_reverse]

/-- A text without blanks and in lower case is its own canonical form, unless it is in quotes or a
line break is written as an escape in it. -/
theorem canonicalize_ofList_eq_iff (hblank : ∀ c ∈ cs, isBlank c = false)
    (hlower : ∀ c ∈ cs, lowercaseChar c = [c]) :
  canonicalize (String.ofList cs) = String.ofList cs ↔ ¬ InQuotes cs ∧ ¬ HasEscape cs
  := by
  have hbare : bareName (String.ofList cs) = unquote cs := by
    rw [bareName, String.toList_ofList, trim_of_not_blank hblank]
  have hlowercase : lowercase (underscored (unquote cs)) = underscored (unquote cs) := by
    apply lowercaseAfter_eq
    intro c hc
    obtain rfl | hc := (mem_underscored hc).1
    · decide
    · apply hlower c (unquote_subset cs hc)
  rw [canonicalize_eq, hbare, hlowercase, String.ofList_inj]
  constructor
  · intro heq
    constructor
    · intro hquotes
      have hlength := length_underscoreRuns_le false (nameUnits (unquote cs))
      rw [← underscored, heq] at hlength
      have := length_nameUnits_le (unquote cs)
      have := length_unquote_lt hquotes
      omega
    · rw [← heq]
      apply not_hasEscape_underscored
  · rintro ⟨hquotes, hescape⟩
    rw [unquote_of_not_inQuotes hquotes, underscored_eq hblank hescape]

theorem canonicalize_eq_self_iff {name : String}
    (h : ∃ name', canonicalize name' = name) :
  canonicalize name = name ↔ ¬ InQuotes name.toList ∧ ¬ HasEscape name.toList
  := by
  obtain ⟨name', rfl⟩ := h
  rw [canonicalize_eq name', canonicalize_ofList_eq_iff, String.toList_ofList]
  · intro c hc
    apply isBlank_of_mem_lowercaseAfter _ hc
    intro d hd
    exact (mem_underscored hd).2
  · intro c hc
    apply lowercaseChar_of_mem hc

/-- Canonical names are their own canonical form but for those of names that are in quotes inside of
their quotes, and of those with an escaped line break in a capital letter.  So a name of the set of
identifiers is its own canonical form unless it is in quotes or has an escaped line break. -/
theorem canonicalize_canonicalize_iff :
  (∀ name : String, canonicalize (canonicalize name) = canonicalize name
      ↔ ¬ InQuotes (bareName name) ∧ ¬ HasCapitalEscape (bareName name))
    ∧ ∀ (e : Expr) (name : String), name ∈ e.identifierSet →
      (canonicalize name = name ↔ ¬ InQuotes name.toList ∧ ¬ HasEscape name.toList)
  := by
  constructor
  · intro name
    have hescape : ¬ HasEscape (underscored (bareName name)) := not_hasEscape_underscored _
    rw [canonicalize_eq_self_iff ⟨name, rfl⟩, canonicalize_eq, String.toList_ofList,
      inQuotes_lowercase_iff, inQuotes_underscored_iff, hasEscape_lowercase_iff,
      hasCapitalEscape_underscored_iff, or_iff_right hescape]
  · intro e name hname
    obtain ⟨r, -, hr⟩ := (e.identifierSet_spec.1 name).mp hname
    apply canonicalize_eq_self_iff ⟨r, hr⟩

/-- The canonical form of a name in two pairs of quotes is in quotes, and that of a name with a
capital letter behind a backslash has an escaped line break. -/
theorem canonicalize_changes_again :
  canonicalize (canonicalize "\"\"a\"\"") ≠ canonicalize "\"\"a\"\""
    ∧ canonicalize (canonicalize "a\\Nb") ≠ canonicalize "a\\Nb"
  := by decide +kernel

/-- A quote within the name, a backslash before another letter, and a capital sigma at the end of a
word. -/
theorem canonicalize_canonicalize_of_quoted :
  canonicalize " \"ΟΔΟΣ\" \\n\tA\\Man\" " = "οδος\"_a\\man"
    ∧ canonicalize "οδος\"_a\\man" = "οδος\"_a\\man"
    ∧ "οδος\"_a\\man" ∈ (Expr.ident 0 "ΟΔΟΣ\"_A\\man").identifierSet
    ∧ ¬ InQuotes "οδος\"_a\\man".toList ∧ ¬ HasEscape "οδος\"_a\\man".toList
  := by
  have hcanonical : canonicalize " \"ΟΔΟΣ\" \\n\tA\\Man\" " = "οδος\"_a\\man" := by
    decide +kernel
  have hagain : canonicalize "οδος\"_a\\man" = "οδος\"_a\\man" := by
    rw [← hcanonical]
    apply (canonicalize_canonicalize_iff.1 _).mpr
    decide +kernel
  have hmem : "οδος\"_a\\man" ∈ (Expr.ident 0 "ΟΔΟΣ\"_A\\man").identifierSet := by
    decide +kernel
  exact ⟨hcanonical, hagain, hmem, (canonicalize_canonicalize_iff.2 _ _ hmem).mp hagain⟩

end EquationLang
