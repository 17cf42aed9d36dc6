import EquationLang.Text.CharClass
import EquationLang.Text.Lowercase
import Mathlib.Data.List.Basic
import Mathlib.Tactic.Common

/-!
# Lowercase is final

A character that is changed by the lowercase mapping becomes one that is not (`IsLowered`), so a
text in lower case has only characters that are not changed (`lowercaseChar_of_mem`).  The mapping
makes no blank, quote or backslash of another character, and the letters `n` and `r` of their
capitals only; so the places of quotes are the same in lower case, and an escaped line break is
there exactly if it was there, in small or capital letters (`escape_infix_lowercaseAfter`).
-/

namespace EquationLang

/-! ### Runs of code points -/

namespace CaseRun

variable {r r' : CaseRun} {range : CodeRange} {n m m' : Nat}

/-- The run maps the code point `n` to `m`. -/
def Maps (r : CaseRun) (n m : Nat) : Prop :=
  r.first ≤ n ∧ n ≤ r.last ∧ (n - r.first) % r.step = 0 ∧ m = r.target + (n - r.first)

theorem exists_maps_of_lookup? {runs : List CaseRun} (h : lookup? n runs = some m) :
  ∃ r ∈ runs, r.Maps n m
  := by
  fun_induction lookup? n runs with
  | case1 | case2 => cases h
  | case3 r runs hfirst hlast hstep =>
    exact ⟨r, List.mem_cons_self, Nat.not_lt.mp hfirst, hlast, hstep, (Option.some.inj h).symm⟩
  | case4 r runs _ _ _ ih | case5 r runs _ _ ih =>
    obtain ⟨r', hr', hmaps⟩ := ih h
    exact ⟨r', List.mem_cons_of_mem r hr', hmaps⟩

/-- No code point that the run maps to is mapped by the other run: it is before or behind those, or
it falls between two of them. -/
def misses (r r' : CaseRun) : Bool :=
  (r.target + (r.last - r.first)).blt r'.first || r'.last.blt r.target
    || (r.step.beq 2 || r.last.ble r.first) && r'.step.beq 2
      && !(r.target % 2).beq (r'.first % 2)

theorem not_maps_of_misses (h : r.misses r') (hmaps : r.Maps n m) :
  ¬ r'.Maps m m'
  := by
  rintro ⟨hfirst', hlast', hstep', -⟩
  obtain ⟨hfirst, hlast, hstep, rfl⟩ := hmaps
  simp only [misses, Bool.or_eq_true, Bool.and_eq_true, Nat.blt_eq, Nat.ble_eq, Nat.beq_eq,
    Bool.not_eq_true', ← Bool.not_eq_true] at h
  obtain (h | h) | ⟨⟨hr, hr'⟩, hparity⟩ := h
  · omega
  · omega
  · rw [hr'] at hstep'
    obtain hr | hr := hr
    · rw [hr] at hstep
      omega
    · omega

/-- No code point that the run maps to is in the range. -/
def avoids (r : CaseRun) (range : CodeRange) : Bool :=
  (r.target + (r.last - r.first)).blt range.first || range.last.blt r.target

theorem lt_or_lt_of_avoids (h : r.avoids range) (hmaps : r.Maps n m) :
  m < range.first ∨ range.last < m
  := by
  obtain ⟨hfirst, hlast, -, rfl⟩ := hmaps
  simp only [avoids, Bool.or_eq_true, Nat.blt_eq] at h
  omega

end CaseRun

/-! ### The table -/

theorem misses_lowercaseRuns :
  (lowercaseRuns.all fun r => lowercaseRuns.all r.misses) = true
  := by decide +kernel

/-- Code points that no character is mapped to: the control characters, blanks, signs and capitals
of ASCII, the capital I with a dot, and the other blanks. -/
def unreachedRanges : List CodeRange := [
  ⟨0x00, 0x60⟩, ⟨0x85, 0x85⟩, ⟨0xA0, 0xA0⟩, ⟨0x130, 0x130⟩, ⟨0x1680, 0x1680⟩, ⟨0x2000, 0x200A⟩,
  ⟨0x2028, 0x2029⟩, ⟨0x202F, 0x202F⟩, ⟨0x205F, 0x205F⟩, ⟨0x3000, 0x3000⟩]

theorem avoids_unreachedRanges :
  (lowercaseRuns.all fun r => unreachedRanges.all r.avoids) = true
  := by decide +kernel

/-- Only the run of the capitals of ASCII maps to the letters `n` and `r`. -/
theorem capitals_or_avoids_letters :
  (lowercaseRuns.all fun r => r.first.beq 0x41 && r.target.beq 0x61
    || [0x6E, 0x72].all fun n => r.avoids ⟨n, n⟩) = true
  := by decide +kernel

theorem lookup?_lowercaseRuns_of_maps {r : CaseRun} {n m : Nat} (hr : r ∈ lowercaseRuns)
    (h : r.Maps n m) :
  CaseRun.lookup? m lowercaseRuns = none
  := by
  have hmisses := List.all_eq_true.mp (List.all_eq_true.mp misses_lowercaseRuns r hr)
  cases hlookup : CaseRun.lookup? m lowercaseRuns with
  | none => rfl
  | some m' =>
    obtain ⟨r', hr', hmaps⟩ := CaseRun.exists_maps_of_lookup? hlookup
    exact absurd hmaps (CaseRun.not_maps_of_misses (hmisses r' hr') h)

/-! ### Characters -/

/-- The letter is one that makes a line break of a backslash before it. -/
def IsBreakLetter (c : Char) : Prop := c = 'n' ∨ c = 'r'

instance : DecidablePred IsBreakLetter := fun _ => inferInstanceAs (Decidable (_ ∨ _))

/-- The character `d` can be what another character `c` becomes in lower case. -/
structure IsLowered (c d : Char) : Prop where
  lowercaseChar_eq : lowercaseChar d = [d]
  not_blank : isBlank d = false
  ne_quote : d ≠ '"'
  ne_backslash : d ≠ '\\'
  toUpper_eq : IsBreakLetter d → c = d.toUpper

theorem eq_toUpper_of_maps {r : CaseRun} {c d : Char} (hr : r ∈ lowercaseRuns)
    (h : r.Maps c.toNat d.toNat) (hd : IsBreakLetter d) :
  c = d.toUpper
  := by
  have hmem : d.toNat ∈ [0x6E, 0x72] := by
    obtain rfl | rfl := hd <;> decide
  have hletter := List.all_eq_true.mp capitals_or_avoids_letters r hr
  rw [Bool.or_eq_true, Bool.and_eq_true, Nat.beq_eq, Nat.beq_eq, List.all_eq_true] at hletter
  obtain ⟨hfirst, htarget⟩ | havoids := hletter
  · obtain ⟨hle, -, -, heq⟩ := h
    rw [hfirst] at hle heq
    rw [htarget] at heq
    have hcode : c.toNat + 0x20 = d.toNat := by omega
    apply Char.toNat_inj.mp
    obtain rfl | rfl := hd <;> exact Nat.add_right_cancel (m := 0x20) hcode
  · obtain hlt | hlt := CaseRun.lt_or_lt_of_avoids (havoids d.toNat hmem) h <;>
      exact absurd hlt (Nat.lt_irrefl _)

theorem isLowered_of_maps {r : CaseRun} {c : Char} {m : Nat} (hr : r ∈ lowercaseRuns)
    (h : r.Maps c.toNat m) :
  IsLowered c (Char.ofNat m)
  := by
  by_cases hvalid : m.isValidChar
  · obtain ⟨d, rfl⟩ : ∃ d : Char, d.toNat = m := ⟨Char.ofNatAux m hvalid, rfl⟩
    rw [Char.ofNat_toNat]
    have havoids : ∀ range ∈ unreachedRanges, d.toNat < range.first ∨ range.last < d.toNat := by
      intro range hrange
      apply CaseRun.lt_or_lt_of_avoids _ h
      apply List.all_eq_true.mp (List.all_eq_true.mp avoids_unreachedRanges r hr) range hrange
    simp only [unreachedRanges, List.forall_mem_cons, List.not_mem_nil, false_implies,
      implies_true, and_true, Nat.not_lt_zero, false_or] at havoids
    have hne {e : Char} (he : e.toNat ≤ 0x60 ∨ e.toNat = 0x130) : d ≠ e := by
      rintro rfl
      omega
    constructor
    · rw [lowercaseChar, if_neg (hne (.inr rfl)), lookup?_lowercaseRuns_of_maps hr h]
    · simp [isBlank]
      omega
    · apply hne (.inl (by decide))
    · apply hne (.inl (by decide))
    · apply eq_toUpper_of_maps hr h
  · have hzero : Char.ofNat m = '\x00' := by
      rw [Char.ofNat, dif_neg hvalid]
      rfl
    rw [hzero]
    exact ⟨by decide, by decide, by decide, by decide, fun h => absurd h (by decide)⟩

/-- A character stays as it is, or it becomes others that are in lower case. -/
theorem lowercaseChar_cases (c : Char) :
  lowercaseChar c = [c] ∨ lowercaseChar c ≠ [] ∧ ∀ d ∈ lowercaseChar c, IsLowered c d
  := by
  rw [lowercaseChar]
  split
  · next hc =>
    refine .inr ⟨by simp, ?_⟩
    intro d hd
    simp only [List.mem_cons, List.not_mem_nil, or_false] at hd
    obtain rfl | rfl := hd <;>
      exact ⟨by decide, by decide, by decide, by decide, fun h => absurd h (by decide)⟩
  · split
    · next n hlookup =>
      obtain ⟨r, hr, hmaps⟩ := CaseRun.exists_maps_of_lookup? hlookup
      refine .inr ⟨by simp, ?_⟩
      intro d hd
      obtain rfl := List.mem_singleton.mp hd
      apply isLowered_of_maps hr hmaps
    · exact .inl rfl

/-- The text is what the character can become in lower case, within a word or at its end. -/
def IsFormOf (form : List Char) (c : Char) : Prop :=
  form = lowercaseChar c ∨ c = 'Σ' ∧ form = ['ς']

namespace IsFormOf

variable {form : List Char} {c d : Char}

/-- A character stays as it is, or it becomes others that are in lower case. -/
theorem cases (h : IsFormOf form c) :
  form = [c] ∧ lowercaseChar c = [c] ∨ form ≠ [] ∧ ∀ d ∈ form, IsLowered c d
  := by
  obtain rfl | ⟨rfl, rfl⟩ := h
  · exact (lowercaseChar_cases c).imp_left fun hc => ⟨hc, hc⟩
  · refine .inr ⟨by simp, ?_⟩
    intro d hd
    obtain rfl := List.mem_singleton.mp hd
    exact ⟨by decide, by decide, by decide, by decide, fun h => absurd h (by decide)⟩

theorem ne_nil (h : IsFormOf form c) :
  form ≠ []
  := by
  obtain ⟨rfl, -⟩ | ⟨hne, -⟩ := h.cases
  · simp
  · exact hne

/-- What a character becomes is not changed again. -/
theorem lowercaseChar_eq (h : IsFormOf form c) (hd : d ∈ form) :
  lowercaseChar d = [d]
  := by
  obtain ⟨rfl, hc⟩ | ⟨-, hform⟩ := h.cases
  · obtain rfl := List.mem_singleton.mp hd
    exact hc
  · exact (hform d hd).lowercaseChar_eq

/-- No character becomes a blank. -/
theorem isBlank_eq_false (h : IsFormOf form c) (hc : isBlank c = false) (hd : d ∈ form) :
  isBlank d = false
  := by
  obtain ⟨rfl, -⟩ | ⟨-, hform⟩ := h.cases
  · obtain rfl := List.mem_singleton.mp hd
    exact hc
  · exact (hform d hd).not_blank

/-- A character that is in lower case stays as it is. -/
theorem eq_singleton (h : IsFormOf form c) (hc : lowercaseChar c = [c]) :
  form = [c]
  := by
  obtain rfl | ⟨rfl, -⟩ := h
  · exact hc
  · exact absurd hc (by decide)

/-- No other character becomes a quote or a backslash. -/
theorem not_mem_of_ne (h : IsFormOf form c) (hd : d = '"' ∨ d = '\\') (hne : c ≠ d) :
  d ∉ form
  := by
  intro hmem
  obtain ⟨rfl, -⟩ | ⟨-, hform⟩ := h.cases
  · exact hne (List.mem_singleton.mp hmem).symm
  · obtain hd | hd := hd
    · exact absurd hd (hform d hmem).ne_quote
    · exact absurd hd (hform d hmem).ne_backslash

/-- The letters of escaped line breaks are what they and their capitals become. -/
theorem head?_eq_iff (h : IsFormOf form c) (hd : IsBreakLetter d) :
  form.head? = some d ↔ c = d ∨ c = d.toUpper
  := by
  constructor
  · intro hhead
    obtain ⟨rfl, -⟩ | ⟨-, hform⟩ := h.cases
    · exact .inl (Option.some.inj hhead)
    · exact .inr ((hform d (List.mem_of_head? hhead)).toUpper_eq hd)
  · intro hc
    have hform : form = lowercaseChar c := by
      obtain hform | ⟨rfl, -⟩ := h
      · exact hform
      · obtain rfl | rfl := hd <;> exact absurd hc (by decide)
    rw [hform]
    obtain rfl | rfl := hc <;> obtain rfl | rfl := hd <;> decide

end IsFormOf

/-! ### Texts -/

variable {before cs : List Char} {d : Char}

theorem exists_form (before : List Char) (c : Char) (cs : List Char) :
  ∃ form, IsFormOf form c
    ∧ lowercaseAfter before (c :: cs) = form ++ lowercaseAfter (c :: before) cs
  := by
  refine ⟨_, ?_, rfl⟩
  split
  · next hc =>
    rw [lowercaseSigma]
    split
    · exact .inr ⟨hc, rfl⟩
    · subst hc
      exact .inl (by decide)
  · exact .inl rfl

/-- A text in lower case has only characters that are not changed. -/
theorem lowercaseChar_of_mem (hd : d ∈ lowercaseAfter before cs) :
  lowercaseChar d = [d]
  := by
  induction cs generalizing before with
  | nil => cases hd
  | cons c cs ih =>
    obtain ⟨form, hform, heq⟩ := exists_form before c cs
    rw [heq] at hd
    obtain hd | hd := List.mem_append.mp hd
    · apply hform.lowercaseChar_eq hd
    · apply ih hd

/-- A text without blanks has none in lower case. -/
theorem isBlank_of_mem_lowercaseAfter (h : ∀ c ∈ cs, isBlank c = false)
    (hd : d ∈ lowercaseAfter before cs) :
  isBlank d = false
  := by
  induction cs generalizing before with
  | nil => cases hd
  | cons c cs ih =>
    obtain ⟨hc, hcs⟩ := List.forall_mem_cons.mp h
    obtain ⟨form, hform, heq⟩ := exists_form before c cs
    rw [heq] at hd
    obtain hd | hd := List.mem_append.mp hd
    · apply hform.isBlank_eq_false hc hd
    · apply ih hcs hd

/-- A text of characters that are not changed stays as it is, whatever comes before it. -/
theorem lowercaseAfter_eq (h : ∀ c ∈ cs, lowercaseChar c = [c]) (before : List Char) :
  lowercaseAfter before cs = cs
  := by
  induction cs generalizing before with
  | nil => rfl
  | cons c cs ih =>
    obtain ⟨hc, hcs⟩ := List.forall_mem_cons.mp h
    obtain ⟨form, hform, heq⟩ := exists_form before c cs
    rw [heq, hform.eq_singleton hc, ih hcs, List.singleton_append]

theorem lowercaseAfter_eq_nil_iff :
  lowercaseAfter before cs = [] ↔ cs = []
  := by
  cases cs with
  | nil => simp [lowercaseAfter]
  | cons c cs =>
    obtain ⟨form, hform, heq⟩ := exists_form before c cs
    simp [heq, hform.ne_nil]

theorem lowercaseAfter_cons_quote (before cs : List Char) :
  lowercaseAfter before ('"' :: cs) = '"' :: lowercaseAfter ('"' :: before) cs
  := by
  obtain ⟨form, hform, heq⟩ := exists_form before '"' cs
  rw [heq, hform.eq_singleton (by decide), List.singleton_append]

/-- A text begins with a quote in lower case only if it does so before. -/
theorem head?_lowercaseAfter_eq_quote_iff :
  (lowercaseAfter before cs).head? = some '"' ↔ cs.head? = some '"'
  := by
  cases cs with
  | nil => rfl
  | cons c cs =>
    by_cases hc : c = '"'
    · rw [hc, lowercaseAfter_cons_quote]
      rfl
    · obtain ⟨form, hform, heq⟩ := exists_form before c cs
      rw [heq, List.head?_append_of_ne_nil _ hform.ne_nil, List.head?_cons, Option.some_inj]
      refine iff_of_false (fun hhead => ?_) hc
      exact hform.not_mem_of_ne (.inl rfl) hc (List.mem_of_head? hhead)

/-- A text ends with a quote in lower case exactly if it does so before. -/
theorem getLast?_lowercaseAfter_eq_quote_iff :
  (lowercaseAfter before cs).getLast? = some '"' ↔ cs.getLast? = some '"'
  := by
  induction cs generalizing before with
  | nil => rfl
  | cons c cs ih =>
    obtain ⟨form, hform, heq⟩ := exists_form before c cs
    by_cases hcs : cs = []
    · subst hcs
      by_cases hc : c = '"'
      · rw [hc, lowercaseAfter_cons_quote]
        rfl
      · rw [heq, lowercaseAfter, List.append_nil, List.getLast?_singleton, Option.some_inj]
        refine iff_of_false (fun hlast => ?_) hc
        exact hform.not_mem_of_ne (.inl rfl) hc (List.mem_of_getLast? hlast)
    · rw [heq, List.getLast?_append_of_ne_nil _ (mt lowercaseAfter_eq_nil_iff.mp hcs), ih,
        List.getLast?_cons_of_ne_nil hcs]

theorem head?_lowercaseAfter_iff (hd : IsBreakLetter d) :
  (lowercaseAfter before cs).head? = some d ↔ cs.head? = some d ∨ cs.head? = some d.toUpper
  := by
  cases cs with
  | nil => simp [lowercaseAfter]
  | cons c cs =>
    obtain ⟨form, hform, heq⟩ := exists_form before c cs
    rw [heq, List.head?_append_of_ne_nil _ hform.ne_nil, hform.head?_eq_iff hd, List.head?_cons,
      Option.some_inj, Option.some_inj]

theorem pair_infix_cons_iff {a b c : Char} {cs : List Char} :
  [a, b] <:+: c :: cs ↔ c = a ∧ cs.head? = some b ∨ [a, b] <:+: cs
  := by
  rw [List.infix_cons_iff, List.cons_prefix_cons, eq_comm]
  cases cs with
  | nil => simp
  | cons d cs => simp [eq_comm]

theorem pair_infix_append_iff {a b : Char} {form cs : List Char} (h : a ∉ form) :
  [a, b] <:+: form ++ cs ↔ [a, b] <:+: cs
  := by
  induction form with
  | nil => rfl
  | cons c form ih =>
    rw [List.cons_append, pair_infix_cons_iff, ih (List.not_mem_of_not_mem_cons h), or_iff_right]
    exact fun hfirst => List.ne_of_not_mem_cons h hfirst.1.symm

/-- A line break is written as an escape in lower case exactly if it was so before, in a small
letter or in a capital. -/
theorem escape_infix_lowercaseAfter (hd : IsBreakLetter d) :
  ['\\', d] <:+: lowercaseAfter before cs ↔ ['\\', d] <:+: cs ∨ ['\\', d.toUpper] <:+: cs
  := by
  induction cs generalizing before with
  | nil => simp [lowercaseAfter]
  | cons c cs ih =>
    obtain ⟨form, hform, heq⟩ := exists_form before c cs
    rw [heq, pair_infix_cons_iff, pair_infix_cons_iff]
    by_cases hc : c = '\\'
    · rw [hform.eq_singleton (by rw [hc]; decide), List.singleton_append, pair_infix_cons_iff, ih,
        head?_lowercaseAfter_iff hd]
      simp only [hc, true_and]
      exact or_or_or_comm
    · rw [pair_infix_append_iff (hform.not_mem_of_ne (.inr rfl) hc), ih]
      simp only [hc, false_and, false_or]

end EquationLang
