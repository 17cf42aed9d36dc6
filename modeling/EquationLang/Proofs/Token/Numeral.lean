import EquationLang.Token.Character
import EquationLang.Token.Number
import Mathlib.Data.List.TakeWhile
import Mathlib.Tactic.Common

/-!
# The shape of numbers

`IsNumber` describes the texts that are numbers: digits, a fraction and an exponent, each of which
may be missing.  `splitNumber_eq_iff` says that `splitNumber` takes a number off a text, and the
longest one: the number cannot be continued by the character after it.
-/

namespace EquationLang

/-- All characters are decimal digits. -/
def IsDigits (cs : List Char) : Prop := ∀ c ∈ cs, c.isDigit

/-- Nothing, or a point with digits after it. -/
def IsFraction (cs : List Char) : Prop := cs = [] ∨ ∃ ds, IsDigits ds ∧ cs = '.' :: ds

/-- Nothing, or one of the two signs. -/
def IsSign (cs : List Char) : Prop := cs = [] ∨ cs = ['+'] ∨ cs = ['-']

/-- Nothing, or the letter of an exponent with a sign and digits after it. -/
def IsExponent (cs : List Char) : Prop :=
  cs = [] ∨ ∃ c sign ds, (c = 'e' ∨ c = 'E') ∧ IsSign sign ∧ IsDigits ds ∧ cs = c :: (sign ++ ds)

/-- The text is digits, a fraction and an exponent. -/
def IsNumber (cs : List Char) : Prop :=
  ∃ whole fraction exponent, IsDigits whole ∧ IsFraction fraction ∧ IsExponent exponent ∧
    cs = whole ++ (fraction ++ exponent)

/-- The text of a number: it starts with a digit or a point, and all of it has the shape of a
number. -/
def IsNumeral (cs : List Char) : Prop := (∃ c ∈ cs.head?, isNumberStart c) ∧ IsNumber cs

/-- The characters that numbers are made of. -/
def isNumberPart (c : Char) : Bool := c.isDigit || c ∈ ['.', 'e', 'E', '+', '-']

theorem IsNumber.isNumberPart {cs : List Char} (h : IsNumber cs) {c : Char} (hc : c ∈ cs) :
  isNumberPart c
  := by
  obtain ⟨whole, fraction, exponent, hw, hf, he, rfl⟩ := h
  rw [EquationLang.isNumberPart, Bool.or_eq_true]
  obtain hc | hc := List.mem_append.mp hc
  · left
    apply hw c hc
  obtain hc | hc := List.mem_append.mp hc
  · obtain rfl | ⟨ds, hds, rfl⟩ := hf
    · cases hc
    · obtain rfl | hc := List.mem_cons.mp hc
      · right; decide
      · left
        apply hds c hc
  · obtain rfl | ⟨d, sign, ds, hd, hsign, hds, rfl⟩ := he
    · cases hc
    obtain rfl | hc := List.mem_cons.mp hc
    · right
      obtain rfl | rfl := hd <;> decide
    obtain hc | hc := List.mem_append.mp hc
    · right
      obtain rfl | rfl | rfl := hsign
      · cases hc
      · obtain rfl := List.mem_singleton.mp hc
        decide
      · obtain rfl := List.mem_singleton.mp hc
        decide
    · left
      apply hds c hc

/-! ### What is taken off has the shape of a number -/

theorem isDigits_takeWhile (cs : List Char) :
  IsDigits (cs.takeWhile Char.isDigit)
  := by
  intro c hc
  apply List.mem_takeWhile_imp hc

theorem isFraction_splitFraction (cs : List Char) :
  IsFraction (splitFraction cs).1
  := by
  rw [splitFraction.eq_def]
  split
  · next cs =>
    right
    use (splitDigits cs).1, isDigits_takeWhile cs
  · left
    rfl

theorem isSign_splitSign (cs : List Char) :
  IsSign (splitSign cs).1
  := by
  rw [splitSign.eq_def]
  split <;> simp [IsSign]

theorem isExponent_splitExponent (cs : List Char) :
  IsExponent (splitExponent cs).1
  := by
  rw [splitExponent.eq_def]
  split
  · left
    rfl
  · next c cs =>
    split
    · next hc =>
      right
      use c, (splitSign cs).1, (splitDigits (splitSign cs).2).1, hc
      exact ⟨isSign_splitSign cs, isDigits_takeWhile _, rfl⟩
    · left
      rfl

theorem isNumber_splitNumber (cs : List Char) :
  IsNumber (splitNumber cs).1
  := by
  use (splitDigits cs).1, (splitFraction (splitDigits cs).2).1,
    (splitExponent (splitFraction (splitDigits cs).2).2).1
  use isDigits_takeWhile cs, isFraction_splitFraction _, isExponent_splitExponent _
  apply List.append_assoc

/-! ### Beginnings of numbers -/

theorem IsDigits.of_append {cs ds : List Char} (h : IsDigits (cs ++ ds)) :
  IsDigits cs
  := by
  intro c hc
  apply h c (List.mem_append_left ds hc)

theorem IsFraction.of_append {cs ds : List Char} (h : IsFraction (cs ++ ds)) :
  IsFraction cs
  := by
  obtain h | ⟨es, hes, h⟩ := h
  · left
    exact (List.append_eq_nil_iff.mp h).1
  · cases cs with
    | nil => left; rfl
    | cons c cs =>
      obtain ⟨rfl, rfl⟩ := List.cons.inj h
      right
      use cs, hes.of_append

theorem IsSign.of_append {cs ds : List Char} (h : IsSign (cs ++ ds)) :
  IsSign cs
  := by
  obtain h | h | h := h
  · left
    exact (List.append_eq_nil_iff.mp h).1
  · obtain ⟨rfl, -⟩ | ⟨rfl, -⟩ := List.append_eq_singleton_iff.mp h
    · left; rfl
    · right; left; rfl
  · obtain ⟨rfl, -⟩ | ⟨rfl, -⟩ := List.append_eq_singleton_iff.mp h
    · left; rfl
    · right; right; rfl

theorem IsExponent.of_append {cs ds : List Char} (h : IsExponent (cs ++ ds)) :
  IsExponent cs
  := by
  obtain h | ⟨c, sign, es, hc, hsign, hes, h⟩ := h
  · left
    exact (List.append_eq_nil_iff.mp h).1
  · cases cs with
    | nil => left; rfl
    | cons d cs =>
      obtain ⟨rfl, happ⟩ := List.cons.inj h
      right
      obtain ⟨more, rfl, -⟩ | ⟨part, rfl, rfl⟩ := List.append_eq_append_iff.mp happ
      · use d, cs, [], hc, hsign.of_append
        exact ⟨fun _ h => (List.not_mem_nil h).elim, by rw [List.append_nil]⟩
      · use d, sign, part, hc, hsign, hes.of_append

/-- The beginning of a number is a number. -/
theorem IsNumber.of_append {cs ds : List Char} (h : IsNumber (cs ++ ds)) :
  IsNumber cs
  := by
  obtain ⟨whole, fraction, exponent, hw, hf, he, h⟩ := h
  obtain ⟨more, rfl, -⟩ | ⟨part, rfl, hpart⟩ := List.append_eq_append_iff.mp h
  · use cs, [], [], hw.of_append
    exact ⟨.inl rfl, .inl rfl, by simp⟩
  · obtain ⟨more, rfl, -⟩ | ⟨part', rfl, rfl⟩ := List.append_eq_append_iff.mp hpart.symm
    · use whole, part, [], hw, hf.of_append
      exact ⟨.inl rfl, by simp⟩
    · use whole, fraction, part', hw, hf, he.of_append

/-! ### The longest number -/

theorem splitDigits_append_of_isDigits {ds : List Char} (h : IsDigits ds) (cs : List Char) :
  splitDigits (ds ++ cs) = (ds ++ (splitDigits cs).1, (splitDigits cs).2)
  := by
  rw [splitDigits, splitDigits, List.takeWhile_append_of_pos h, List.dropWhile_append_of_pos h]

theorem splitDigits_eq_of_head {cs : List Char} (h : ∀ c ∈ cs.head?, ¬ c.isDigit) :
  splitDigits cs = ([], cs)
  := by
  cases cs with
  | nil => rfl
  | cons c cs =>
    have hc : ¬ c.isDigit := h c rfl
    simp [splitDigits, hc]

theorem splitFraction_eq_of_head {cs : List Char} (h : '.' ∉ cs.head?) :
  splitFraction cs = ([], cs)
  := by
  rw [splitFraction.eq_def]
  split
  · exact absurd rfl h
  · rfl

/-- The first character of a fraction is a point. -/
theorem IsFraction.head_eq {cs : List Char} (h : IsFraction cs) (hne : cs ≠ []) (rest : List Char) :
  (cs ++ rest).head? = some '.'
  := by
  obtain rfl | ⟨ds, -, rfl⟩ := h
  · contradiction
  · rfl

/-- The first character of an exponent is its letter. -/
theorem IsExponent.head_eq {cs : List Char} (h : IsExponent cs) (hne : cs ≠ []) (rest : List Char) :
  (cs ++ rest).head? = some 'e' ∨ (cs ++ rest).head? = some 'E'
  := by
  obtain rfl | ⟨c, sign, ds, rfl | rfl, -, -, rfl⟩ := h
  · contradiction
  · left; rfl
  · right; rfl

theorem prefix_splitFraction {fraction : List Char} (h : IsFraction fraction) (rest : List Char) :
  fraction <+: (splitFraction (fraction ++ rest)).1
  := by
  obtain rfl | ⟨ds, hds, rfl⟩ := h
  · apply List.nil_prefix
  · rw [List.cons_append, splitFraction, splitDigits_append_of_isDigits hds]
    apply List.prefix_append ('.' :: ds)

theorem splitExponent_cons {c : Char} (hc : c = 'e' ∨ c = 'E') (cs : List Char) :
  splitExponent (c :: cs) = (c :: ((splitSign cs).1 ++ (splitDigits (splitSign cs).2).1),
    (splitDigits (splitSign cs).2).2)
  := by
  rw [splitExponent, if_pos hc]

theorem splitSign_eq_of_isDigit {c : Char} (hc : c.isDigit) (cs : List Char) :
  splitSign (c :: cs) = ([], c :: cs)
  := by
  rw [splitSign.eq_def]
  split
  · simp_all
  · simp_all
  · rfl

theorem prefix_splitExponent {exponent : List Char} (h : IsExponent exponent) (rest : List Char) :
  exponent <+: (splitExponent (exponent ++ rest)).1
  := by
  obtain rfl | ⟨c, sign, ds, hc, hsign, hds, rfl⟩ := h
  · apply List.nil_prefix
  · rw [List.cons_append, List.append_assoc, splitExponent_cons hc, List.prefix_cons_inj]
    have hdigits := splitDigits_append_of_isDigits hds rest
    obtain rfl | rfl | rfl := hsign
    · -- a sign that is missing may still be found in front of the digits of `rest`
      cases ds with
      | nil => apply List.nil_prefix
      | cons d ds =>
        rw [List.nil_append, List.nil_append, List.cons_append,
          splitSign_eq_of_isDigit (hds d List.mem_cons_self), ← List.cons_append, hdigits]
        apply List.prefix_append
    · simp only [List.singleton_append, splitSign, hdigits]
      apply List.prefix_append ('+' :: ds)
    · simp only [List.singleton_append, splitSign, hdigits]
      apply List.prefix_append ('-' :: ds)

/-- An exponent ends the digits and the fraction before it. -/
theorem splitNumber_of_exponent {whole fraction exponent : List Char} (hw : IsDigits whole)
    (hf : IsFraction fraction) (he : IsExponent exponent) (hne : exponent ≠ []) (rest : List Char) :
  (splitNumber (whole ++ (fraction ++ (exponent ++ rest)))).1
    = whole ++ (fraction ++ (splitExponent (exponent ++ rest)).1)
  := by
  have hstop : splitDigits (exponent ++ rest) = ([], exponent ++ rest) := by
    apply splitDigits_eq_of_head
    obtain h | h := he.head_eq hne rest <;> rw [h] <;> simp
  rw [splitNumber, splitDigits_append_of_isDigits hw]
  obtain rfl | ⟨ds, hds, rfl⟩ := hf
  · have hfraction : splitFraction (exponent ++ rest) = ([], exponent ++ rest) := by
      apply splitFraction_eq_of_head
      obtain h | h := he.head_eq hne rest <;> rw [h] <;> simp
    simp [hstop, hfraction]
  · have hpoint : splitDigits ('.' :: (ds ++ (exponent ++ rest)))
        = ([], '.' :: (ds ++ (exponent ++ rest))) := by
      apply splitDigits_eq_of_head
      simp
    simp [hpoint, splitFraction, splitDigits_append_of_isDigits hds, hstop]

/-- Every number at the front of a text lies at the front of the one that is taken off. -/
theorem prefix_splitNumber {n : List Char} (h : IsNumber n) (rest : List Char) :
  n <+: (splitNumber (n ++ rest)).1
  := by
  obtain ⟨whole, fraction, exponent, hw, hf, he, rfl⟩ := h
  rw [List.append_assoc, List.append_assoc]
  by_cases hx : exponent = []
  · subst hx
    rw [List.append_nil, List.nil_append, splitNumber, splitDigits_append_of_isDigits hw]
    simp only [List.append_assoc]
    apply (List.prefix_append_right_inj whole).mpr
    by_cases hy : fraction = []
    · subst hy
      apply List.nil_prefix
    · have hpoint : splitDigits (fraction ++ rest) = ([], fraction ++ rest) := by
        apply splitDigits_eq_of_head
        rw [hf.head_eq hy]
        simp
      rw [hpoint]
      apply (prefix_splitFraction hf rest).trans
      apply List.prefix_append
  · rw [splitNumber_of_exponent hw hf he hx]
    apply (List.prefix_append_right_inj whole).mpr
    apply (List.prefix_append_right_inj fraction).mpr
    apply prefix_splitExponent he

/-- `n` is taken off a text as its longest number exactly if `n` is a number at the front of it and
the character after `n` does not continue it. -/
theorem splitNumber_eq_iff {cs n rest : List Char} :
  splitNumber cs = (n, rest)
    ↔ cs = n ++ rest ∧ IsNumber n ∧ ∀ c ∈ rest.head?, ¬ IsNumber (n ++ [c])
  := by
  constructor
  · intro h
    have hcs := splitNumber_append cs
    have hn := isNumber_splitNumber cs
    rw [h] at hcs hn
    use hcs.symm, hn
    intro c hc hlonger
    obtain ⟨rest, rfl⟩ := List.head?_eq_some_iff.mp hc
    have hprefix := prefix_splitNumber hlonger rest
    rw [List.append_assoc, List.singleton_append, hcs, h] at hprefix
    have hlength := hprefix.length_le
    rw [List.length_append, List.length_singleton] at hlength
    exact absurd hlength (Nat.not_succ_le_self _)
  · rintro ⟨rfl, hn, hstop⟩
    have hcs := splitNumber_append (n ++ rest)
    obtain ⟨more, hmore⟩ := prefix_splitNumber hn rest
    rw [← hmore, List.append_assoc, List.append_cancel_left_eq] at hcs
    cases more with
    | nil =>
      rw [List.append_nil] at hmore
      apply Prod.ext hmore.symm hcs
    | cons c more =>
      exfalso
      apply hstop c (by rw [← hcs]; rfl)
      have hmore' : IsNumber (n ++ [c] ++ more) := by
        rw [List.append_assoc, List.singleton_append, hmore]
        apply isNumber_splitNumber
      apply hmore'.of_append

end EquationLang
