import EquationLang.Token.Character
import Mathlib.Tactic.Common

/-!
# The alphabet falls into classes

The terminator, blanks, the characters a number starts with, the quote, punctuation, and the
remaining characters an identifier starts with are classes of characters with no member in common.
A name is the text of an identifier.
-/

namespace EquationLang

/-- Only operators are written in several ways. -/
theorem punctuation?_injective {c d : Char} {kind : Token.Kind} (hc : punctuation? c = some kind)
    (hd : punctuation? d = some kind) (hkind : kind ≠ .operator) :
  c = d
  := by
  rw [punctuation?.eq_def] at hc hd
  split at hc <;> cases hc
  any_goals exact absurd rfl hkind
  all_goals
    split at hd <;> cases hd
    all_goals rfl

theorem isNumberStart_bounds {c : Char} (h : isNumberStart c) :
  c.toNat = 46 ∨ 48 ≤ c.toNat ∧ c.toNat ≤ 57
  := by
  rw [isNumberStart, Bool.or_eq_true, decide_eq_true_iff] at h
  obtain h | rfl := h
  · right
    rw [Char.isDigit, Bool.and_eq_true, decide_eq_true_iff, decide_eq_true_iff] at h
    exact h
  · left
    rfl

/-! ### Blanks -/

theorem isBlank_eq_false_of_isNumberStart {c : Char} (h : isNumberStart c) :
  isBlank c = false
  := by
  have := isNumberStart_bounds h
  simp only [isBlank, Bool.or_eq_false_iff, Bool.and_eq_false_iff, decide_eq_false_iff_not,
    beq_eq_false_iff_ne]
  omega

theorem isBlank_eq_false_of_punctuation? {c : Char} {kind : Token.Kind}
    (h : punctuation? c = some kind) :
  isBlank c = false
  := by
  rw [punctuation?.eq_def] at h
  split at h <;> first | rfl | cases h

/-! ### Punctuation -/

theorem isNumberStart_eq_false_of_punctuation? {c : Char} {kind : Token.Kind}
    (h : punctuation? c = some kind) :
  isNumberStart c = false
  := by
  rw [punctuation?.eq_def] at h
  split at h <;> first | rfl | cases h

theorem ne_terminator_of_punctuation? {c : Char} {kind : Token.Kind}
    (h : punctuation? c = some kind) :
  c ≠ terminator
  := by
  rintro rfl
  cases h

theorem ne_quote_of_punctuation? {c : Char} {kind : Token.Kind} (h : punctuation? c = some kind) :
  c ≠ '"'
  := by
  rintro rfl
  cases h

/-! ### Identifiers -/

theorem isIdentContinue_iff {c : Char} :
  isIdentContinue c
    ↔ isBlank c = false ∧ isControl c = false ∧ punctuation? c = none ∧ c ≠ terminator
  := by
  simp [isIdentContinue, and_assoc]

theorem isIdentStart_iff {c : Char} :
  isIdentStart c ↔ isIdentContinue c ∧ c.isDigit = false ∧ c ≠ '"'
  := by
  simp [isIdentStart, and_assoc]

theorem isNumberStart_eq_false_of_isIdentStart {c : Char} (h : isIdentStart c) (hpoint : c ≠ '.') :
  isNumberStart c = false
  := by
  simp [isNumberStart, (isIdentStart_iff.mp h).2.1, hpoint]

/-- A character that starts no token is a control character. -/
theorem isControl_of_not_isIdentStart {c : Char} (hterminator : c ≠ terminator)
    (hblank : isBlank c = false) (hnumber : isNumberStart c = false) (hquote : c ≠ '"')
    (hmark : punctuation? c = none) (h : ¬ isIdentStart c) :
  isControl c
  := by
  by_contra hcontrol
  apply h
  rw [isNumberStart, Bool.or_eq_false_iff] at hnumber
  rw [isIdentStart_iff, isIdentContinue_iff]
  simp_all

/-- A control character that is not blank is in none of the other classes. -/
theorem class_of_isControl {c : Char} (h : isControl c) (hblank : isBlank c = false) :
  c ≠ terminator ∧ isNumberStart c = false ∧ c ≠ '"' ∧ punctuation? c = none
    ∧ ¬ isIdentStart c
  := by
  refine ⟨?_, ?_, ?_, ?_, ?_⟩
  · rintro rfl
    cases h
  · apply Bool.eq_false_iff.mpr
    intro hnumber
    have := isNumberStart_bounds hnumber
    simp only [isControl, Bool.or_eq_true, Bool.and_eq_true, decide_eq_true_iff] at h
    omega
  · rintro rfl
    cases h
  · cases hmark : punctuation? c with
    | none => rfl
    | some kind =>
      rw [punctuation?.eq_def] at hmark
      split at hmark <;> first | cases h | cases hmark
  · intro hstart
    rw [isIdentStart_iff, isIdentContinue_iff] at hstart
    rw [hstart.1.2.1] at h
    cases h

/-- The text of an identifier: a character that starts one, and characters it goes on with.  A
point starts a number. -/
def IsName (cs : List Char) : Prop :=
  (∃ c ∈ cs.head?, isIdentStart c ∧ c ≠ '.') ∧ ∀ c ∈ cs, isIdentContinue c

end EquationLang
