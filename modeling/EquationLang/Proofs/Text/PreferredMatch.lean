import Mathlib.Computability.RegularExpressions
import Mathlib.Tactic.Common

/-!
# Preferred matches of regular expressions

A regular expression may match several beginnings of a text.  They have an order of preference
(`remainders`), in which all of them occur (`mem_remainders_iff`): of two alternatives the first one
is tried before the second one, and a repetition goes on for as long as it can.  The match that
comes first in this order is the preferred one (`preferred?`).
-/

namespace EquationLang

open RegularExpression

/-- What repeated matches leave of a text if `f` tells what one match leaves, more repetitions
first.  A match that takes nothing off the text is not repeated. -/
def repeated (f : List Char → List (List Char)) (cs : List Char) : List (List Char) :=
  ((f cs).flatMap fun rest => if rest.length < cs.length then repeated f rest else []) ++ [cs]
termination_by cs.length

/-- What is left of a text by the matches of an expression at the front of it, in their order of
preference. -/
def remainders : RegularExpression Char → List Char → List (List Char)
  | .zero, _ => []
  | .epsilon, cs => [cs]
  | .char _, [] => []
  | .char a, c :: cs => if c = a then [cs] else []
  | .plus P Q, cs => remainders P cs ++ remainders Q cs
  | .comp P Q, cs => (remainders P cs).flatMap (remainders Q)
  | .star P, cs => repeated (remainders P) cs

/-- What is left of a text by the preferred match; `none` if there is no match. -/
def preferred? (P : RegularExpression Char) (cs : List Char) : Option (List Char) :=
  (remainders P cs).head?

/-! ### All matches are tried -/

section

variable {f : List Char → List (List Char)} {cs rest : List Char}

theorem mem_repeated :
  rest ∈ repeated f cs
    ↔ rest = cs ∨ ∃ next ∈ f cs, next.length < cs.length ∧ rest ∈ repeated f next
  := by
  rw [repeated, List.mem_append, List.mem_singleton, List.mem_flatMap, or_comm]
  apply or_congr_right
  apply exists_congr
  intro next
  apply and_congr_right
  intro _
  split <;> simp_all

theorem mem_repeated_iff {l : Language Char}
    (h : ∀ cs rest, rest ∈ f cs ↔ ∃ n ∈ l, cs = n ++ rest) :
  rest ∈ repeated f cs ↔ ∃ n ∈ KStar.kstar l, cs = n ++ rest
  := by
  constructor
  · intro hrest
    induction hlength : cs.length using Nat.strong_induction_on generalizing cs with
    | _ length ih =>
      obtain rfl | ⟨next, hnext, hlt, hmore⟩ := mem_repeated.mp hrest
      · exact ⟨[], Language.nil_mem_kstar l, rfl⟩
      · obtain ⟨n, hn, rfl⟩ := (h cs next).mp hnext
        obtain ⟨m, hm, rfl⟩ := ih next.length (hlength ▸ hlt) hmore rfl
        obtain ⟨ns, rfl, hns⟩ := Language.mem_kstar.mp hm
        use (n :: ns).flatten
        constructor
        · apply Language.join_mem_kstar
          apply List.forall_mem_cons.mpr ⟨hn, hns⟩
        · simp
  · rintro ⟨n, hn, rfl⟩
    obtain ⟨ns, rfl, hns⟩ := Language.mem_kstar_iff_exists_nonempty.mp hn
    clear hn
    induction ns with
    | nil => apply mem_repeated.mpr (.inl rfl)
    | cons n ns ih =>
      obtain ⟨⟨hn, hne⟩, hns⟩ := List.forall_mem_cons.mp hns
      apply mem_repeated.mpr
      right
      use ns.flatten ++ rest
      refine ⟨?_, ?_, ih hns⟩
      · apply (h _ _).mpr
        use n, hn
        simp
      · have := List.length_pos_iff.mpr hne
        simp
        omega

end

variable {P Q : RegularExpression Char} {as cs rest rest' : List Char}

theorem mem_matches'_char {a : Char} :
  cs ∈ (RegularExpression.char a).matches' ↔ cs = [a]
  := Iff.rfl

/-- What may be left of a text is what comes after a match. -/
theorem mem_remainders_iff :
  rest ∈ remainders P cs ↔ ∃ n ∈ P.matches', cs = n ++ rest
  := by
  induction P generalizing cs rest with
  | zero => simp [remainders]
  | epsilon => simp [remainders, Language.mem_one, eq_comm]
  | char a =>
    simp only [mem_matches'_char, exists_eq_left, List.singleton_append]
    cases cs with
    | nil => simp [remainders]
    | cons c cs =>
      rw [remainders]
      split <;> simp_all [eq_comm]
  | plus P Q ihP ihQ =>
    rw [remainders, List.mem_append, ihP, ihQ]
    simp [Language.mem_add, or_and_right, exists_or]
  | comp P Q ihP ihQ =>
    rw [remainders, List.mem_flatMap]
    simp only [ihP, ihQ]
    constructor
    · rintro ⟨_, ⟨n, hn, rfl⟩, m, hm, rfl⟩
      use n ++ m, Language.append_mem_mul hn hm
      rw [List.append_assoc]
    · rintro ⟨_, hmul, rfl⟩
      obtain ⟨n, hn, m, hm, rfl⟩ := Language.mem_mul.mp hmul
      use m ++ rest
      exact ⟨⟨n, hn, List.append_assoc n m rest⟩, m, hm, rfl⟩
  | star P ih => apply mem_repeated_iff fun cs rest => ih

/-! ### The preferred match -/

/-- The preferred match is a match. -/
theorem exists_match_of_preferred? (h : preferred? P cs = some rest) :
  ∃ n ∈ P.matches', cs = n ++ rest
  := mem_remainders_iff.mp (List.mem_of_head? h)

/-- The preferred match of a sequence goes on after that of its first expression, if the second
one matches there. -/
theorem preferred?_mul (hP : preferred? P cs = some rest) (hQ : preferred? Q rest = some rest') :
  preferred? (P * Q) cs = some rest'
  := by
  obtain ⟨more, hmore⟩ := List.head?_eq_some_iff.mp hP
  obtain ⟨more', hmore'⟩ := List.head?_eq_some_iff.mp hQ
  change ((remainders P cs).flatMap (remainders Q)).head? = _
  rw [hmore, List.flatMap_cons, hmore']
  rfl

theorem preferred?_mul_of_none (hP : preferred? P cs = none) (Q : RegularExpression Char) :
  preferred? (P * Q) cs = none
  := by
  change ((remainders P cs).flatMap (remainders Q)).head? = _
  rw [List.head?_eq_none_iff.mp hP]
  rfl

/-- A match, or nothing. -/
def optional (P : RegularExpression Char) : RegularExpression Char := P + 1

theorem preferred?_optional (P : RegularExpression Char) (cs : List Char) :
  preferred? (optional P) cs = some ((preferred? P cs).getD cs)
  := by
  change (remainders P cs ++ [cs]).head? = _
  rw [List.head?_append, preferred?]
  cases (remainders P cs).head? <;> rfl

/-- One of the characters. -/
def anyOf (as : List Char) : RegularExpression Char := as.foldr (fun a P => .char a + P) 0

theorem preferred?_char_cons (a c : Char) (cs : List Char) :
  preferred? (.char a) (c :: cs) = if c = a then some cs else none
  := by
  rw [preferred?, remainders]
  split <;> rfl

theorem preferred?_anyOf_nil (as : List Char) :
  preferred? (anyOf as) [] = none
  := by
  induction as with
  | nil => rfl
  | cons a as ih => exact ih

theorem preferred?_anyOf_cons (as : List Char) (c : Char) (cs : List Char) :
  preferred? (anyOf as) (c :: cs) = if c ∈ as then some cs else none
  := by
  induction as with
  | nil => rfl
  | cons a as ih =>
    change (remainders (.char a) (c :: cs) ++ remainders (anyOf as) (c :: cs)).head? = _
    rw [preferred?] at ih
    rw [List.head?_append, ih, ← preferred?, preferred?_char_cons]
    by_cases hc : c = a <;> simp [hc]

/-- The preferred match of a repetition takes off all characters that can be taken off. -/
theorem preferred?_star_anyOf (as cs : List Char) :
  preferred? (.star (anyOf as)) cs = some (cs.dropWhile (· ∈ as))
  := by
  rw [preferred?, remainders]
  induction cs with
  | nil =>
    have hnone := preferred?_anyOf_nil as
    rw [repeated, List.head?_eq_none_iff.mp hnone]
    rfl
  | cons c cs ih =>
    have hfirst := preferred?_anyOf_cons as c cs
    rw [repeated]
    by_cases hc : c ∈ as
    · rw [if_pos hc] at hfirst
      obtain ⟨more, hmore⟩ := List.head?_eq_some_iff.mp hfirst
      rw [hmore, List.flatMap_cons]
      simp [ih, hc]
    · rw [if_neg hc] at hfirst
      rw [List.head?_eq_none_iff.mp hfirst]
      simp [hc]

/-! ### The language of characters and options -/

theorem mem_optional :
  cs ∈ (optional P).matches' ↔ cs ∈ P.matches' ∨ cs = []
  := Iff.rfl

theorem mem_anyOf :
  cs ∈ (anyOf as).matches' ↔ ∃ a ∈ as, cs = [a]
  := by
  induction as with
  | nil => simp [anyOf]
  | cons a as ih =>
    change cs = [a] ∨ cs ∈ (anyOf as).matches' ↔ _
    rw [ih]
    simp

theorem mem_star_anyOf :
  cs ∈ (RegularExpression.star (anyOf as)).matches' ↔ ∀ c ∈ cs, c ∈ as
  := by
  rw [matches'_star, Language.mem_kstar]
  constructor
  · rintro ⟨ns, rfl, hns⟩ c hc
    obtain ⟨n, hn, hc⟩ := List.mem_flatten.mp hc
    obtain ⟨a, ha, rfl⟩ := mem_anyOf.mp (hns n hn)
    obtain rfl := List.mem_singleton.mp hc
    exact ha
  · intro h
    use cs.map ([·])
    constructor
    · rw [← List.flatMap_def, List.flatMap_singleton']
    · intro n hn
      obtain ⟨c, hc, rfl⟩ := List.mem_map.mp hn
      exact mem_anyOf.mpr ⟨c, h c hc, rfl⟩

end EquationLang
