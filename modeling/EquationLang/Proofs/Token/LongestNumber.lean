import EquationLang.Proofs.Text.PreferredMatch
import EquationLang.Proofs.Token.Calls
import Mathlib.Tactic.IntervalCases

/-!
# Numbers are longest matches

The texts of numbers are described by a regular expression, `numberPattern`.  What `splitNumber`
takes off a text is the preferred match of this expression (`preferred?_numberPattern`), and it is
the longest one as well (`isLongestMatch_splitNumber`).  So wherever a lexer comes to a digit or a
point while it looks for a token, it hands out the longest match, and it reads on right behind it
(`Lexer.numbers_are_longest_matches`).
-/

namespace EquationLang

open RegularExpression

/-! ### The expression for numbers -/

/-- Digits: `[0-9]*`. -/
def digitsPattern : RegularExpression Char :=
  .star (anyOf ['0', '1', '2', '3', '4', '5', '6', '7', '8', '9'])

/-- A point and digits: `\.[0-9]*`. -/
def fractionPattern : RegularExpression Char := .char '.' * digitsPattern

/-- The letter of an exponent, a sign that may be missing, and digits: `[eE][-+]?[0-9]*`. -/
def exponentPattern : RegularExpression Char :=
  anyOf ['e', 'E'] * (optional (anyOf ['-', '+']) * digitsPattern)

/-- Digits, a fraction and an exponent, each of which may be missing:
`[0-9]*(\.[0-9]*)?([eE][-+]?[0-9]*)?`. -/
def numberPattern : RegularExpression Char :=
  digitsPattern * (optional fractionPattern * optional exponentPattern)

variable {cs : List Char}

theorem mem_digits_iff {c : Char} :
  c ∈ ['0', '1', '2', '3', '4', '5', '6', '7', '8', '9'] ↔ c.isDigit
  := by
  constructor
  · intro h
    simp only [List.mem_cons, List.not_mem_nil, or_false] at h
    obtain rfl | rfl | rfl | rfl | rfl | rfl | rfl | rfl | rfl | rfl := h <;> rfl
  · intro h
    rw [Char.isDigit, Bool.and_eq_true, decide_eq_true_iff, decide_eq_true_iff] at h
    obtain ⟨hge, hle⟩ : 48 ≤ c.toNat ∧ c.toNat ≤ 57 := h
    rw [← c.ofNat_toNat]
    interval_cases c.toNat <;> decide

/-! ### Matches are numbers -/

theorem mem_digitsPattern :
  cs ∈ digitsPattern.matches' ↔ IsDigits cs
  := by
  rw [digitsPattern, mem_star_anyOf]
  simp only [mem_digits_iff, IsDigits]

theorem mem_optional_fractionPattern :
  cs ∈ (optional fractionPattern).matches' ↔ IsFraction cs
  := by
  rw [mem_optional, IsFraction, or_comm]
  apply or_congr_right
  rw [fractionPattern, matches'_mul, Language.mem_mul]
  simp only [mem_matches'_char, mem_digitsPattern, exists_eq_left, List.singleton_append, eq_comm]

theorem mem_optional_sign :
  cs ∈ (optional (anyOf ['-', '+'])).matches' ↔ IsSign cs
  := by
  rw [mem_optional, mem_anyOf, IsSign, or_comm]
  simp only [List.mem_cons, List.not_mem_nil, or_false, exists_eq_or_imp, exists_eq_left]
  apply or_congr_right or_comm

theorem mem_optional_exponentPattern :
  cs ∈ (optional exponentPattern).matches' ↔ IsExponent cs
  := by
  rw [mem_optional, IsExponent, or_comm]
  apply or_congr_right
  rw [exponentPattern, matches'_mul, Language.mem_mul]
  constructor
  · rintro ⟨letter, hletter, _, hmul, rfl⟩
    obtain ⟨c, hc, rfl⟩ := mem_anyOf.mp hletter
    rw [matches'_mul] at hmul
    obtain ⟨sign, hsign, ds, hds, rfl⟩ := Language.mem_mul.mp hmul
    use c, sign, ds
    exact ⟨by simpa using hc, mem_optional_sign.mp hsign, mem_digitsPattern.mp hds, rfl⟩
  · rintro ⟨c, sign, ds, hc, hsign, hds, rfl⟩
    use [c], mem_anyOf.mpr ⟨c, by simpa using hc, rfl⟩, sign ++ ds
    constructor
    · apply Language.append_mem_mul (mem_optional_sign.mpr hsign) (mem_digitsPattern.mpr hds)
    · rfl

/-- The expression describes the texts that are numbers. -/
theorem mem_numberPattern :
  cs ∈ numberPattern.matches' ↔ IsNumber cs
  := by
  rw [numberPattern, matches'_mul, Language.mem_mul]
  constructor
  · rintro ⟨whole, hwhole, _, hmul, rfl⟩
    rw [matches'_mul] at hmul
    obtain ⟨fraction, hfraction, exponent, hexponent, rfl⟩ := Language.mem_mul.mp hmul
    use whole, fraction, exponent, mem_digitsPattern.mp hwhole,
      mem_optional_fractionPattern.mp hfraction, mem_optional_exponentPattern.mp hexponent
  · rintro ⟨whole, fraction, exponent, hwhole, hfraction, hexponent, rfl⟩
    use whole, mem_digitsPattern.mpr hwhole, fraction ++ exponent
    constructor
    · apply Language.append_mem_mul (mem_optional_fractionPattern.mpr hfraction)
        (mem_optional_exponentPattern.mpr hexponent)
    · rfl

/-! ### The preferred match is the number that is taken off -/

theorem preferred?_digitsPattern (cs : List Char) :
  preferred? digitsPattern cs = some (splitDigits cs).2
  := by
  rw [digitsPattern, preferred?_star_anyOf, splitDigits]
  apply congrArg some
  apply congrArg (List.dropWhile · cs)
  funext c
  apply Bool.eq_iff_iff.mpr
  rw [decide_eq_true_iff, mem_digits_iff]

theorem preferred?_optional_fractionPattern (cs : List Char) :
  preferred? (optional fractionPattern) cs = some (splitFraction cs).2
  := by
  rw [preferred?_optional, fractionPattern, splitFraction.eq_def]
  split
  · next cs =>
    have hpoint : preferred? (.char '.') ('.' :: cs) = some cs := preferred?_char_cons '.' '.' cs
    rw [preferred?_mul hpoint (preferred?_digitsPattern cs)]
    rfl
  · next hne =>
    have hpoint : preferred? (.char '.') cs = none := by
      cases cs with
      | nil => rfl
      | cons c cs =>
        have hc : c ≠ '.' := by
          rintro rfl
          exact hne cs rfl
        rw [preferred?_char_cons, if_neg hc]
    rw [preferred?_mul_of_none hpoint]
    rfl

theorem preferred?_optional_sign (cs : List Char) :
  preferred? (optional (anyOf ['-', '+'])) cs = some (splitSign cs).2
  := by
  rw [preferred?_optional, splitSign.eq_def]
  split
  · rw [preferred?_anyOf_cons]
    rfl
  · rw [preferred?_anyOf_cons]
    rfl
  · next hplus hminus =>
    cases cs with
    | nil => rfl
    | cons c cs =>
      have hc : c ∉ ['-', '+'] := by
        simp only [List.mem_cons, List.not_mem_nil, or_false, not_or]
        constructor
        · rintro rfl
          exact hminus cs rfl
        · rintro rfl
          exact hplus cs rfl
      rw [preferred?_anyOf_cons, if_neg hc]
      rfl

theorem preferred?_optional_exponentPattern (cs : List Char) :
  preferred? (optional exponentPattern) cs = some (splitExponent cs).2
  := by
  rw [preferred?_optional, exponentPattern, splitExponent.eq_def]
  cases cs with
  | nil =>
    rw [preferred?_mul_of_none (preferred?_anyOf_nil _)]
    rfl
  | cons c cs =>
    have hletter := preferred?_anyOf_cons ['e', 'E'] c cs
    have hmem : c ∈ ['e', 'E'] ↔ c = 'e' ∨ c = 'E' := by simp
    by_cases hc : c = 'e' ∨ c = 'E'
    · rw [if_pos (hmem.mpr hc)] at hletter
      have hsign := preferred?_mul (preferred?_optional_sign cs) (preferred?_digitsPattern _)
      rw [preferred?_mul hletter hsign]
      simp only [if_pos hc]
      rfl
    · rw [if_neg (mt hmem.mp hc)] at hletter
      rw [preferred?_mul_of_none hletter]
      simp only [if_neg hc]
      rfl

/-- What is taken off a text as a number is the preferred match of the expression. -/
theorem preferred?_numberPattern (cs : List Char) :
  preferred? numberPattern cs = some (splitNumber cs).2
  := by
  apply preferred?_mul (preferred?_digitsPattern cs)
  apply preferred?_mul (preferred?_optional_fractionPattern _)
  apply preferred?_optional_exponentPattern

/-! ### The longest match -/

/-- `n` is the longest match of the expression at the front of a text, and `rest` follows it. -/
structure IsLongestMatch (P : RegularExpression Char) (cs n rest : List Char) : Prop where
  text_eq : cs = n ++ rest
  mem : n ∈ P.matches'
  longest : ∀ m ∈ P.matches', m <+: cs → m <+: n

/-- What is taken off a text as a number is the longest match of the expression. -/
theorem isLongestMatch_splitNumber (cs : List Char) :
  IsLongestMatch numberPattern cs (splitNumber cs).1 (splitNumber cs).2
  := by
  obtain ⟨n, hn, hcs⟩ := exists_match_of_preferred? (preferred?_numberPattern cs)
  have hsplit : n ++ (splitNumber cs).2 = (splitNumber cs).1 ++ (splitNumber cs).2 := by
    rw [splitNumber_append, ← hcs]
  obtain rfl := List.append_cancel_right hsplit
  constructor
  case text_eq => apply hcs
  case mem => apply hn
  case longest =>
    rintro m hm ⟨rest, rfl⟩
    apply prefix_splitNumber (mem_numberPattern.mp hm)

/-- A text that starts with a digit or a point starts with a number, which is the longest match and
the preferred one, and which the text does not continue. -/
theorem exists_numeral {c : Char} (hc : cs.head? = some c) (hstart : isNumberStart c) :
  ∃ n rest, IsLongestMatch numberPattern cs n rest ∧ preferred? numberPattern cs = some rest
    ∧ IsNumeral n ∧ ∀ d ∈ rest.head?, ¬ IsNumber (n ++ [d])
  := by
  obtain ⟨ds, rfl⟩ := List.head?_eq_some_iff.mp hc
  use (splitNumber (c :: ds)).1, (splitNumber (c :: ds)).2
  obtain ⟨-, -, hstop⟩ := splitNumber_eq_iff.mp (Prod.eta (splitNumber (c :: ds))).symm
  exact ⟨isLongestMatch_splitNumber _, preferred?_numberPattern _,
    Piece.isNumeral_splitNumber hstart ds, hstop⟩

/-- A character that numbers are not made of does not continue one. -/
theorem not_isNumber_concat {c : Char} (h : isNumberPart c = false) (n : List Char) :
  ¬ IsNumber (n ++ [c])
  := by
  intro hnumber
  have hpart := hnumber.isNumberPart List.mem_concat_self
  rw [h] at hpart
  cases hpart

/-! ### Reading numbers -/

namespace Lexer

/-- The lexer looks for the next token where it stands in the text: no token is pending after the
calls made before, and the pieces passed since the next one has been asked for have none. -/
inductive ReadsAt (text : String) : Lexer → Prop where
  | call (calls : List Call) (starved : ((ofText text).after calls).starved) :
      ReadsAt text ((ofText text).after calls)
  | step {l : Lexer} (h : ReadsAt text l) (starved : l.step.starved) : ReadsAt text l.step

variable {text : String} {l : Lexer}

theorem ReadsAt.starved (h : l.ReadsAt text) :
  l.starved
  := by
  cases h with
  | call calls starved => exact starved
  | step h starved => exact starved

theorem ReadsAt.exists_follows (h : l.ReadsAt text) :
  ∃ given, l.Follows text given
  := by
  induction h with
  | call calls starved => exact ⟨_, (follows_ofText text).after calls⟩
  | step h starved ih =>
    obtain ⟨given, hfollows⟩ := ih
    exact ⟨given, hfollows.step h.starved⟩

/-- What has not been read is the part of the text from the offset on. -/
theorem ReadsAt.exists_before (h : l.ReadsAt text) :
  ∃ before, text.toList = before ++ l.rest ∧ byteLength before = l.offset
  := by
  obtain ⟨given, hfollows⟩ := h.exists_follows
  obtain ⟨before, htext, hbefore, -⟩ := hfollows.placed.lines
  rw [hfollows.text_eq] at htext
  exact ⟨before, htext, hbefore⟩

theorem scan_of_starved (starved : l.starved) :
  l.scan = l.step.scan
  := by
  rw [scan, if_pos starved]

/-- Where the lexer looks for a token that is asked for, it will look for the one after it. -/
theorem ReadsAt.next (h : l.ReadsAt text) (starved : l.next.2.starved) :
  l.next.2.ReadsAt text
  := by
  suffices hcalls : ∃ calls, l.next.2 = (ofText text).after (calls ++ [.next]) by
    obtain ⟨calls, hcalls⟩ := hcalls
    rw [hcalls] at starved ⊢
    apply ReadsAt.call _ starved
  clear starved
  induction h with
  | call calls starved =>
    use calls
    rw [after_append]
    rfl
  | @step l h starved ih =>
    have hnext : l.step.next = l.next := by rw [Lexer.next, Lexer.next, scan_of_starved h.starved]
    rw [hnext]
    exact ih

/-- Where a piece with tokens stands, its first token is the next one. -/
theorem next_of_front? {p : Piece} {rest : List Char} {t : Token} {ts : List Token}
    (starved : l.starved) (found : Piece.front? l.rest = some (p, rest)) (sound : p.fault? = none)
    (htokens : p.tokens l.offset l.canEnd rest = t :: ts) :
  l.next = (t, { l.pass p rest with pending := ts })
  := by
  have hstep : l.step = l.pass p rest := by
    rw [step, found]
    simp only [sound]
  have hpending : (l.pass p rest).pending = t :: ts := by
    have empty : l.pending = [] := by
      rw [Lexer.starved, Bool.and_eq_true, List.isEmpty_iff] at starved
      exact starved.1
    rw [pass, empty, htokens]
    rfl
  have hscan : l.scan = l.pass p rest := by
    rw [scan_of_starved starved, hstep, scan_of_fed]
    rw [Lexer.starved, hpending]
    rfl
  rw [next, hscan, hpending]
  rfl

/-- A number that is not continued is the next token. -/
theorem next_of_isNumeral {n rest : List Char} (starved : l.starved) (hn : IsNumeral n)
    (hrest : l.rest = n ++ rest) (hstop : ∀ c ∈ rest.head?, ¬ IsNumber (n ++ [c])) :
  l.next = (⟨.num, l.offset, String.ofList n⟩, { l.pass (.lexeme .num n) rest with pending := [] })
  := by
  apply next_of_front? starved
  · rw [hrest]
    apply Piece.front?_of_isNumeral hn hstop
  · rfl
  · rfl

/-- Wherever a lexer looks for a token and comes to a digit or a point, the next token is a number.
Its text is the preferred match of `numberPattern`, which is also the longest one, and is not
empty.  The token after it is looked for right behind it.  The same text is read as a number again
wherever it is followed by no character that numbers are made of. -/
theorem numbers_are_longest_matches (h : l.ReadsAt text) {c : Char} (hc : l.rest.head? = some c)
    (hstart : isNumberStart c) :
  ∃ n rest, dropBytes? l.offset text.toList = some l.rest
    ∧ IsLongestMatch numberPattern l.rest n rest
    ∧ preferred? numberPattern l.rest = some rest
    ∧ 0 < byteLength n
    ∧ l.next.1 = ⟨.num, l.offset, String.ofList n⟩
    ∧ slice? text.toList l.offset (l.offset + byteLength n) = some n
    ∧ l.next.2.ReadsAt text
    ∧ l.next.2.offset = l.offset + byteLength n
    ∧ l.next.2.rest = rest
    ∧ dropBytes? (l.offset + byteLength n) text.toList = some rest
    ∧ ∀ (l' : Lexer) (behind : List Char), l'.starved → l'.rest = n ++ behind →
      (∀ d ∈ behind.head?, isNumberPart d = false) →
      l'.next.1 = ⟨.num, l'.offset, String.ofList n⟩ ∧ l'.next.2.rest = behind
  := by
  obtain ⟨n, rest, hmatch, hpreferred, hnumeral, hstop⟩ := exists_numeral hc hstart
  have hne : n ≠ [] := IsLexeme.ne_nil (show IsLexeme .num n from hnumeral)
  have hnext := next_of_isNumeral h.starved hnumeral hmatch.text_eq hstop
  obtain ⟨before, htext, hbefore⟩ := h.exists_before
  use n, rest
  rw [htext, ← hbefore]
  refine ⟨dropBytes?_append _ _, hmatch, hpreferred, byteLength_pos hne, ?_, ?_, ?_, ?_, ?_, ?_, ?_⟩
  · rw [hnext, hbefore]
  · rw [hmatch.text_eq]
    apply slice?_append
  · apply h.next
    have reading := h.starved
    rw [Lexer.starved, Bool.and_eq_true] at reading
    rw [hnext]
    apply reading.2
  · rw [hnext, hbefore]
    rfl
  · rw [hnext]
    rfl
  · rw [hmatch.text_eq, ← byteLength_append, ← List.append_assoc]
    apply dropBytes?_append
  · intro l' behind starved' hrest' hbehind
    have hagain := next_of_isNumeral starved' hnumeral hrest' fun d hd =>
      not_isNumber_concat (hbehind d hd) n
    rw [hagain]
    exact ⟨rfl, rfl⟩

/-- An exponent without digits, before a letter. -/
theorem numbers_are_longest_matches_before_letter :
  IsLongestMatch numberPattern "1e+x".toList "1e+".toList "x".toList
    ∧ ((ofText "é 1e+x").after [.next]).step.next.1 = ⟨.num, 3, "1e+"⟩
  := by
  have hreads : ((ofText "é 1e+x").after [.next]).step.ReadsAt "é 1e+x" := by
    apply ReadsAt.step
    · apply ReadsAt.call [.next]
      decide +kernel
    · decide +kernel
  have hrest : ((ofText "é 1e+x").after [.next]).step.rest = "1e+x".toList := by decide +kernel
  obtain ⟨n, rest, -, hmatch, -, -, hnext, -⟩ :=
    numbers_are_longest_matches hreads (c := '1') (by rw [hrest]; rfl) (by decide)
  have htoken : ((ofText "é 1e+x").after [.next]).step.next.1 = ⟨.num, 3, "1e+"⟩ := by
    decide +kernel
  rw [hnext, Token.mk.injEq] at htoken
  obtain ⟨-, hoffset, htext⟩ := htoken
  obtain rfl : n = "1e+".toList := by rw [← htext, String.toList_ofList]
  obtain rfl : rest = "x".toList := by
    have hwhole : "1e+".toList ++ rest = "1e+".toList ++ "x".toList := by
      rw [← hmatch.text_eq, hrest]
      decide
    apply List.append_cancel_left hwhole
  rw [hrest] at hmatch
  rw [hnext, hoffset]
  exact ⟨hmatch, rfl⟩

end Lexer

end EquationLang
