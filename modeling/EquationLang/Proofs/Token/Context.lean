import EquationLang.Proofs.Token.PieceShape

/-!
# What a place of a text lies in

Whether a place of a text lies in a string literal, a comment, a name or a number is told by the
characters before it, taken one by one (`Context.after`).  This decides which characters are faults
(`Context.IsFault`): a control character in a comment is none, and a quote in a name starts no
literal.  Pieces that are no faults have none in them, and nothing that begins in one of them goes
on after it (`Context.isClear_source`).
-/

namespace EquationLang

theorem isNumber_iff {cs : List Char} :
  IsNumber cs ↔ (splitNumber cs).2 = []
  := by
  constructor
  · intro h
    rw [splitNumber_eq_iff.mpr ⟨(List.append_nil cs).symm, h, fun c hc => nomatch hc⟩]
  · intro h
    have hwhole := splitNumber_append cs
    rw [h, List.append_nil] at hwhole
    rw [← hwhole]
    apply isNumber_splitNumber

instance : DecidablePred IsNumber := fun _ => decidable_of_iff' _ isNumber_iff

theorem isControl_eq_false_of_isNumberPart {c : Char} (h : isNumberPart c) :
  isControl c = false
  := by
  rw [isNumberPart, Bool.or_eq_true, decide_eq_true_iff] at h
  obtain h | h := h
  · have hstart : isNumberStart c := by simp [isNumberStart, h]
    have := isNumberStart_bounds hstart
    simp only [isControl, Bool.or_eq_false_iff, Bool.and_eq_false_iff, decide_eq_false_iff_not]
    omega
  · simp only [List.mem_cons, List.not_mem_nil, or_false] at h
    obtain rfl | rfl | rfl | rfl | rfl := h <;> decide

/-- What has begun before a place of a text and has not ended there. -/
inductive Context where
  | between
  /-- A slash, which may turn out to be the first one of a comment. -/
  | slash
  | comment
  | string
  | name
  /-- A number, of which the `text` is known. -/
  | number (text : List Char)
deriving DecidableEq

namespace Context

/-- What begins with `c`. -/
def starting (c : Char) : Context :=
  if c = '"' then string
  else if c = '/' then slash
  else if isNumberStart c then number [c]
  else if isIdentStart c then name
  else between

/-- The context after the character `c`. -/
def next (k : Context) (c : Char) : Context :=
  match k with
  | between => starting c
  | slash => if c = '/' then comment else starting c
  | comment => if c = '\n' then between else comment
  | string => if c = '"' then between else string
  | name => if isIdentContinue c then name else starting c
  | number text => if IsNumber (text ++ [c]) then number (text ++ [c]) else starting c

/-- The context after the characters `cs`. -/
def after (k : Context) (cs : List Char) : Context := cs.foldl next k

/-- In the context, the character `c` before the text `behind` is a fault. -/
inductive IsFault (k : Context) (c : Char) (behind : List Char) : Diagnostic.Code → Prop where
  /-- A control character that is not blank, outside of strings and comments. -/
  | unrecognized (hcontrol : isControl c) (hblank : isBlank c = false) (hstring : k ≠ string)
      (hcomment : k ≠ comment) : IsFault k c behind .unrecognizedChar
  /-- A quote that starts a string literal, if there is no other one to end it. -/
  | unclosed (hquote : c = '"') (hstring : k ≠ string) (hcomment : k ≠ comment)
      (hname : k ≠ name) (hbehind : '"' ∉ behind) : IsFault k c behind .unclosedStringLiteral

variable {k : Context} {c : Char} {cs rest : List Char}

theorem after_append (k : Context) (cs ds : List Char) :
  k.after (cs ++ ds) = (k.after cs).after ds
  := List.foldl_append

/-- A fault is of one sort only. -/
theorem IsFault.code_unique {behind : List Char} {code code' : Diagnostic.Code}
    (h : k.IsFault c behind code) (h' : k.IsFault c behind code') :
  code = code'
  := by
  cases h with
  | unrecognized hcontrol =>
    cases h' with
    | unrecognized => rfl
    | unclosed hquote =>
      rw [hquote] at hcontrol
      cases hcontrol
  | unclosed hquote =>
    cases h' with
    | unrecognized hcontrol =>
      rw [hquote] at hcontrol
      cases hcontrol
    | unclosed => rfl

theorem not_isFault_of_ne (hcontrol : isControl c → isBlank c) (hquote : c ≠ '"')
    (behind : List Char) (code : Diagnostic.Code) :
  ¬ k.IsFault c behind code
  := by
  rintro (⟨hc, hblank, -, -⟩ | ⟨hc, -, -, -, -⟩)
  · rw [hcontrol hc] at hblank
    cases hblank
  · exact hquote hc

/-- Strings and comments have no faults in them. -/
theorem not_isFault_inside (h : k = string ∨ k = comment) (c : Char) (behind : List Char)
    (code : Diagnostic.Code) :
  ¬ k.IsFault c behind code
  := by
  rintro (⟨-, -, hstring, hcomment⟩ | ⟨-, hstring, hcomment, -, -⟩) <;>
  · obtain rfl | rfl := h
    · exact hstring rfl
    · exact hcomment rfl

/-! ### What begins with a character -/

theorem starting_of_isNumberStart (h : isNumberStart c) :
  starting c = number [c]
  := by
  have hquote : c ≠ '"' := by
    rintro rfl
    cases h
  have hslash : c ≠ '/' := by
    rintro rfl
    cases h
  rw [starting, if_neg hquote, if_neg hslash, if_pos h]

theorem starting_of_isIdentStart (h : isIdentStart c) (hpoint : c ≠ '.') :
  starting c = name
  := by
  have hslash : c ≠ '/' := by
    rintro rfl
    cases h
  have hnumber : ¬ isNumberStart c :=
    Bool.eq_false_iff.mp (isNumberStart_eq_false_of_isIdentStart h hpoint)
  rw [starting, if_neg (isIdentStart_iff.mp h).2.2, if_neg hslash, if_neg hnumber, if_pos h]

theorem starting_of_isBlank (h : isBlank c) :
  starting c = between
  := by
  have hquote : c ≠ '"' := by
    rintro rfl
    cases h
  have hslash : c ≠ '/' := by
    rintro rfl
    cases h
  have hnumber : ¬ isNumberStart c := by
    intro hnumber
    rw [isBlank_eq_false_of_isNumberStart hnumber] at h
    cases h
  have hident : ¬ isIdentStart c := by
    intro hident
    rw [(isIdentContinue_iff.mp (isIdentStart_iff.mp hident).1).1] at h
    cases h
  rw [starting, if_neg hquote, if_neg hslash, if_neg hnumber, if_neg hident]

theorem starting_of_punctuation? {kind : Token.Kind} (h : punctuation? c = some kind)
    (hslash : c ≠ '/') :
  starting c = between
  := by
  have hnumber : ¬ isNumberStart c :=
    Bool.eq_false_iff.mp (isNumberStart_eq_false_of_punctuation? h)
  have hident : ¬ isIdentStart c := by
    intro hident
    rw [(isIdentContinue_iff.mp (isIdentStart_iff.mp hident).1).2.2.1] at h
    cases h
  rw [starting, if_neg (ne_quote_of_punctuation? h), if_neg hslash, if_neg hnumber, if_neg hident]

/-! ### Texts without a fault -/

/-- None of the characters `cs` is a fault, where `rest` follows them and the context is that before
the first one. -/
def IsClear (rest : List Char) : Context → List Char → Prop
  | _, [] => True
  | k, c :: cs => (∀ code, ¬ k.IsFault c (cs ++ rest) code) ∧ IsClear rest (k.next c) cs

theorem isClear_append {cs ds : List Char} :
  IsClear rest k (cs ++ ds) ↔ IsClear (ds ++ rest) k cs ∧ IsClear rest (k.after cs) ds
  := by
  induction cs generalizing k with
  | nil => exact (iff_of_eq (true_and _)).symm
  | cons c cs ih => rw [List.cons_append, IsClear, IsClear, ih, List.append_assoc, and_assoc]; rfl

/-- What has begun does not go on with the character `next`, or with the end of the text if there is
none. -/
def IsOver (k : Context) (next : Option Char) : Prop :=
  match k with
  | between => True
  | slash => next ≠ some '/'
  | comment => ∀ c ∈ next, c = '\n'
  | string => False
  | name => ∀ c ∈ next, ¬ isIdentContinue c
  | number text => ∀ c ∈ next, ¬ IsNumber (text ++ [c])

theorem next_of_isOver (h : k.IsOver (some c)) :
  k.next c = starting c
  := by
  cases k with
  | between => rfl
  | slash =>
    have hslash : c ≠ '/' := fun hc => h (congrArg some hc)
    rw [next, if_neg hslash]
  | comment =>
    obtain rfl := h c rfl
    rfl
  | string => exact h.elim
  | name => rw [next, if_neg (h c rfl)]
  | number text => rw [next, if_neg (h c rfl)]

/-- Where nothing goes on, the context is told by what begins there. -/
theorem isClear_of_starting (hk : k.IsOver (some c))
    (hfault : ∀ code, ¬ k.IsFault c (cs ++ rest) code)
    (h : IsClear rest (starting c) cs ∧ ((starting c).after cs).IsOver rest.head?) :
  IsClear rest k (c :: cs) ∧ (k.after (c :: cs)).IsOver rest.head?
  := by
  rw [IsClear, after, List.foldl_cons, next_of_isOver hk]
  exact ⟨⟨hfault, h.1⟩, h.2⟩

/-- Characters that leave a context as it is and are no faults in it. -/
theorem isClear_of_stays (hstays : ∀ c ∈ cs, k.next c = k)
    (hfault : ∀ c ∈ cs, ∀ behind code, ¬ k.IsFault c behind code) (rest : List Char) :
  IsClear rest k cs ∧ k.after cs = k
  := by
  induction cs with
  | nil => exact ⟨trivial, rfl⟩
  | cons c cs ih =>
    obtain ⟨hc, hcs⟩ := List.forall_mem_cons.mp hstays
    obtain ⟨hfault, hfaults⟩ := List.forall_mem_cons.mp hfault
    rw [IsClear, after, List.foldl_cons, hc]
    obtain ⟨hclear, hafter⟩ := ih hcs hfaults
    exact ⟨⟨fun code => hfault _ code, hclear⟩, hafter⟩

/-- There is no fault in a number. -/
theorem isClear_number {text : List Char} (h : IsNumber (text ++ cs)) (rest : List Char) :
  IsClear rest (number text) cs ∧ (number text).after cs = number (text ++ cs)
  := by
  induction cs generalizing text with
  | nil =>
    rw [List.append_nil]
    exact ⟨trivial, rfl⟩
  | cons c cs ih =>
    have hpart := h.isNumberPart (c := c) (by simp)
    rw [List.append_cons] at h ⊢
    obtain ⟨hclear, hafter⟩ := ih h
    rw [IsClear, after, List.foldl_cons, next, if_pos h.of_append]
    refine ⟨⟨?_, hclear⟩, hafter⟩
    apply not_isFault_of_ne
    · intro hcontrol
      rw [isControl_eq_false_of_isNumberPart hpart] at hcontrol
      cases hcontrol
    · rintro rfl
      cases hpart

/-- There is no fault in a name. -/
theorem isClear_name (h : ∀ c ∈ cs, isIdentContinue c) (rest : List Char) :
  IsClear rest name cs ∧ name.after cs = name
  := by
  apply isClear_of_stays
  · intro c hc
    rw [next, if_pos (h c hc)]
  · rintro c hc behind code (⟨hcontrol, -, -, -⟩ | ⟨-, -, -, hname, -⟩)
    · rw [(isIdentContinue_iff.mp (h c hc)).2.1] at hcontrol
      cases hcontrol
    · exact hname rfl

/-- There is no fault in the text of a token that is written as it is. -/
theorem isClear_lexeme {kind : Token.Kind} {text : List Char} (h : IsLexeme kind text)
    (hstop : (Piece.lexeme kind text).StopsBefore rest.head?)
    (hk : k.IsOver (text ++ rest).head?) :
  IsClear rest k text ∧ (k.after text).IsOver rest.head?
  := by
  have hmark {c : Char} (hc : punctuation? c = some kind) (hk : k.IsOver (some c))
      (hslash : c = '/' → rest.head? ≠ some '/') :
      IsClear rest k [c] ∧ (k.after [c]).IsOver rest.head? := by
    apply isClear_of_starting hk
    · apply not_isFault_of_ne
      · intro hcontrol
        by_contra hblank
        rw [(class_of_isControl hcontrol (Bool.eq_false_iff.mpr hblank)).2.2.2.1] at hc
        cases hc
      · apply ne_quote_of_punctuation? hc
    · use trivial
      by_cases hc' : c = '/'
      · subst hc'
        exact hslash rfl
      · rw [starting_of_punctuation? hc hc']
        trivial
  cases kind with
  | eof | str => cases h
  | semi =>
    obtain rfl := h
    apply isClear_of_starting hk
    · apply not_isFault_of_ne <;> decide
    · exact ⟨trivial, trivial⟩
  | num =>
    obtain ⟨⟨c, hhead, hc⟩, hnumber⟩ := h
    obtain ⟨cs, rfl⟩ := List.head?_eq_some_iff.mp hhead
    obtain ⟨hclear, hafter⟩ := isClear_number (show IsNumber ([c] ++ cs) from hnumber) rest
    apply isClear_of_starting hk
    · apply not_isFault_of_ne
      · intro hcontrol
        rw [isControl_eq_false_of_isNumberPart (hnumber.isNumberPart List.mem_cons_self)]
          at hcontrol
        cases hcontrol
      · rintro rfl
        cases hc
    · rw [starting_of_isNumberStart hc, hafter]
      exact ⟨hclear, hstop⟩
  | ident =>
    obtain ⟨⟨c, hhead, hc, hpoint⟩, hall⟩ := h
    obtain ⟨cs, rfl⟩ := List.head?_eq_some_iff.mp hhead
    obtain ⟨hcontinue, hall⟩ := List.forall_mem_cons.mp hall
    obtain ⟨hclear, hafter⟩ := isClear_name hall rest
    apply isClear_of_starting hk
    · apply not_isFault_of_ne
      · intro hcontrol
        rw [(isIdentContinue_iff.mp hcontinue).2.1] at hcontrol
        cases hcontrol
      · apply (isIdentStart_iff.mp hc).2.2
    · rw [starting_of_isIdentStart hc hpoint, hafter]
      exact ⟨hclear, hstop⟩
  | operator =>
    obtain ⟨c, rfl, hc⟩ := h
    apply hmark hc hk
    rintro rfl
    exact hstop rfl
  | lbrace | rbrace | lparen | rparen | lbracket | rbracket =>
    obtain ⟨c, rfl, hc⟩ := h
    apply hmark hc hk
    rintro rfl
    cases hc

/-- There is no fault in a comment. -/
theorem isClear_comment {body : List Char} (h : '\n' ∉ body) (hstop : comment.IsOver rest.head?)
    (hk : k.IsOver (some '/')) :
  IsClear rest k ('/' :: '/' :: body) ∧ (k.after ('/' :: '/' :: body)).IsOver rest.head?
  := by
  have hbody : ∀ c ∈ body, comment.next c = comment := by
    intro c hc
    have hbreak : c ≠ '\n' := by
      rintro rfl
      exact h hc
    rw [next, if_neg hbreak]
  obtain ⟨hclear, hafter⟩ :=
    isClear_of_stays hbody (fun c _ => not_isFault_inside (.inr rfl) c) rest
  apply isClear_of_starting hk
  · apply not_isFault_of_ne <;> decide
  constructor
  · refine ⟨?_, hclear⟩
    apply not_isFault_of_ne <;> decide
  · rwa [← hafter] at hstop

/-- There is no fault in a text between quotes. -/
theorem isClear_quoted {body : List Char} (h : '"' ∉ body) (rest : List Char)
    (hk : k.IsOver (some '"')) :
  IsClear rest k ('"' :: (body ++ ['"'])) ∧ (k.after ('"' :: (body ++ ['"']))).IsOver rest.head?
  := by
  have hbody : ∀ c ∈ body, string.next c = string := by
    intro c hc
    have hquote : c ≠ '"' := by
      rintro rfl
      exact h hc
    rw [next, if_neg hquote]
  obtain ⟨hclear, hafter⟩ :=
    isClear_of_stays hbody (fun c _ => not_isFault_inside (.inl rfl) c) (['"'] ++ rest)
  apply isClear_of_starting hk
  · rintro code (⟨hcontrol, -, -, -⟩ | ⟨-, -, -, -, hbehind⟩)
    · cases hcontrol
    · simp at hbehind
  rw [show starting '"' = string from rfl, isClear_append, after_append, hafter]
  exact ⟨⟨hclear, ⟨fun code => not_isFault_inside (.inl rfl) _ _ code, trivial⟩⟩, trivial⟩

/-! ### Pieces -/

/-- There is no fault in a piece that is none itself, and what begins in the piece ends there. -/
theorem isClear_source {p : Piece} (h : p.WellFormed) (sound : p.fault? = none)
    (hstop : p.StopsBefore rest.head?) (hk : k.IsOver (p.source ++ rest).head?) :
  IsClear rest k p.source ∧ (k.after p.source).IsOver rest.head?
  := by
  cases p with
  | blank c =>
    apply isClear_of_starting hk
    · apply not_isFault_of_ne (fun _ => h)
      rintro rfl
      cases h
    · rw [starting_of_isBlank h]
      exact ⟨trivial, trivial⟩
  | comment body => apply isClear_comment h hstop hk
  | lexeme kind text => apply isClear_lexeme h hstop hk
  | quoted body => apply isClear_quoted h rest hk
  | unrecognized | unclosed => cases sound

end Context

end EquationLang
