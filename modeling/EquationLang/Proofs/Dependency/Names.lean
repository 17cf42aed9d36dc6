import EquationLang.Proofs.Grammar.Acceptance
import EquationLang.Proofs.Dependency.References

/-!
# Names and references to them

The name of a variable is made of words with blanks and escaped line breaks between them, and an
equation refers to the variable by the words with underscores or escaped line breaks between them.
`Joined` is the common shape of both.  The canonical form of such a text has one underscore between
the words, whatever was between them (`Joined.underscoreRuns_eq`), so that the reference is matched
to the variable (`reference_matches_name`).
-/

namespace EquationLang

/-! ### Words and what is between them -/

/-- The text is a line break written as an escape. -/
def IsEscape (unit : List Char) : Prop := unit = ['\\', 'n'] ∨ unit = ['\\', 'r']

/-- The text is a blank. -/
def IsBlankUnit (unit : List Char) : Prop := ∃ c, unit = [c] ∧ isBlank c

/-- The text is a sequence of such units, and not the empty one. -/
def IsRunOf (IsUnit : List Char → Prop) (cs : List Char) : Prop :=
  ∃ units : List (List Char), units ≠ [] ∧ cs = units.flatten ∧ ∀ unit ∈ units, IsUnit unit

/-- The text can stand between the words of a name: a run of blanks and escaped line breaks. -/
def IsRun (cs : List Char) : Prop := IsRunOf (fun unit => IsEscape unit ∨ IsBlankUnit unit) cs

/-- The text can stand between the words of a reference: an underscore, or a run of escaped line
breaks. -/
def IsJoint (cs : List Char) : Prop := cs = ['_'] ∨ IsRunOf IsEscape cs

/-- The text is a word of a name: not empty, of characters that identifiers go on with, and without
an escaped line break. -/
structure IsWord (w : List Char) : Prop where
  ne_nil : w ≠ []
  isIdentContinue : ∀ c ∈ w, isIdentContinue c
  not_escape : ∀ unit, IsEscape unit → ¬ unit <:+: w

/-- The text is made of the words in their order, with separators between them. -/
inductive Joined (IsSeparator : List Char → Prop) : List (List Char) → List Char → Prop where
  | word (w : List Char) : Joined IsSeparator [w] w
  | join (w : List Char) {w' sep cs : List Char} {ws : List (List Char)} (hsep : IsSeparator sep)
      (more : Joined IsSeparator (w' :: ws) cs) :
    Joined IsSeparator (w :: w' :: ws) (w ++ (sep ++ cs))

/-! ### The units of a name -/

/-- A character that does not begin an escaped line break is a unit of its own. -/
theorem nameUnits_cons {c : Char} {cs : List Char}
    (h : c = '\\' → cs.head? ≠ some 'n' ∧ cs.head? ≠ some 'r') :
  nameUnits (c :: cs) = (if isBlank c then none else some c) :: nameUnits cs
  := by
  rw [nameUnits.eq_def]
  split
  · contradiction
  · next heq =>
    obtain ⟨rfl, rfl⟩ := List.cons.inj heq
    exact absurd rfl (h rfl).1
  · next heq =>
    obtain ⟨rfl, rfl⟩ := List.cons.inj heq
    exact absurd rfl (h rfl).2
  · next heq =>
    obtain ⟨rfl, rfl⟩ := List.cons.inj heq
    rfl

/-- The characters of a word are units of the name. -/
theorem nameUnits_word_append {w rest : List Char} (hcontinue : ∀ c ∈ w, isIdentContinue c)
    (hescape : ∀ unit, IsEscape unit → ¬ unit <:+: w)
    (hrest : rest.head? ≠ some 'n' ∧ rest.head? ≠ some 'r') :
  nameUnits (w ++ rest) = w.map some ++ nameUnits rest
  := by
  induction w with
  | nil => rfl
  | cons c w ih =>
    have hnext : c = '\\' → (w ++ rest).head? ≠ some 'n' ∧ (w ++ rest).head? ≠ some 'r' := by
      rintro rfl
      cases w with
      | nil => exact hrest
      | cons d w =>
        constructor
        · intro hd
          obtain rfl := Option.some.inj hd
          apply hescape _ (.inl rfl) ⟨[], w, rfl⟩
        · intro hd
          obtain rfl := Option.some.inj hd
          apply hescape _ (.inr rfl) ⟨[], w, rfl⟩
    have hblank : isBlank c = false := (isIdentContinue_iff.mp (hcontinue c List.mem_cons_self)).1
    rw [List.cons_append, nameUnits_cons hnext, ih, hblank]
    · rfl
    · intro d hd
      apply hcontinue d (List.mem_cons_of_mem c hd)
    · intro unit hunit hinfix
      apply hescape unit hunit (List.infix_cons hinfix)

/-- Each blank and each escaped line break of a run stands for a blank. -/
theorem nameUnits_run_append {units : List (List Char)}
    (h : ∀ unit ∈ units, IsEscape unit ∨ IsBlankUnit unit) (rest : List Char) :
  nameUnits (units.flatten ++ rest) = List.replicate units.length none ++ nameUnits rest
  := by
  induction units with
  | nil => rfl
  | cons unit units ih =>
    obtain ⟨hunit, hunits⟩ := List.forall_mem_cons.mp h
    rw [List.flatten_cons, List.append_assoc, List.length_cons, List.replicate_succ,
      List.cons_append, ← ih hunits]
    obtain (rfl | rfl) | ⟨c, rfl, hc⟩ := hunit
    · rfl
    · rfl
    · have hbackslash : c ≠ '\\' := by
        rintro rfl
        cases hc
      rw [List.singleton_append, nameUnits_cons (absurd · hbackslash), if_pos hc]

theorem underscoreRuns_word_append {w : List Char} (h : w ≠ []) (inRun : Bool)
    (units : List (Option Char)) :
  underscoreRuns inRun (w.map some ++ units) = w ++ underscoreRuns false units
  := by
  induction w generalizing inRun with
  | nil => contradiction
  | cons c w ih =>
    cases w with
    | nil => rfl
    | cons d w => rw [List.map_cons, List.cons_append, underscoreRuns, ih (by simp)]; rfl

/-- A run of blanks becomes one underscore. -/
theorem underscoreRuns_replicate_append (n : Nat) (units : List (Option Char)) :
  underscoreRuns true (List.replicate n none ++ units) = underscoreRuns true units
    ∧ underscoreRuns false (List.replicate (n + 1) none ++ units) = '_' :: underscoreRuns true units
  := by
  have hrun : underscoreRuns true (List.replicate n none ++ units) = underscoreRuns true units := by
    induction n with
    | zero => rfl
    | succ n ih =>
      rw [List.replicate_succ, List.cons_append, underscoreRuns, if_pos rfl, ih]
  use hrun
  rw [List.replicate_succ, List.cons_append, underscoreRuns, hrun]
  rfl

/-! ### Joined words -/

/-- The text can stand between two words of a name or of a reference. -/
def IsSeparator (cs : List Char) : Prop := cs = ['_'] ∨ IsRun cs

theorem IsJoint.isSeparator {cs : List Char} (h : IsJoint cs) :
  IsSeparator cs
  := by
  obtain rfl | ⟨units, hne, hcs, hunits⟩ := h
  · exact .inl rfl
  · exact .inr ⟨units, hne, hcs, fun unit hunit => .inl (hunits unit hunit)⟩

/-- A separator does not make an escaped line break of a backslash before it. -/
theorem IsSeparator.head?_ne {sep : List Char} (h : IsSeparator sep) (rest : List Char) :
  (sep ++ rest).head? ≠ some 'n' ∧ (sep ++ rest).head? ≠ some 'r'
  := by
  obtain rfl | ⟨units, hne, rfl, hunits⟩ := h
  · simp
  · obtain ⟨unit, units, rfl⟩ := List.exists_cons_of_ne_nil hne
    obtain (rfl | rfl) | ⟨c, rfl, hc⟩ := hunits unit List.mem_cons_self
    · simp
    · simp
    · constructor <;>
      · intro hhead
        obtain rfl := Option.some.inj hhead
        cases hc

/-- A separator becomes one underscore, which is a run of blanks or a character of the name. -/
theorem IsSeparator.exists_underscoreRuns {sep : List Char} (h : IsSeparator sep)
    (rest : List Char) :
  ∃ inRun, underscoreRuns false (nameUnits (sep ++ rest))
    = '_' :: underscoreRuns inRun (nameUnits rest)
  := by
  obtain rfl | ⟨units, hne, rfl, hunits⟩ := h
  · use false
    rw [List.singleton_append, nameUnits_cons (by simp)]
    rfl
  · obtain ⟨n, hn⟩ := Nat.exists_eq_succ_of_ne_zero (mt List.length_eq_zero_iff.mp hne)
    use true
    rw [nameUnits_run_append hunits, hn]
    apply (underscoreRuns_replicate_append n _).2

/-! ### Joined words -/

namespace Joined

variable {P Q : List Char → Prop} {ws : List (List Char)} {cs : List Char}

theorem imp (h : Joined P ws cs) (himp : ∀ sep, P sep → Q sep) :
  Joined Q ws cs
  := by
  induction h with
  | word w => exact .word w
  | join w hsep _ ih => exact .join w (himp _ hsep) ih

/-- The text begins with the first word. -/
theorem exists_first (h : Joined P ws cs) :
  ∃ w rest, ws.head? = some w ∧ cs = w ++ rest
  := by
  cases h with
  | word => exact ⟨cs, [], rfl, (List.append_nil cs).symm⟩
  | join w => exact ⟨w, _, rfl, rfl⟩

/-- The text ends with the last word. -/
theorem exists_last (h : Joined P ws cs) :
  ∃ w ∈ ws, ∃ before, cs = before ++ w
  := by
  induction h with
  | word w => exact ⟨w, List.mem_cons_self, [], rfl⟩
  | join w hsep more ih =>
    next w' sep cs ws =>
    obtain ⟨last, hlast, before, rfl⟩ := ih
    exact ⟨last, List.mem_cons_of_mem w hlast, w ++ (sep ++ before), by simp⟩

/-- Whatever stands between the words, one underscore stands there in the canonical form. -/
theorem underscoreRuns_eq (h : Joined IsSeparator ws cs) (hwords : ∀ w ∈ ws, IsWord w)
    (inRun : Bool) :
  underscoreRuns inRun (nameUnits cs) = ['_'].intercalate ws
  := by
  induction h generalizing inRun with
  | word w =>
    have hw := hwords w List.mem_cons_self
    have hunits : nameUnits (w ++ []) = w.map some ++ nameUnits [] :=
      nameUnits_word_append hw.isIdentContinue hw.not_escape (by simp)
    rw [List.append_nil] at hunits
    rw [hunits, underscoreRuns_word_append hw.ne_nil, List.intercalate_singleton]
    apply List.append_nil w
  | join w hsep more ih =>
    next w' sep cs ws =>
    obtain ⟨hw, hwords⟩ := List.forall_mem_cons.mp hwords
    obtain ⟨inRun', hrun⟩ := hsep.exists_underscoreRuns cs
    rw [nameUnits_word_append hw.isIdentContinue hw.not_escape (hsep.head?_ne cs),
      underscoreRuns_word_append hw.ne_nil, hrun, ih hwords, List.intercalate_cons_cons,
      List.append_assoc]
    rfl

/-- Identifiers go on with all characters of a reference. -/
theorem isIdentContinue (h : Joined IsJoint ws cs) (hwords : ∀ w ∈ ws, IsWord w) :
  ∀ c ∈ cs, isIdentContinue c
  := by
  induction h with
  | word w => apply (hwords w List.mem_cons_self).isIdentContinue
  | join w hsep more ih =>
    obtain ⟨hw, hwords⟩ := List.forall_mem_cons.mp hwords
    intro c hc
    obtain hc | hc := List.mem_append.mp hc
    · apply hw.isIdentContinue c hc
    obtain hc | hc := List.mem_append.mp hc
    · obtain rfl | ⟨units, -, rfl, hunits⟩ := hsep
      · obtain rfl := List.mem_singleton.mp hc
        rfl
      · obtain ⟨unit, hunit, hc⟩ := List.mem_flatten.mp hc
        obtain rfl | rfl := hunits unit hunit
        · simp only [List.mem_cons, List.not_mem_nil, or_false] at hc
          obtain rfl | rfl := hc <;> rfl
        · simp only [List.mem_cons, List.not_mem_nil, or_false] at hc
          obtain rfl | rfl := hc <;> rfl
    · apply ih hwords c hc

end Joined

/-! ### Around a name -/

/-- The blanks around a text that neither begins nor ends with one are taken away. -/
theorem trim_append {lead cs trail : List Char} (hlead : ∀ c ∈ lead, isBlank c)
    (htrail : ∀ c ∈ trail, isBlank c) (hne : cs ≠ []) (hhead : ∀ c ∈ cs.head?, isBlank c = false)
    (hlast : ∀ c ∈ cs.getLast?, isBlank c = false) :
  trim (lead ++ cs ++ trail) = cs
  := by
  have hhead' : ∀ c ∈ (cs ++ trail).head?, ¬ isBlank c := by
    obtain ⟨c, cs, rfl⟩ := List.exists_cons_of_ne_nil hne
    intro d hd
    simp [hhead d hd]
  have hlast' : ∀ c ∈ cs.reverse.head?, ¬ isBlank c := by
    intro c hc
    rw [List.head?_reverse] at hc
    simp [hlast c hc]
  have hstart : trimStart (lead ++ cs ++ trail) = cs ++ trail := by
    rw [trimStart, List.append_assoc]
    apply (Piece.takeWhile_append_of_stop hlead _ hhead').2
  have htrail' : ∀ c ∈ trail.reverse, isBlank c := by simpa using htrail
  rw [trim, hstart, trimEnd, List.reverse_append,
    (Piece.takeWhile_append_of_stop htrail' _ hlast').2, List.reverse_reverse]

theorem trim_quoted (cs : List Char) :
  trim ('"' :: cs ++ ['"']) = '"' :: cs ++ ['"']
  := by
  have htrim : trim ([] ++ ('"' :: cs ++ ['"']) ++ []) = '"' :: cs ++ ['"'] := by
    apply trim_append (by simp) (by simp) (by simp)
    · rintro _ ⟨⟩
      rfl
    · rw [List.getLast?_concat]
      rintro _ ⟨⟩
      rfl
  rwa [List.nil_append, List.append_nil] at htrim

/-- A text without a quote at its start is not unquoted. -/
theorem unquote_of_head?_ne {cs : List Char} (h : cs.head? ≠ some '"') :
  unquote cs = cs
  := by
  rw [unquote.eq_def]
  split
  · exact absurd rfl h
  · rfl

theorem unquote_quoted (cs : List Char) :
  unquote ('"' :: cs ++ ['"']) = cs
  := by
  rw [List.cons_append, unquote, if_pos List.getLast?_concat, List.dropLast_concat]

/-! ### Names of variables -/

/-- The words make up a name: none of them is empty or has an escaped line break in it, and the
first one begins like an identifier. -/
structure AreWords (ws : List (List Char)) : Prop where
  word : ∀ w ∈ ws, IsWord w
  first : ∀ w ∈ ws.head?, ∀ c ∈ w.head?, isIdentStart c ∧ c ≠ '.'

/-- The text has runs of blanks and escaped line breaks between its words, and perhaps blanks around
them. -/
def HasWords (v : String) (ws : List (List Char)) : Prop :=
  ∃ lead body trail, v.toList = lead ++ body ++ trail ∧ (∀ c ∈ lead, isBlank c)
    ∧ (∀ c ∈ trail, isBlank c) ∧ Joined IsRun ws body

section

variable {P : List Char → Prop} {ws : List (List Char)} {cs : List Char} (hws : AreWords ws)

include hws

/-- The text begins like an identifier. -/
theorem AreWords.exists_head (h : Joined P ws cs) :
  ∃ c, cs.head? = some c ∧ isIdentStart c ∧ c ≠ '.'
  := by
  obtain ⟨w, rest, hw, rfl⟩ := h.exists_first
  obtain ⟨c, w, rfl⟩ := List.exists_cons_of_ne_nil (hws.word w (List.mem_of_head? hw)).ne_nil
  exact ⟨c, rfl, hws.first _ hw c rfl⟩

/-- The text ends with a character that identifiers go on with. -/
theorem AreWords.exists_last (h : Joined P ws cs) :
  ∃ before c, cs = before ++ [c] ∧ isIdentContinue c
  := by
  obtain ⟨w, hw, before, rfl⟩ := h.exists_last
  obtain hnil | ⟨w', c, rfl⟩ := List.eq_nil_or_concat w
  · exact absurd hnil (hws.word w hw).ne_nil
  · rw [List.concat_eq_append] at hw ⊢
    use before ++ w', c, (List.append_assoc ..).symm
    apply (hws.word _ hw).isIdentContinue c (by simp)

/-- The canonical form of a text with these words. -/
theorem AreWords.canonicalize_eq (h : Joined IsSeparator ws cs) {lead trail : List Char}
    (hlead : ∀ c ∈ lead, isBlank c) (htrail : ∀ c ∈ trail, isBlank c) :
  trim (lead ++ cs ++ trail) = cs
    ∧ canonicalize (String.ofList (lead ++ cs ++ trail))
      = String.ofList (lowercase (['_'].intercalate ws))
  := by
  obtain ⟨c, hhead, hstart, -⟩ := hws.exists_head h
  obtain ⟨before, d, hlast, hcontinue⟩ := hws.exists_last h
  have hc := isIdentStart_iff.mp hstart
  have htrim : trim (lead ++ cs ++ trail) = cs := by
    apply trim_append hlead htrail
    · simp [hlast]
    · rw [hhead]
      rintro _ ⟨⟩
      apply (isIdentContinue_iff.mp hc.1).1
    · rw [hlast, List.getLast?_concat]
      rintro _ ⟨⟩
      apply (isIdentContinue_iff.mp hcontinue).1
  use htrim
  rw [canonicalize, String.toList_ofList, htrim, unquote_of_head?_ne, h.underscoreRuns_eq hws.word]
  rw [hhead]
  intro hquote
  apply hc.2.2 (Option.some.inj hquote)

end

/-- A name is read as an equation that consists of it. -/
theorem parse_of_isName {eqn : String} (h : IsName eqn.toList) (name : String) :
  parse name eqn = .ok (.ident 0 eqn)
  := by
  obtain ⟨⟨c, hhead, -, -⟩, hall⟩ := id h
  obtain hnil | ⟨cs, d, hcs⟩ := List.eq_nil_or_concat eqn.toList
  · rw [hnil] at hhead
    cases hhead
  rw [List.concat_eq_append] at hcs
  obtain ⟨hblank, -, -, hterminator⟩ := isIdentContinue_iff.mp (hall d (by simp [hcs]))
  have hlexeme : IsLexeme .ident eqn.toList := h
  have hstop := Piece.stopsBefore_of_mem_closers .ident eqn.toList (c := terminator) (by decide)
  have hreads : (Cursor.start (eqn.toList ++ [terminator])).Reads
      [⟨.ident, 0, String.ofList eqn.toList⟩] ⟨0 + byteLength eqn.toList, true, [terminator]⟩ :=
    Cursor.reads_lexeme hlexeme [terminator] hstop (by simp) 0 false
  rw [String.ofList_toList, hcs] at hreads
  have hparse : parse name (String.ofList (cs ++ [d])) = .ok (.ident 0 eqn) :=
    parse_of_reads hblank hterminator hreads rfl rfl (.ident h) (show 1 ≤ maxNesting by decide)
  rwa [← hcs, String.ofList_toList] at hparse

/-- A reference is read as the one identifier that it is. -/
theorem AreWords.isName {ws : List (List Char)} {cs : List Char} (hws : AreWords ws)
    (h : Joined IsJoint ws cs) :
  IsName cs
  := by
  obtain ⟨c, hhead, hstart⟩ := hws.exists_head h
  exact ⟨⟨c, hhead, hstart⟩, h.isIdentContinue hws.word⟩

/-- The words of the name of a variable, with an underscore or escaped line breaks between any two
of them, are read as one identifier, which refers to the variable.  In quotes, the name is that of
the same variable. -/
theorem reference_matches_name {ws : List (List Char)} {v r : String} (hws : AreWords ws)
    (hv : HasWords v ws) (hr : Joined IsJoint ws r.toList) (name : String) :
  parse name r = .ok (.ident 0 r)
    ∧ (Expr.ident 0 r).identifierSet = [canonicalize v]
    ∧ canonicalize ("\"" ++ String.ofList (trim v.toList) ++ "\"") = canonicalize v
  := by
  obtain ⟨lead, body, trail, htext, hlead, htrail, hbody⟩ := hv
  obtain ⟨htrim, hcanonical⟩ :=
    hws.canonicalize_eq (hbody.imp fun _ hrun => .inr hrun) hlead htrail
  rw [← htext, String.ofList_toList] at hcanonical
  rw [← htext] at htrim
  refine ⟨parse_of_isName (hws.isName hr) name, ?_, ?_⟩
  · have hreference : canonicalize r = canonicalize v := by
      have hnone : ∀ c ∈ ([] : List Char), isBlank c := by simp
      obtain ⟨-, hcanonical'⟩ :=
        hws.canonicalize_eq (hr.imp fun _ hjoint => hjoint.isSeparator) hnone hnone
      rw [List.nil_append, List.append_nil, String.ofList_toList] at hcanonical'
      rw [hcanonical', hcanonical]
    change [canonicalize r] = _
    rw [hreference]
  · have hlist : ("\"" ++ String.ofList (trim v.toList) ++ "\"").toList = '"' :: body ++ ['"'] := by
      rw [htrim]
      simp
    rw [canonicalize, hlist, trim_quoted, unquote_quoted,
      (hbody.imp fun _ hrun => .inr hrun).underscoreRuns_eq hws.word, hcanonical]

/-- A word that ends with a backslash, a quote within a word, and a mix of separators. -/
theorem reference_matches_name_with_escapes :
  parse "x" "Birth\\_ra\"te\\n\\rÉ" = .ok (.ident 0 "Birth\\_ra\"te\\n\\rÉ")
    ∧ (Expr.ident 0 "Birth\\_ra\"te\\n\\rÉ").identifierSet
      = [canonicalize " Birth\\ \\n\tra\"te\\rÉ\n"]
    ∧ canonicalize " Birth\\ \\n\tra\"te\\rÉ\n" = "birth\\_ra\"te_é"
  := by
  have hjoined {P : List Char → Prop} (sep sep' : List Char) (h : P sep) (h' : P sep') :
      Joined P ["Birth\\".toList, "ra\"te".toList, ['É']]
        ("Birth\\".toList ++ (sep ++ ("ra\"te".toList ++ (sep' ++ ['É'])))) :=
    .join _ h (.join _ h' (.word _))
  have hwords : AreWords ["Birth\\".toList, "ra\"te".toList, ['É']] := by
    constructor
    · intro w hw
      simp only [List.mem_cons, List.not_mem_nil, or_false] at hw
      obtain rfl | rfl | rfl := hw <;>
      · constructor
        · decide
        · apply List.all_eq_true.mp (by decide +kernel)
        · rintro _ (rfl | rfl) <;> decide +kernel
    · rintro _ ⟨⟩ _ ⟨⟩
      decide +kernel
  have hname : HasWords " Birth\\ \\n\tra\"te\\rÉ\n"
      ["Birth\\".toList, "ra\"te".toList, ['É']] := by
    refine ⟨[' '], _, ['\n'], ?_, List.all_eq_true.mp rfl, List.all_eq_true.mp rfl,
      hjoined [' ', '\\', 'n', '\t'] ['\\', 'r'] ?_ ?_⟩
    · decide +kernel
    · refine ⟨[[' '], ['\\', 'n'], ['\t']], by simp, rfl, ?_⟩
      have hspace : isBlank ' ' := rfl
      have htab : isBlank '\t' := rfl
      simp [IsEscape, IsBlankUnit, hspace, htab]
    · refine ⟨[['\\', 'r']], by simp, rfl, ?_⟩
      simp [IsEscape]
  have hreference : Joined IsJoint ["Birth\\".toList, "ra\"te".toList, ['É']]
      "Birth\\_ra\"te\\n\\rÉ".toList := by
    apply hjoined ['_'] ['\\', 'n', '\\', 'r'] (.inl rfl)
    refine .inr ⟨[['\\', 'n'], ['\\', 'r']], by simp, rfl, ?_⟩
    simp [IsEscape]
  obtain ⟨hparse, hset, -⟩ := reference_matches_name hwords hname hreference "x"
  exact ⟨hparse, hset, by decide +kernel⟩

end EquationLang
