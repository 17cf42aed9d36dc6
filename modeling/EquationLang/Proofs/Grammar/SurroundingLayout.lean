import EquationLang.Proofs.Token.Margins
import EquationLang.Proofs.Grammar.Juxtaposition
import EquationLang.Proofs.Grammar.SingleDiagnostic

/-!
# Layout around an equation

Blanks and terminators behind an equation make no difference, and blanks and comments in front of it
move everything by their length (`surrounding_layout_is_irrelevant`).  Behind the equation, they
change the tokens only in the number of terminators at the end and in the place of the end
(`EndAlike`), and no reading tells these apart, unless a terminator is missing: that cannot happen
in a text without a fault.
-/

namespace EquationLang

open EquationLang.Parser

/-! ### Tokens that end in the same way -/

/-- The tokens are the same, but for the number of terminators at the end and the place of the
end. -/
inductive EndAlike : List Token → List Token → Prop where
  | ended {semis semis' : List Token} {last last' : Token} (hsemis : ∀ t ∈ semis, t.kind = .semi)
      (hlast : last.kind = .eof) (hsemis' : ∀ t ∈ semis', t.kind = .semi)
      (hlast' : last'.kind = .eof) :
    EndAlike (semis ++ [last]) (semis' ++ [last'])
  | cons (t : Token) {ts ts' : List Token} (h : EndAlike ts ts') : EndAlike (t :: ts) (t :: ts')

section

variable {semis ts ts' : List Token} {last : Token}

theorem lookahead_ended (hsemis : ∀ t ∈ semis, t.kind = .semi) (hlast : last.kind = .eof) :
  (lookahead (semis ++ [last])).Closes
  := by
  cases semis with
  | nil => exact .inr hlast
  | cons t semis => exact .inl (hsemis t List.mem_cons_self)

theorem lookahead_dropWhile_ended (hsemis : ∀ t ∈ semis, t.kind = .semi)
    (hlast : last.kind = .eof) :
  (lookahead ((semis ++ [last]).dropWhile (·.kind = .semi))).kind = .eof
  := by
  rw [List.dropWhile_append_of_pos (by simpa using hsemis)]
  simp [hlast, lookahead]

theorem EndAlike.append (us : List Token) (h : EndAlike ts ts') :
  EndAlike (us ++ ts) (us ++ ts')
  := by
  induction us with
  | nil => exact h
  | cons t us ih => exact .cons t ih

theorem inStep_endAlike :
  InStep id EndAlike
  := by
  intro ts ts' h
  cases h with
  | ended hsemis hlast hsemis' hlast' =>
    left
    exact ⟨lookahead_ended hsemis hlast, lookahead_ended hsemis' hlast'⟩
  | cons t h =>
    right
    exact ⟨t, _, _, rfl, rfl, h⟩

theorem EndAlike.closes_iff (h : EndAlike ts ts') :
  (lookahead ts).Closes ↔ (lookahead ts').Closes
  := by
  obtain ⟨hclosed, hclosed'⟩ | ⟨t, us, us', rfl, rfl, -⟩ := inStep_endAlike ts ts' h
  · exact ⟨fun _ => hclosed', fun _ => hclosed⟩
  · exact Iff.rfl

/-- After terminators, both lists are at their end, or they go on with the same token. -/
theorem EndAlike.lookahead_dropWhile (h : EndAlike ts ts') :
  (lookahead (ts.dropWhile (·.kind = .semi))).kind = .eof
      ∧ (lookahead (ts'.dropWhile (·.kind = .semi))).kind = .eof
    ∨ lookahead (ts.dropWhile (·.kind = .semi)) = lookahead (ts'.dropWhile (·.kind = .semi))
  := by
  induction h with
  | ended hsemis hlast hsemis' hlast' =>
    left
    exact ⟨lookahead_dropWhile_ended hsemis hlast, lookahead_dropWhile_ended hsemis' hlast'⟩
  | cons t h ih =>
    by_cases hsemi : t.kind = .semi
    · simpa [List.dropWhile_cons, hsemi] using ih
    · right
      simp [hsemi, lookahead]

end

/-! ### Codes -/

/-- A fault has the same code at all tokens that end a statement or the text. -/
theorem Fault.code_of_closes (complaint : Complaint) {t t' : Token} (h : t.Closes)
    (h' : t'.Closes) :
  (⟨complaint, t⟩ : Fault).code = (⟨complaint, t'⟩ : Fault).code
  := by
  cases complaint with
  | noOperand =>
    have hcode {u : Token} (hu : u.Closes) : (⟨.noOperand, u⟩ : Fault).code = .unexpectedEof := by
      obtain hu | hu := hu <;> simp only [code, hu]
    rw [hcode h, hcode h']
  | _ => rfl

/-- Two readings give the same expression, positions included, or they fail with the same code. -/
inductive SameCode : Except Failure Expr → Except Failure Expr → Prop where
  | ok (e : Expr) : SameCode (.ok e) (.ok e)
  | error {failure failure' : Failure} (h : failure.cause.code = failure'.cause.code) :
    SameCode (.error failure) (.error failure')

/-- Reading fails for want of a terminator. -/
def LacksTerminator (x : Except Failure Expr) : Prop :=
  ∃ failure, x = .error failure ∧ failure.cause.complaint = .noTerminator

section

variable {semis ts ts' : List Token} {last : Token}

theorem EndAlike.code_eq (h : EndAlike ts ts') (complaint : Complaint) :
  (⟨complaint, lookahead ts⟩ : Fault).code = (⟨complaint, lookahead ts'⟩ : Fault).code
  := by
  obtain ⟨hclosed, hclosed'⟩ | ⟨t, us, us', rfl, rfl, -⟩ := inStep_endAlike ts ts' h
  · apply Fault.code_of_closes complaint hclosed hclosed'
  · rfl

theorem ending_of_ended (e : Expr) (hsemis : ∀ t ∈ semis, t.kind = .semi)
    (hlast : last.kind = .eof) :
  ending e (semis ++ [last]) = .ok e ∨ LacksTerminator (ending e (semis ++ [last]))
  := by
  rw [ending, if_pos (lookahead_dropWhile_ended hsemis hlast)]
  obtain hkind | hkind := lookahead_ended hsemis hlast
  · left
    rw [hkind]
  · right
    rw [hkind]
    exact ⟨_, rfl, rfl⟩

/-- What comes after the expression is read in the same way, where no terminator is missing. -/
theorem EndAlike.sameCode_ending (h : EndAlike ts ts') (e : Expr)
    (hends : ¬ LacksTerminator (ending e ts)) (hends' : ¬ LacksTerminator (ending e ts')) :
  SameCode (ending e ts) (ending e ts')
  := by
  cases h with
  | ended hsemis hlast hsemis' hlast' =>
    rw [(ending_of_ended e hsemis hlast).resolve_right hends,
      (ending_of_ended e hsemis' hlast').resolve_right hends']
    exact .ok e
  | @cons t us us' h =>
    have hdrop := (EndAlike.cons t h).lookahead_dropWhile
    have hkind : (lookahead (t :: us')).kind = (lookahead (t :: us)).kind := rfl
    rw [ending, ending, hkind]
    split
    · obtain ⟨hend, hend'⟩ | hsame := hdrop
      · rw [if_pos hend, if_pos hend']
        exact .ok e
      · rw [← hsame]
        split
        · exact .ok e
        · exact .error (congrArg (Fault.code ⟨.noEquationEnd, ·⟩) hsame)
    · exact .error rfl
    · exact .error rfl

/-- Equations whose tokens end in the same way are read in the same way, where no terminator is
missing. -/
theorem EndAlike.sameCode_equation (h : EndAlike ts ts') (hends : ¬ LacksTerminator (equation ts))
    (hends' : ¬ LacksTerminator (equation ts')) :
  SameCode (equation ts) (equation ts')
  := by
  by_cases hclosed : (lookahead ts).Closes
  · rw [equation_of_closes hclosed, equation_of_closes (h.closes_iff.mp hclosed)]
    exact .error (h.code_eq .emptyEquation)
  rw [equation_of_not_closes hclosed] at hends ⊢
  rw [equation_of_not_closes (mt h.closes_iff.mpr hclosed)] at hends' ⊢
  have hexpression := readsInStep_expression inStep_endAlike maxNesting ts ts' h
  generalize (expression (factor maxNesting)).run ts = x,
    (expression (factor maxNesting)).run ts' = x' at hexpression hends hends'
  cases hexpression with
  | @error complaint _ _ rest rest' hrest => exact .error (hrest.code_eq complaint)
  | @ok e rest rest' hrest =>
    rw [Expr.mapPos_id] at hends' ⊢
    exact hrest.sameCode_ending e hends hends'

end

/-! ### Behind an equation -/

/-- Two texts are read as the same expression, positions included, or they are refused with one
diagnostic each, which have the same code. -/
inductive SameAnswer : Except ParseError Expr → Except ParseError Expr → Prop where
  | ok (e : Expr) : SameAnswer (.ok e) (.ok e)
  | error {err err' : ParseError} {d d' : Diagnostic} (hd : err.diagnostics = [d])
      (hd' : err'.diagnostics = [d']) (h : d.code = d'.code) :
    SameAnswer (.error err) (.error err')

/-- In a text without a fault, no terminator is missing. -/
theorem not_lacksTerminator {eqn : String} (h : IsFaultless eqn) :
  ¬ LacksTerminator (equation (equationTokens eqn))
  := by
  rintro ⟨failure, hequation, hcause⟩
  exact cause_ne_noTerminator h hequation hcause

/-- If nothing is wrong with the characters of an equation, the code is that of the failure. -/
theorem exists_code_of_error {eqn : String} {failure : Failure} (name : String)
    (hfaultless : IsFaultless eqn) (h : equation (equationTokens eqn) = .error failure) :
  ∃ err d, parse name eqn = .error err ∧ err.diagnostics = [d] ∧ d.code = failure.cause.code
  := by
  obtain ⟨err, d, hparse, hd, hwording, -⟩ := exists_wording_of_error name h
  refine ⟨err, d, hparse, hd, ?_⟩
  have hnone : lexicalErrors eqn = [] := hfaultless
  rw [hnone, List.map_nil, Failure.wording, ite_self] at hwording
  exact congrArg Prod.fst hwording

theorem EndAlike.sameAnswer {u v : String} (h : EndAlike (equationTokens u) (equationTokens v))
    (hu : IsFaultless u) (hv : IsFaultless v) (name : String) :
  SameAnswer (parse name u) (parse name v)
  := by
  have hsame := h.sameCode_equation (not_lacksTerminator hu) (not_lacksTerminator hv)
  generalize hx : equation (equationTokens u) = x, hx' : equation (equationTokens v) = x' at hsame
  cases hsame with
  | ok e =>
    have hparse : parse name u = .ok e := (parse_of_ok hx).trans (if_pos hu)
    have hparse' : parse name v = .ok e := (parse_of_ok hx').trans (if_pos hv)
    rw [hparse, hparse']
    exact .ok e
  | error hcode =>
    obtain ⟨err, d, hparse, hd, hfailure⟩ := exists_code_of_error name hu hx
    obtain ⟨err', d', hparse', hd', hfailure'⟩ := exists_code_of_error name hv hx'
    rw [hparse, hparse']
    exact .error hd hd' (by rw [hfailure, hfailure', hcode])

/-- Texts with the same tokens and the same fault are refused with the same code. -/
theorem sameAnswer_of_fault {u v : String} {ts : List Token}
    {fault : Nat × Diagnostic.Code × String}
    (hu : (Cursor.start (normalize u).toList).read = (ts, some fault))
    (hv : (Cursor.start (normalize v).toList).read = (ts, some fault)) (name : String) :
  SameAnswer (parse name u) (parse name v)
  := by
  have htokens : equationTokens u = equationTokens v := by
    rw [equationTokens_eq_read, equationTokens_eq_read, hu, hv]
  have hmoved : (Cursor.start (normalize v).toList).read.2
      = (Cursor.start (normalize u).toList).read.2.map (Prod.map id id) := by
    rw [hu, hv]
    rfl
  have houtcome := sameOutcome_of_bare (congrArg (List.map Token.bare) htokens)
    (map_wording_of_moved hmoved) name name
  generalize hx : parse name u = x, parse name v = x' at houtcome
  cases houtcome with
  | ok =>
    have hfaultless := isFaultless_iff.mp (parse_eq_ok_iff.mp hx).1
    rw [hu] at hfaultless
    cases hfaultless
  | error hd hd' hwording => exact .error hd hd' (congrArg Prod.fst hwording)

/-- Blanks and terminators behind an equation make no difference. -/
theorem sameAnswer_append (name eqn : String) {w : String} (h : IsTrailer w.toList) :
  SameAnswer (parse name eqn) (parse name (eqn ++ w))
  := by
  obtain ⟨cs, hcs, htext⟩ := exists_trailer_of_normalize eqn
  obtain ⟨cs', hcs', htext'⟩ := exists_trailer_of_normalize (eqn ++ w)
  rw [String.toList_append, List.append_assoc] at htext'
  have hstart (cs : List Char) :
      (Cursor.start eqn.toList).trailed cs = Cursor.start (eqn.toList ++ cs) := rfl
  obtain ⟨ts, hread⟩ | ⟨ts, fault, hread⟩ := (Cursor.start eqn.toList).read_trailed
  · obtain ⟨semis, stop, hsemis, hread₁⟩ := hread cs hcs
    obtain ⟨semis', stop', hsemis', hread₂⟩ := hread _ (h.append hcs')
    rw [hstart, ← htext] at hread₁
    rw [hstart, ← htext'] at hread₂
    apply EndAlike.sameAnswer
    · rw [equationTokens_eq_read, equationTokens_eq_read, hread₁, hread₂]
      apply EndAlike.append ts (.ended hsemis rfl hsemis' rfl)
    · rw [isFaultless_iff, hread₁]
    · rw [isFaultless_iff, hread₂]
  · have hread₁ := hread cs hcs
    have hread₂ := hread _ (h.append hcs')
    rw [hstart, ← htext] at hread₁
    rw [hstart, ← htext'] at hread₂
    exact sameAnswer_of_fault hread₁ hread₂ name

/-! ### In front of an equation -/

/-- Two texts are read as the same expression, whose positions are greater by `d` in the second one,
or they are refused with one diagnostic each, which say the same, and whose offset is greater by `d`
in the second one. -/
inductive MovedAnswer (d : Nat) : Except ParseError Expr → Except ParseError Expr → Prop where
  | ok (e : Expr) : MovedAnswer d (.ok e) (.ok (e.mapPos (· + d)))
  | error {err err' : ParseError} {x x' : Diagnostic} (hx : err.diagnostics = [x])
      (hx' : err'.diagnostics = [x']) (hwording : x'.wording = x.wording)
      (hoffset : x'.pos.offset = x.pos.offset + d) :
    MovedAnswer d (.error err) (.error err')

/-- The text `v` is read in the same way as `u`, but `d` bytes further on. -/
def MovedText (d : Nat) (u v : String) : Prop :=
  (Cursor.start (normalize v).toList).read
    = ((Cursor.start (normalize u).toList).read.1.map (Token.shift d),
      (Cursor.start (normalize u).toList).read.2.map (Prod.map (· + d) id))

namespace MovedText

variable {d : Nat} {u v : String}

theorem equationTokens_eq (h : MovedText d u v) :
  equationTokens v = (equationTokens u).map (Token.shift d)
  := by
  rw [equationTokens_eq_read, equationTokens_eq_read, h]

/-- The lexical faults are moved too. -/
theorem lexicalErrors_eq (h : MovedText d u v) :
  (lexicalErrors v).map (fun x => (x.pos.offset, x.wording))
    = (lexicalErrors u).map (fun x => (x.pos.offset + d, x.wording))
  := by
  have hu := (reports_lexicalErrors u).toList_map
  have hv := (reports_lexicalErrors v).toList_map
  rw [h, Option.toList_map, ← hu, List.map_map] at hv
  exact hv

theorem wording_eq (h : MovedText d u v) :
  (lexicalErrors u).map Diagnostic.wording = (lexicalErrors v).map Diagnostic.wording
  := map_wording_of_moved (congrArg Prod.snd h)

theorem isFaultless_iff (h : MovedText d u v) :
  IsFaultless u ↔ IsFaultless v
  := by
  rw [IsFaultless, IsFaultless, ← List.map_eq_nil_iff, h.wording_eq, List.map_eq_nil_iff]

theorem movedAnswer_of_ok (h : MovedText d u v) {e : Expr}
    (hu : equation (equationTokens u) = .ok e)
    (hv : equation (equationTokens v) = .ok (e.mapPos (· + d))) (name : String) :
  MovedAnswer d (parse name u) (parse name v)
  := by
  by_cases hfault : IsFaultless u
  · have hparse : parse name u = .ok e := (parse_of_ok hu).trans (if_pos hfault)
    have hparse' : parse name v = .ok (e.mapPos (· + d)) :=
      (parse_of_ok hv).trans (if_pos (h.isFaultless_iff.mp hfault))
    rw [hparse, hparse']
    exact .ok e
  · obtain ⟨err, x, hparse, hx, hlexical⟩ := exists_wording_of_ok name hu hfault
    obtain ⟨err', x', hparse', hx', hlexical'⟩ :=
      exists_wording_of_ok name hv (mt h.isFaultless_iff.mpr hfault)
    have hmoved := h.lexicalErrors_eq
    rw [hlexical, hlexical'] at hmoved
    obtain ⟨hoffset, hwording⟩ := Prod.mk.inj (List.singleton_inj.mp hmoved)
    rw [hparse, hparse']
    exact .error hx hx' hwording hoffset

theorem movedAnswer (h : MovedText d u v) (name : String) :
  MovedAnswer d (parse name u) (parse name v)
  := by
  have hverdict := equation_map (f := (· + d)) (g := Token.shift d) (fun _ => rfl) (fun _ _ => rfl)
    (equationTokens u)
  rw [← h.equationTokens_eq] at hverdict
  cases hu : equation (equationTokens u) with
  | ok e =>
    rw [hu] at hverdict
    exact h.movedAnswer_of_ok hu hverdict.eq_of_ok name
  | error failure =>
    rw [hu] at hverdict
    obtain ⟨failure', hv⟩ := hverdict.exists_error_iff.mp ⟨failure, rfl⟩
    rw [hv] at hverdict
    obtain ⟨err, x, hparse, hx, hwording, hoffset⟩ := exists_wording_of_error name hu
    obtain ⟨err', x', hparse', hx', hwording', hoffset'⟩ := exists_wording_of_error name hv
    rw [hparse, hparse']
    apply MovedAnswer.error hx hx'
    · rw [hwording, hwording', ← h.wording_eq,
        hverdict.wording_eq (fun _ => rfl) (fun _ => rfl)]
    · rw [hoffset, hoffset']
      obtain ⟨-, t, behind, -, hrest, -⟩ := exists_misfit_of_text hu
      cases hverdict with
      | error hmap =>
        obtain rfl : _ = t :: behind := hrest
        rw [hmap]
        rfl

end MovedText

/-- Layout has no fault, and its first token ends a statement or the text. -/
theorem exists_tokens_of_isLayout {eqn : String} (h : IsLayout eqn.toList) :
  IsFaultless eqn ∧ ∃ t ts, equationTokens eqn = t :: ts ∧ t.Closes ∧ t.pos = eqn.utf8ByteSize
  := by
  rw [isFaultless_iff, equationTokens_eq_read, utf8ByteSize_eq_byteLength]
  have hread (cs : List Char) : (Cursor.start (eqn.toList ++ cs)).read
      = (⟨byteLength eqn.toList, false, cs⟩ : Cursor).read := by
    have hlayout := (Cursor.reads_layout h 0 cs).read_eq
    rw [Nat.zero_add] at hlayout
    exact hlayout
  obtain htext | htext := toList_normalize eqn
  · rw [htext, ← List.append_nil eqn.toList, hread, Cursor.read_of_nil rfl, List.append_nil]
    exact ⟨rfl, _, _, rfl, .inr rfl, rfl⟩
  · have found : Piece.front? [terminator] = some (.lexeme .semi [terminator], []) := rfl
    rw [htext, hread, Cursor.read_of_piece (k := ⟨_, false, _⟩) found rfl,
      Cursor.read_of_nil (k := Cursor.after _ _ []) rfl]
    exact ⟨rfl, _, _, rfl, .inl rfl, rfl⟩

/-- Layout is refused as an empty equation, at its end. -/
theorem parse_of_isLayout (name : String) {eqn : String} (h : IsLayout eqn.toList) :
  ∃ err x, parse name eqn = .error err ∧ err.diagnostics = [x]
    ∧ x.wording = (.emptyEquation, "empty equation") ∧ x.pos.offset = eqn.utf8ByteSize
  := by
  obtain ⟨hfaultless, t, ts, htokens, hcloses, hpos⟩ := exists_tokens_of_isLayout h
  have hequation : equation (equationTokens eqn) = refuse .emptyEquation (equationTokens eqn) := by
    rw [htokens]
    exact equation_of_closes hcloses
  obtain ⟨err, x, hparse, hx, hwording, hoffset⟩ := exists_wording_of_error name hequation
  refine ⟨err, x, hparse, hx, ?_, ?_⟩
  · have hnone : lexicalErrors eqn = [] := hfaultless
    rw [hwording, hnone, List.map_nil, Failure.wording, ite_self]
    rfl
  · rw [hoffset, htokens, ← hpos]
    rfl

/-- Layout in front of an equation moves it. -/
theorem movedText_of_isLayout {w eqn : String} (h : IsLayout w.toList)
    (hblank : ∃ c ∈ eqn.toList, isBlank c = false) :
  MovedText w.utf8ByteSize eqn (w ++ eqn)
  := by
  obtain ⟨c, hc, hblank⟩ := hblank
  obtain ⟨before, behind, heqn⟩ := List.append_of_mem hc
  obtain ⟨more, hnormalize⟩ := exists_normalize behind hblank
  have htext : (normalize (w ++ eqn)).toList = w.toList ++ (normalize eqn).toList := by
    rw [hnormalize eqn before heqn, hnormalize (w ++ eqn) (w.toList ++ before), List.append_assoc]
    rw [String.toList_append, heqn, List.append_assoc]
  have hlayout := (Cursor.reads_layout h 0 (normalize eqn).toList).read_eq
  rw [← utf8ByteSize_eq_byteLength, ← htext] at hlayout
  rw [MovedText, ← Cursor.read_shift]
  exact hlayout

/-- Blanks and comments in front of an equation move everything by their length. -/
theorem movedAnswer_append (name eqn : String) {w : String} (h : IsLayout w.toList) :
  MovedAnswer w.utf8ByteSize (parse name eqn) (parse name (w ++ eqn))
  := by
  by_cases hblank : ∃ c ∈ eqn.toList, isBlank c = false
  · exact (movedText_of_isLayout h hblank).movedAnswer name
  · have heqn : IsLayout eqn.toList := by
      apply isLayout_of_isBlank
      intro c hc
      by_contra hnot
      exact hblank ⟨c, hc, Bool.eq_false_iff.mpr hnot⟩
    obtain ⟨err, x, hparse, hx, hwording, hoffset⟩ := parse_of_isLayout name heqn
    have heqn' : IsLayout (w ++ eqn).toList := by
      rw [String.toList_append]
      exact h.append heqn
    obtain ⟨err', x', hparse', hx', hwording', hoffset'⟩ := parse_of_isLayout name heqn'
    rw [hparse, hparse']
    apply MovedAnswer.error hx hx'
    · rw [hwording, hwording']
    · rw [hoffset, hoffset', String.utf8ByteSize_append, Nat.add_comm]

/-! ### The main result -/

/-- Layout around an equation is irrelevant.  Blanks and terminators behind it change neither the
expression, positions included, nor the code under which the equation is refused.  Blanks and
comments in front of it, each comment with its line break, make all positions greater by their
length in bytes, and change nothing else in the expression or in what the diagnostic says. -/
theorem surrounding_layout_is_irrelevant (name eqn : String) :
  (∀ w : String, IsTrailer w.toList → SameAnswer (parse name eqn) (parse name (eqn ++ w)))
    ∧ ∀ w : String, IsLayout w.toList →
      MovedAnswer w.utf8ByteSize (parse name eqn) (parse name (w ++ eqn))
  := ⟨fun _ h => sameAnswer_append name eqn h, fun _ h => movedAnswer_append name eqn h⟩

/-- A comment at the end takes in a terminator behind the equation, and a comment in front of an
equation that is refused moves the diagnostic. -/
theorem surrounding_layout_is_irrelevant_beside_comments :
  (∃ e, parse "y" "(a)(b) // c" = .ok e ∧ parse "y" ("(a)(b) // c" ++ " ;\n;") = .ok e)
    ∧ ∃ err x, parse "y" ("// é\n\t" ++ "f(") = .error err ∧ err.diagnostics = [x]
      ∧ x.code = .unexpectedEof ∧ x.pos.offset = 9
  := by
  constructor
  · have hok : (parse "y" "(a)(b) // c").isOk := by decide +kernel
    have hsame := (surrounding_layout_is_irrelevant "y" "(a)(b) // c").1 " ;\n;" (by decide)
    generalize parse "y" "(a)(b) // c" = x, parse "y" ("(a)(b) // c" ++ " ;\n;") = x' at *
    cases hsame with
    | ok e => exact ⟨e, rfl, rfl⟩
    | error => cases hok
  · have herror : parse "y" "f(" = .error ⟨"y", "f(;",
        [⟨.unexpectedEof, "unexpected end of equation", ⟨2, 1, 3⟩⟩]⟩ := by
      decide +kernel
    have hlayout : IsLayout ('/' :: '/' :: (" é".toList ++ ['\n', '\t'])) :=
      .comment (by decide) (.blank rfl .nil)
    have hmoved := (surrounding_layout_is_irrelevant "y" "f(").2 "// é\n\t" hlayout
    rw [herror] at hmoved
    generalize parse "y" ("// é\n\t" ++ "f(") = x at *
    cases hmoved with
    | error hx hx' hwording hoffset =>
      obtain rfl := List.singleton_inj.mp hx
      refine ⟨_, _, rfl, hx', congrArg Prod.fst hwording, hoffset.trans (by decide)⟩

end EquationLang
