import EquationLang.Json.Encode
import Mathlib.Data.List.Forall2
import Mathlib.Tactic.Common

/-!
# Expressions are told apart by their JSON values

The fields of an object may come in any order, so two JSON values are the same if the same numbers
and texts are found in the same places of them (`Json.Same`).  Two expressions of which the JSON
values are the same in this sense are equal, positions included (`Expr.eq_of_same`).
-/

namespace EquationLang

theorem Operator.name_injective :
  Function.Injective Operator.name
  := by
  intro op op' h
  cases op <;> cases op' <;> simp_all [name]

theorem Sign.name_injective :
  Function.Injective Sign.name
  := by
  intro sign sign' h
  cases sign <;> cases sign' <;> simp_all [name]

/-- Lists with related elements at each place are related element by element. -/
theorem forall₂_of_rel_getElem? {α : Type} {R : α → α → Prop} {xs ys : List α}
    (h : ∀ n : Nat, Option.Rel R xs[n]? ys[n]?) :
  List.Forall₂ R xs ys
  := by
  induction xs generalizing ys with
  | nil =>
    cases ys with
    | nil => apply List.Forall₂.nil
    | cons y ys => cases h 0
  | cons x xs ih =>
    cases ys with
    | nil => cases h 0
    | cons y ys =>
      apply List.Forall₂.cons
      · apply Option.rel_some_some.mp (h 0)
      · apply ih fun n => h (n + 1)

namespace Json

/-- A step from a JSON value to one of its parts. -/
inductive Step where
  | field (name : String)
  | item (n : Nat)

/-- What there is to see of a JSON value besides its parts. -/
inductive Label where
  | num (n : Nat)
  | str (s : String)
  | arr
  | obj

def label : Json → Label
  | num n => .num n
  | str s => .str s
  | arr _ => .arr
  | obj _ => .obj

/-- The part that a step leads to. -/
def part? : Json → Step → Option Json
  | obj fields, .field name => fields.lookup name
  | arr items, .item n => items[n]?
  | _, _ => none

/-- The part at a place, which is known by the steps that lead to it. -/
def at? (j : Json) : List Step → Option Json
  | [] => some j
  | step :: place => (j.part? step).bind (·.at? place)

/-- The same is found at all places of both JSON values. -/
def Same (j j' : Json) : Prop := ∀ place, (j.at? place).map label = (j'.at? place).map label

variable {j j' : Json}

theorem same_refl (j : Json) :
  Same j j
  := fun _ => rfl

theorem Same.label_eq (h : Same j j') :
  j.label = j'.label
  := Option.some.inj (h [])

@[simp]
theorem same_num_iff {n n' : Nat} :
  Same (num n) (num n') ↔ n = n'
  := by
  constructor
  · intro h
    apply Label.num.inj h.label_eq
  · rintro rfl
    apply same_refl

@[simp]
theorem same_str_iff {s s' : String} :
  Same (str s) (str s') ↔ s = s'
  := by
  constructor
  · intro h
    apply Label.str.inj h.label_eq
  · rintro rfl
    apply same_refl

/-- The same steps lead to parts of both values, and these are the same. -/
theorem Same.rel_part? (h : Same j j') (step : Step) :
  Option.Rel Same (j.part? step) (j'.part? step)
  := by
  have hplace : ∀ place, ((j.part? step).bind (·.at? place)).map label
      = ((j'.part? step).bind (·.at? place)).map label := fun place => h (step :: place)
  revert hplace
  cases j.part? step with
  | none =>
    cases j'.part? step with
    | none => exact fun _ => .none
    | some k' => exact fun hplace => nomatch hplace []
  | some k =>
    cases j'.part? step with
    | none => exact fun hplace => nomatch hplace []
    | some k' => exact fun hplace => .some hplace

/-- Fields of the same name have the same value. -/
theorem Same.field {fields fields' : List (String × Json)} (h : Same (obj fields) (obj fields'))
    (name : String) {k k' : Json} (hk : fields.lookup name = some k)
    (hk' : fields'.lookup name = some k') :
  Same k k'
  := by
  have hpart := h.rel_part? (.field name)
  rw [part?, part?, hk, hk', Option.rel_some_some] at hpart
  exact hpart

/-- Objects with one field are the same only if this field has the same name and value. -/
theorem Same.only {name name' : String} {k k' : Json}
    (h : Same (obj [(name, k)]) (obj [(name', k')])) :
  name = name' ∧ Same k k'
  := by
  have hpart := h.rel_part? (.field name)
  rw [part?, part?, List.lookup_cons_self] at hpart
  by_cases hname : name = name'
  · subst hname
    rw [List.lookup_cons_self] at hpart
    exact ⟨rfl, Option.rel_some_some.mp hpart⟩
  · rw [List.lookup_cons, beq_false_of_ne hname] at hpart
    cases hpart

/-- Arrays are the same only if their items are, one by one. -/
theorem Same.items {items items' : List Json} (h : Same (arr items) (arr items')) :
  List.Forall₂ Same items items'
  := forall₂_of_rel_getElem? fun n => h.rel_part? (.item n)

/-- A name is looked up alike in fields that have been put into another order. -/
theorem lookup_eq_of_perm {fields fields' : List (String × Json)} (h : fields.Perm fields')
    (distinct : (fields.map Prod.fst).Nodup) (name : String) :
  fields.lookup name = fields'.lookup name
  := by
  induction h with
  | nil => rfl
  | cons field h ih =>
    rw [List.lookup_cons, List.lookup_cons, ih (List.nodup_cons.mp distinct).2]
  | swap field field' fields =>
    obtain ⟨a, k⟩ := field
    obtain ⟨b, k'⟩ := field'
    have hne : b ≠ a := by
      rintro rfl
      simp at distinct
    by_cases ha : name = a
    · subst ha
      rw [List.lookup_cons, List.lookup_cons_self, List.lookup_cons_self,
        beq_false_of_ne hne.symm]
    · simp only [List.lookup_cons, beq_false_of_ne ha]
  | trans h h' ih ih' => rw [ih distinct, ih' ((h.map Prod.fst).nodup_iff.mp distinct)]

/-- The order of the fields of an object does not matter. -/
theorem same_obj_of_perm {fields fields' : List (String × Json)} (h : fields.Perm fields')
    (distinct : (fields.map Prod.fst).Nodup) :
  Same (obj fields) (obj fields')
  := by
  rintro (_ | ⟨_ | _, place⟩)
  · rfl
  · rw [at?, at?, part?, part?, lookup_eq_of_perm h distinct]
  · rfl

end Json

namespace Expr

mutual

theorem eq_of_same : (e e' : Expr) → e.toJson.Same e'.toJson → e = e'
  | bad start stop, e', h => by
    cases e' with
    | bad start' stop' =>
      have hparts := (Json.Same.only h).2
      obtain rfl := Json.same_num_iff.mp (hparts.field "from" rfl rfl)
      obtain rfl := Json.same_num_iff.mp (hparts.field "to" rfl rfl)
      rfl
    | _ => exact absurd (Json.Same.only h).1 (by decide)
  | ident pos name, e', h => by
    cases e' with
    | ident pos' name' =>
      have hparts := (Json.Same.only h).2
      obtain rfl := Json.same_num_iff.mp (hparts.field "name_pos" rfl rfl)
      obtain rfl := Json.same_str_iff.mp (hparts.field "name" rfl rfl)
      rfl
    | _ => exact absurd (Json.Same.only h).1 (by decide)
  | literal pos value, e', h => by
    cases e' with
    | literal pos' value' =>
      have hparts := (Json.Same.only h).2
      obtain rfl := Json.same_num_iff.mp (hparts.field "value_pos" rfl rfl)
      obtain rfl := Json.same_str_iff.mp (hparts.field "value" rfl rfl)
      rfl
    | _ => exact absurd (Json.Same.only h).1 (by decide)
  | paren lparen body rparen, e', h => by
    cases e' with
    | paren lparen' body' rparen' =>
      have hparts := (Json.Same.only h).2
      obtain rfl := Json.same_num_iff.mp (hparts.field "lparen" rfl rfl)
      obtain rfl := eq_of_same body body' (hparts.field "x" rfl rfl)
      obtain rfl := Json.same_num_iff.mp (hparts.field "rparen" rfl rfl)
      rfl
    | _ => exact absurd (Json.Same.only h).1 (by decide)
  | index base lbrack subscript rbrack, e', h => by
    cases e' with
    | index base' lbrack' subscript' rbrack' =>
      have hparts := (Json.Same.only h).2
      obtain rfl := eq_of_same base base' (hparts.field "x" rfl rfl)
      obtain rfl := Json.same_num_iff.mp (hparts.field "lbrack" rfl rfl)
      obtain rfl := eq_of_same subscript subscript' (hparts.field "index" rfl rfl)
      obtain rfl := Json.same_num_iff.mp (hparts.field "rbrack" rfl rfl)
      rfl
    | _ => exact absurd (Json.Same.only h).1 (by decide)
  | call callee lparen args rparen, e', h => by
    cases e' with
    | call callee' lparen' args' rparen' =>
      have hparts := (Json.Same.only h).2
      obtain rfl := eq_of_same callee callee' (hparts.field "fun" rfl rfl)
      obtain rfl := Json.same_num_iff.mp (hparts.field "lparen" rfl rfl)
      obtain rfl := all_eq_of_same args args' (Json.Same.items (hparts.field "args" rfl rfl))
      obtain rfl := Json.same_num_iff.mp (hparts.field "rparen" rfl rfl)
      rfl
    | _ => exact absurd (Json.Same.only h).1 (by decide)
  | unary opPos sign operand, e', h => by
    cases e' with
    | unary opPos' sign' operand' =>
      have hparts := (Json.Same.only h).2
      obtain rfl := Json.same_num_iff.mp (hparts.field "op_pos" rfl rfl)
      obtain rfl := Sign.name_injective (Json.same_str_iff.mp (hparts.field "op" rfl rfl))
      obtain rfl := eq_of_same operand operand' (hparts.field "x" rfl rfl)
      rfl
    | _ => exact absurd (Json.Same.only h).1 (by decide)
  | binary left opPos op right, e', h => by
    cases e' with
    | binary left' opPos' op' right' =>
      have hparts := (Json.Same.only h).2
      obtain rfl := eq_of_same left left' (hparts.field "x" rfl rfl)
      obtain rfl := Json.same_num_iff.mp (hparts.field "op_pos" rfl rfl)
      obtain rfl := Operator.name_injective (Json.same_str_iff.mp (hparts.field "op" rfl rfl))
      obtain rfl := eq_of_same right right' (hparts.field "y" rfl rfl)
      rfl
    | _ => exact absurd (Json.Same.only h).1 (by decide)

theorem all_eq_of_same :
    (es es' : List Expr) → List.Forall₂ Json.Same (toJsonAll es) (toJsonAll es') → es = es'
  | [], es', h => by
    cases es' with
    | nil => rfl
    | cons e' es' => cases h
  | e :: es, es', h => by
    cases es' with
    | nil => cases h
    | cons e' es' =>
      obtain ⟨hfirst, hrest⟩ := List.forall₂_cons.mp h
      rw [eq_of_same e e' hfirst, all_eq_of_same es es' hrest]

end

/-- Two expressions have the same JSON value only if they are the same expression, positions
included. -/
theorem same_toJson_iff (e e' : Expr) :
  e.toJson.Same e'.toJson ↔ e = e'
  := by
  constructor
  · apply eq_of_same
  · rintro rfl
    apply Json.same_refl

end Expr

end EquationLang
