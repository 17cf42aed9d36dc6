import EquationLang.Expr.Operator

/-!
# Expressions

The tree of an equation.  Every node knows the byte offset `pos` of its first character and the
offset `stop` just past its last one; a composite node has them from its children and from the
delimiters it stores.
-/

namespace EquationLang

/-- An expression, with the byte offsets of its leaves, delimiters and operators. -/
inductive Expr where
  /-- A stretch of text that is no expression.  Reading an equation never makes one. -/
  | bad (start stop : Nat)
  /-- A variable, or the name of a called function, as it is written. -/
  | ident (pos : Nat) (name : String)
  /-- A number, as it is written. -/
  | literal (pos : Nat) (value : String)
  | paren (lparen : Nat) (body : Expr) (rparen : Nat)
  | index (base : Expr) (lbrack : Nat) (subscript : Expr) (rbrack : Nat)
  | call (callee : Expr) (lparen : Nat) (args : List Expr) (rparen : Nat)
  | unary (opPos : Nat) (sign : Sign) (operand : Expr)
  | binary (left : Expr) (opPos : Nat) (op : Operator) (right : Expr)

namespace Expr

instance : Inhabited Expr := ⟨bad 0 0⟩

/-- The offset of the first character. -/
def pos : Expr → Nat
  | bad start _ => start
  | ident pos _ => pos
  | literal pos _ => pos
  | paren lparen _ _ => lparen
  | index base _ _ _ => base.pos
  | call callee _ _ _ => callee.pos
  | unary opPos _ _ => opPos
  | binary left _ _ _ => left.pos

/-- The offset just past the last character. -/
def stop : Expr → Nat
  | bad _ stop => stop
  | ident pos name => pos + name.utf8ByteSize
  | literal pos value => pos + value.utf8ByteSize
  | paren _ _ rparen => rparen + 1
  | index _ _ _ rbrack => rbrack + 1
  | call _ _ _ rparen => rparen + 1
  | unary _ _ operand => operand.stop
  | binary _ _ _ right => right.stop

/-- The direct subexpressions, in the order in which they are written. -/
def children : Expr → List Expr
  | bad .. | ident .. | literal .. => []
  | paren _ body _ => [body]
  | index base _ subscript _ => [base, subscript]
  | call callee _ args _ => callee :: args
  | unary _ _ operand => [operand]
  | binary left _ _ right => [left, right]

/-- The name of the node's shape in data. -/
def shape : Expr → String
  | bad .. => "Bad"
  | ident .. => "Ident"
  | literal .. => "BasicLit"
  | paren .. => "Paren"
  | index .. => "Index"
  | call .. => "Call"
  | unary .. => "Unary"
  | binary .. => "Binary"

/-! ### Equality -/

mutual

/-- Whether two expressions are equal, positions included. -/
def equals : Expr → Expr → Bool
  | bad start stop, bad start' stop' => start = start' && stop = stop'
  | ident pos name, ident pos' name' => pos = pos' && name = name'
  | literal pos value, literal pos' value' => pos = pos' && value = value'
  | paren lparen body rparen, paren lparen' body' rparen' =>
    lparen = lparen' && equals body body' && rparen = rparen'
  | index base lbrack subscript rbrack, index base' lbrack' subscript' rbrack' =>
    equals base base' && lbrack = lbrack' && equals subscript subscript' && rbrack = rbrack'
  | call callee lparen args rparen, call callee' lparen' args' rparen' =>
    equals callee callee' && lparen = lparen' && allEqual args args' && rparen = rparen'
  | unary opPos sign operand, unary opPos' sign' operand' =>
    opPos = opPos' && sign = sign' && equals operand operand'
  | binary left opPos op right, binary left' opPos' op' right' =>
    equals left left' && opPos = opPos' && op = op' && equals right right'
  | _, _ => false

/-- Whether two lists of expressions are equal, positions included. -/
def allEqual : List Expr → List Expr → Bool
  | [], [] => true
  | e :: es, e' :: es' => equals e e' && allEqual es es'
  | _, _ => false

end

mutual

theorem equals_iff : (e e' : Expr) → (e.equals e' ↔ e = e')
  | bad .., e' => by cases e' <;> simp [equals]
  | ident .., e' => by cases e' <;> simp [equals]
  | literal .., e' => by cases e' <;> simp [equals]
  | paren _ body _, e' => by
    cases e' <;> simp [equals, equals_iff body, and_assoc]
  | index base _ subscript _, e' => by
    cases e' <;> simp [equals, equals_iff base, equals_iff subscript, and_assoc]
  | call callee _ args _, e' => by
    cases e' <;> simp [equals, equals_iff callee, allEqual_iff args, and_assoc]
  | unary _ _ operand, e' => by
    cases e' <;> simp [equals, equals_iff operand, and_assoc]
  | binary left _ _ right, e' => by
    cases e' <;> simp [equals, equals_iff left, equals_iff right, and_assoc]

theorem allEqual_iff : (es es' : List Expr) → (allEqual es es' ↔ es = es')
  | [], es' => by cases es' <;> simp [allEqual]
  | e :: es, es' => by cases es' <;> simp [allEqual, equals_iff e, allEqual_iff es]

end

instance : DecidableEq Expr := fun e e' => decidable_of_iff _ (equals_iff e e')

end Expr

end EquationLang
