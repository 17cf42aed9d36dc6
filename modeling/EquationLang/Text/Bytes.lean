/-!
# Byte offsets

Texts are lists of characters, and places in them are offsets into their UTF-8 form.
`byteLength cs` is the number of bytes of `cs`; `slice? cs start stop` is the part of `cs` between
two offsets, which exists when both are boundaries between characters of `cs` and come in order.
-/

namespace EquationLang

/-- The number of bytes of the UTF-8 form of `cs`. -/
def byteLength : List Char → Nat
  | [] => 0
  | c :: cs => c.utf8Size + byteLength cs

@[simp]
theorem byteLength_nil :
  byteLength [] = 0
  := rfl

@[simp]
theorem byteLength_cons (c : Char) (cs : List Char) :
  byteLength (c :: cs) = c.utf8Size + byteLength cs
  := rfl

@[simp]
theorem byteLength_append (cs ds : List Char) :
  byteLength (cs ++ ds) = byteLength cs + byteLength ds
  := by
  induction cs with
  | nil => simp
  | cons c cs ih => rw [List.cons_append, byteLength_cons, byteLength_cons, ih, Nat.add_assoc]

/-- A string has as many bytes as its characters. -/
theorem utf8ByteSize_ofList (cs : List Char) :
  (String.ofList cs).utf8ByteSize = byteLength cs
  := by
  induction cs with
  | nil => simp
  | cons c cs ih =>
    rw [← List.singleton_append, String.ofList_append, String.utf8ByteSize_append, ih,
      ← String.singleton_eq_ofList]
    simp

theorem utf8ByteSize_eq_byteLength (s : String) :
  s.utf8ByteSize = byteLength s.toList
  := by
  rw [← utf8ByteSize_ofList, String.ofList_toList]

/-- What is left of `cs` after its first `n` bytes; `none` if the offset `n` lies inside a character
or past the end. -/
def dropBytes? : Nat → List Char → Option (List Char)
  | 0, cs => some cs
  | _ + 1, [] => none
  | n + 1, c :: cs => if c.utf8Size ≤ n + 1 then dropBytes? (n + 1 - c.utf8Size) cs else none

/-- The first `n` bytes of `cs`; `none` if the offset `n` lies inside a character or past the
end. -/
def takeBytes? : Nat → List Char → Option (List Char)
  | 0, _ => some []
  | _ + 1, [] => none
  | n + 1, c :: cs =>
    if c.utf8Size ≤ n + 1 then (takeBytes? (n + 1 - c.utf8Size) cs).map (c :: ·) else none

/-- The part of `cs` from the offset `start` up to the offset `stop`; `none` unless the offsets are
boundaries between characters and come in this order. -/
def slice? (cs : List Char) (start stop : Nat) : Option (List Char) :=
  if start ≤ stop then (dropBytes? start cs).bind (takeBytes? (stop - start)) else none

end EquationLang
