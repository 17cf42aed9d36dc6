import EquationLang.Diagnostic.Code
import EquationLang.Position.Basic

/-!
# Diagnostics

A diagnostic reports one fault at a position.  Diagnostics are collected in the order in which they
are reported, and `Diagnostics.sorted` keeps, of those at one offset, the one reported first, since
the later ones are most often consequences of it.
-/

namespace EquationLang

/-- A fault, with the wording for the reader and the position where it was found. -/
structure Diagnostic where
  code : Diagnostic.Code
  message : String
  pos : Position
deriving DecidableEq

/-- The diagnostic in one line: position and message. -/
def Diagnostic.text (d : Diagnostic) : String := d.pos.text ++ ": " ++ d.message

/-- Diagnostics in the order in which they were reported. -/
structure Diagnostics where
  toList : List Diagnostic := []
deriving DecidableEq

namespace Diagnostics

instance : EmptyCollection Diagnostics := ⟨⟨[]⟩⟩

instance : Append Diagnostics := ⟨fun ds es => ⟨ds.toList ++ es.toList⟩⟩

/-- Report one more diagnostic. -/
def push (ds : Diagnostics) (d : Diagnostic) : Diagnostics := ⟨ds.toList ++ [d]⟩

/-- Move all diagnostics of `source` to the end of `target`; returns `target` and the emptied
`source`. -/
def moveTo (source target : Diagnostics) : Diagnostics × Diagnostics := (target ++ source, ∅)

/-- Whether nothing was reported. -/
def isEmpty (ds : Diagnostics) : Bool := ds.toList.isEmpty

/-- The number of reports. -/
def size (ds : Diagnostics) : Nat := ds.toList.length

/-- Insert `d` into a list in increasing order of offsets, unless an entry has its offset. -/
def insertByOffset (d : Diagnostic) : List Diagnostic → List Diagnostic
  | [] => [d]
  | e :: es =>
    if d.pos.offset < e.pos.offset then d :: e :: es
    else if d.pos.offset = e.pos.offset then e :: es
    else e :: insertByOffset d es

/-- The diagnostics in order of their offsets, for each offset the one reported first. -/
def sorted (ds : Diagnostics) : List Diagnostic :=
  ds.toList.foldl (fun es d => insertByOffset d es) []

end Diagnostics

end EquationLang
