import EquationLang.Text.Bytes
import Mathlib.Tactic.Common

/-!
# Slices of a text

The part of a text between two offsets is cut out exactly if the text falls into three parts of
which the first one ends and the last one begins at these offsets (`slice?_append`).
-/

namespace EquationLang

theorem dropBytes?_append (before cs : List Char) :
  dropBytes? (byteLength before) (before ++ cs) = some cs
  := by
  induction before with
  | nil => rw [byteLength_nil, List.nil_append, dropBytes?]
  | cons c before ih =>
    obtain ⟨n, hn⟩ := Nat.exists_eq_succ_of_ne_zero (Nat.ne_of_gt c.utf8Size_pos)
    rw [byteLength_cons, List.cons_append, hn, Nat.succ_add, dropBytes?, hn, if_pos (by omega),
      show n + byteLength before + 1 - n.succ = byteLength before by omega, ih]

/-- What is taken off a text goes beyond its first part. -/
theorem takeBytes?_append_add (part cs : List Char) (n : Nat) :
  takeBytes? (byteLength part + n) (part ++ cs) = (takeBytes? n cs).map (part ++ ·)
  := by
  induction part with
  | nil => simp
  | cons c part ih =>
    obtain ⟨m, hm⟩ := Nat.exists_eq_succ_of_ne_zero (Nat.ne_of_gt c.utf8Size_pos)
    have hrest : c.utf8Size + byteLength part + n = m + byteLength part + n + 1 := by omega
    rw [byteLength_cons, List.cons_append, hrest, takeBytes?, if_pos (by omega),
      show m + byteLength part + n + 1 - c.utf8Size = byteLength part + n by omega, ih,
      Option.map_map]
    rfl

theorem takeBytes?_append (part cs : List Char) :
  takeBytes? (byteLength part) (part ++ cs) = some part
  := by
  have htake := takeBytes?_append_add part cs 0
  rw [takeBytes?, Option.map_some, List.append_nil] at htake
  exact htake

/-- The part of a text between the offsets where it begins and ends. -/
theorem slice?_append (before part behind : List Char) :
  slice? (before ++ (part ++ behind)) (byteLength before) (byteLength before + byteLength part)
    = some part
  := by
  rw [slice?, if_pos (Nat.le_add_right _ _), dropBytes?_append, Nat.add_sub_cancel_left]
  apply takeBytes?_append

theorem exists_of_dropBytes? {n : Nat} {cs rest : List Char} (h : dropBytes? n cs = some rest) :
  ∃ before, cs = before ++ rest ∧ byteLength before = n
  := by
  fun_induction dropBytes? n cs with
  | case1 cs =>
    obtain rfl := Option.some.inj h
    exact ⟨[], rfl, rfl⟩
  | case2 => cases h
  | case3 n c cs hle ih =>
    obtain ⟨before, rfl, hbefore⟩ := ih h
    use c :: before, rfl
    rw [byteLength_cons, hbefore]
    omega
  | case4 => cases h

theorem exists_of_takeBytes? {n : Nat} {cs part : List Char} (h : takeBytes? n cs = some part) :
  ∃ behind, cs = part ++ behind ∧ byteLength part = n
  := by
  fun_induction takeBytes? n cs generalizing part with
  | case1 cs =>
    obtain rfl := Option.some.inj h
    exact ⟨cs, rfl, rfl⟩
  | case2 => cases h
  | case3 n c cs hle ih =>
    obtain ⟨part, hpart, rfl⟩ := Option.map_eq_some_iff.mp h
    obtain ⟨behind, rfl, hlength⟩ := ih hpart
    use behind, rfl
    rw [byteLength_cons, hlength]
    omega
  | case4 => cases h

/-- A part of a text stands between two offsets if the text falls into three parts there. -/
theorem slice?_eq_some_iff {cs part : List Char} {start stop : Nat} :
  slice? cs start stop = some part
    ↔ ∃ before behind, cs = before ++ (part ++ behind) ∧ byteLength before = start
      ∧ start + byteLength part = stop
  := by
  constructor
  · intro h
    rw [slice?] at h
    split at h
    · next hle =>
      obtain ⟨rest, hdrop, htake⟩ := Option.bind_eq_some_iff.mp h
      obtain ⟨before, rfl, hbefore⟩ := exists_of_dropBytes? hdrop
      obtain ⟨behind, rfl, hpart⟩ := exists_of_takeBytes? htake
      refine ⟨before, behind, rfl, hbefore, ?_⟩
      rw [hpart, Nat.add_sub_cancel' hle]
    · cases h
  · rintro ⟨before, behind, rfl, rfl, rfl⟩
    apply slice?_append

/-- A part of a text falls into the parts that it is put together from. -/
theorem slice?_of_append {cs : List Char} (part : List Char) {part' : List Char} {start stop : Nat}
    (h : slice? cs start stop = some (part ++ part')) :
  slice? cs start (start + byteLength part) = some part
    ∧ slice? cs (start + byteLength part) stop = some part'
  := by
  obtain ⟨before, behind, rfl, rfl, rfl⟩ := slice?_eq_some_iff.mp h
  constructor
  · rw [List.append_assoc]
    apply slice?_append
  · apply slice?_eq_some_iff.mpr
    use before ++ part, behind
    simp [Nat.add_assoc]

theorem byteLength_pos {cs : List Char} (h : cs ≠ []) :
  0 < byteLength cs
  := by
  obtain ⟨c, cs, rfl⟩ := List.exists_cons_of_ne_nil h
  rw [byteLength_cons]
  exact Nat.add_pos_left c.utf8Size_pos _

/-- Of two parts that a text begins with, the longer one goes on after the shorter one. -/
theorem exists_append_of_byteLength_le {cs cs' rest rest' : List Char}
    (h : cs ++ rest = cs' ++ rest') (hle : byteLength cs ≤ byteLength cs') :
  ∃ middle, cs' = cs ++ middle ∧ rest = middle ++ rest'
  := by
  obtain ⟨middle, hmiddle⟩ | ⟨middle, rfl, hrest⟩ := List.append_eq_append_iff.mp h
  · exact ⟨middle, hmiddle⟩
  · obtain rfl : middle = [] := by
      by_contra hne
      have := byteLength_pos hne
      rw [byteLength_append] at hle
      omega
    exact ⟨[], by simp, hrest.symm⟩

/-- A part of a longer text that stops where the text `cs` does or earlier is a part of `cs`. -/
theorem slice?_of_append_right {cs behind part : List Char} {start stop : Nat}
    (h : slice? (cs ++ behind) start stop = some part) (hstop : stop ≤ byteLength cs) :
  slice? cs start stop = some part
  := by
  obtain ⟨before, behind', htext, rfl, rfl⟩ := slice?_eq_some_iff.mp h
  rw [← byteLength_append] at hstop
  rw [← List.append_assoc] at htext
  obtain ⟨middle, rfl, -⟩ := exists_append_of_byteLength_le htext.symm hstop
  rw [List.append_assoc]
  apply slice?_append

/-! ### Boundaries -/

/-- The text falls into two parts at the offset. -/
def IsBoundary (cs : List Char) (offset : Nat) : Prop :=
  ∃ before behind, cs = before ++ behind ∧ byteLength before = offset

theorem IsBoundary.le {cs : List Char} {offset : Nat} (h : IsBoundary cs offset) :
  offset ≤ byteLength cs
  := by
  obtain ⟨before, behind, rfl, rfl⟩ := h
  rw [byteLength_append]
  apply Nat.le_add_right

/-- The part up to an earlier boundary is the beginning of the part up to a later one. -/
theorem exists_slices {cs : List Char} {start stop stop' : Nat} (hstart : IsBoundary cs start)
    (hstop : IsBoundary cs stop) (hstop' : IsBoundary cs stop') (hle : start ≤ stop)
    (hle' : stop ≤ stop') :
  ∃ part more, slice? cs start stop = some part ∧ slice? cs start stop' = some (part ++ more)
  := by
  obtain ⟨before, behind, rfl, rfl⟩ := hstart
  obtain ⟨_, _, hsplit, rfl⟩ := hstop
  obtain ⟨part, rfl, rfl⟩ := exists_append_of_byteLength_le hsplit hle
  obtain ⟨_, behind', hsplit', rfl⟩ := hstop'
  rw [← List.append_assoc] at hsplit'
  obtain ⟨more, rfl, rfl⟩ := exists_append_of_byteLength_le hsplit' hle'
  use part, more
  constructor
  · rw [byteLength_append]
    apply slice?_append
  · rw [List.append_assoc before, byteLength_append before, ← List.append_assoc part]
    apply slice?_append

/-! ### Single characters -/

/-- The character that starts at an offset; `none` at the end of the text, past it, and inside a
character. -/
def charAt? (cs : List Char) (offset : Nat) : Option Char := (dropBytes? offset cs).bind List.head?

theorem charAt?_append (before cs : List Char) :
  charAt? (before ++ cs) (byteLength before) = cs.head?
  := by
  rw [charAt?, dropBytes?_append, Option.bind_some]

/-- The first character of a part of a text stands where the part begins. -/
theorem charAt?_of_slice? {cs part : List Char} {start stop : Nat} {c : Char}
    (h : slice? cs start stop = some (c :: part)) :
  charAt? cs start = some c
  := by
  obtain ⟨before, behind, rfl, rfl, -⟩ := slice?_eq_some_iff.mp h
  apply charAt?_append

/-- A character that starts within a part of the text is one of that part. -/
theorem mem_of_charAt? {cs part : List Char} {start stop p : Nat} {c : Char}
    (hslice : slice? cs start stop = some part) (hc : charAt? cs p = some c) (hstart : start ≤ p)
    (hstop : p < stop) :
  ∃ before behind, part = before ++ c :: behind ∧ p = start + byteLength before
  := by
  obtain ⟨before, behind, rfl, rfl, rfl⟩ := slice?_eq_some_iff.mp hslice
  obtain ⟨rest, hdrop, hhead⟩ := Option.bind_eq_some_iff.mp hc
  obtain ⟨before', hsplit, rfl⟩ := exists_of_dropBytes? hdrop
  obtain ⟨rest, rfl⟩ := List.head?_eq_some_iff.mp hhead
  obtain ⟨middle, rfl, hpart⟩ := exists_append_of_byteLength_le hsplit hstart
  rw [byteLength_append] at hstop ⊢
  obtain ⟨middle', rfl, hrest⟩ := exists_append_of_byteLength_le hpart.symm (by omega)
  cases middle' with
  | nil =>
    rw [List.append_nil] at hstop
    omega
  | cons d middle' =>
    obtain ⟨rfl, -⟩ := List.cons.inj hrest
    exact ⟨middle, middle', rfl, rfl⟩

end EquationLang
