import NativeLayout.LayoutError
import NativeLayout.Word

namespace NativeLayout

/-!
# Shapes

A `Shape` is what a field or a whole record looks like from outside: how many bytes it
holds, how its start is aligned, and the padding that belongs to it on either side.

* `Shape.padded?`, `Shape.plain?` — aligned shapes, refused when the alignment is no power
  of two or the bytes do not fit.
* `Shape.compressed` — a shape without alignment and padding.
* `Shape.extent`, `Shape.footprint` — the bytes it takes without and with leading padding.
-/

/-- Size, alignment and padding of one field or of a whole record. -/
structure Shape where
  /-- The value starts at a multiple of it. -/
  align : Nat
  /-- Whether the value is laid out without any padding. -/
  packed : Bool
  /-- Padding bytes in front of the value. -/
  pre : Nat
  /-- Bytes of the value itself. -/
  size : Nat
  /-- Padding bytes behind the value. -/
  post : Nat
  deriving DecidableEq, Repr

namespace Shape

/-- The bytes from the start of the value to the end of its trailing padding. -/
def extent (s : Shape) : Nat := s.size + s.post

/-- All bytes of the shape, padding on both sides included. -/
def footprint (s : Shape) : Nat := s.pre + s.size + s.post

/-- An aligned shape with padding on either side. -/
def padded? (size align pre post : Nat) : Except LayoutError Shape :=
  if align.isPowerOfTwo then
    if pre + size + post < Word.limit then
      .ok { align, packed := false, pre, size, post }
    else .error .overflow
  else .error (.notPowerOfTwo align)

/-- An aligned shape without padding. -/
def plain? (size align : Nat) : Except LayoutError Shape :=
  padded? size align 0 0

/-- A shape without alignment and padding. -/
def compressed (size : Nat) : Shape :=
  { align := 1, packed := true, pre := 0, size, post := 0 }

/-- The shape in one line. -/
def describe (s : Shape) : String :=
  s!"size={s.size} align={s.align} pad=[{s.pre}, {s.post}]" ++
    (if s.packed then " packed" else "")

/-! ### The constructors -/

@[simp] theorem extent_compressed (n : Nat) : (compressed n).extent = n := by
  simp [extent, compressed]

@[simp] theorem footprint_compressed (n : Nat) : (compressed n).footprint = n := by
  simp [footprint, compressed]

theorem footprint_eq (s : Shape) : s.footprint = s.pre + s.extent := by
  simp [footprint, extent, Nat.add_assoc]

/-- A padded shape exists if its alignment is a power of two and all of it fits a word. -/
theorem padded?_eq_ok_iff {size align pre post : Nat} {s : Shape} :
    padded? size align pre post = .ok s ↔
      align.isPowerOfTwo ∧ pre + size + post < Word.limit ∧ s = ⟨align, false, pre, size, post⟩ := by
  unfold padded?
  split
  · split
    · simp_all [eq_comm]
    · simp only [reduceCtorEq, false_iff]
      omega
  · simp_all

end Shape

end NativeLayout
