import NativeLayout.Fault
import NativeLayout.Word

namespace NativeLayout

/-!
# Windows

* `Window` — a run of the indices of an array.
* `Window.cut` — a window of a window.
* `Window.index` — the index in the array for an index in the window.
-/

/-- The indices `start`, …, `start + length - 1`. -/
structure Window where
  start : Nat
  length : Nat
  deriving DecidableEq, Repr

namespace Window

/-- All indices of an array. -/
def whole (length : Nat) : Window := { start := 0, length }

/-- The window of `count` indices from `start` on, counted in the window it is cut from. -/
def cut (w : Window) (start count : Nat) : Except Fault Window :=
  if start + count ≤ w.length then .ok { start := w.start + start, length := count }
  else .error (.outOfRange (Word.addSat start (count - 1)) w.length)

/-- The index in the array. -/
def index (w : Window) (i : Nat) : Except Fault Nat :=
  if i < w.length then .ok (w.start + i) else .error (.outOfRange i w.length)

/-- The indices in the array, in order. -/
def indices (w : Window) : List Nat := (List.range w.length).map (w.start + ·)

/-- A window that is cut from another one can be cut at once from what that was cut from. -/
theorem cut_cut {w v u : Window} {a n b m : Nat} (h₁ : w.cut a n = .ok v)
    (h₂ : v.cut b m = .ok u) : w.cut (a + b) m = .ok u := by
  unfold cut at *
  split at h₁ <;> cases h₁
  split at h₂ <;> cases h₂
  rw [if_pos (by simp_all; omega)]
  simp [Nat.add_assoc]

end Window

end NativeLayout
