namespace NativeLayout.Word

/-!
# 64-bit quantities

Sizes, offsets and addresses are natural numbers below `Word.limit`, which is `2 ^ 64`.  An
operation whose exact result does not fit answers `none` instead of wrapping.

* `add?`, `mul?` — sum and product, when they fit.
* `addSat` — the sum, cut off at the largest word.
* `roundUp?` — rounding up to an alignment by clearing the low bits.
-/

/-- Words are the numbers below this one. -/
def limit : Nat := Nat.pow 2 64

/-- The sum of two words, if it is a word. -/
def add? (a b : Nat) : Option Nat :=
  if a + b < limit then some (a + b) else none

/-- The product of two words, if it is a word. -/
def mul? (a b : Nat) : Option Nat :=
  if a * b < limit then some (a * b) else none

/-- The sum of two words, or the largest word if the sum is none. -/
def addSat (a b : Nat) : Nat :=
  min (a + b) (limit - 1)

/-- `value` moved past the next `align - 1` places, with the bits below `align` cleared.
For a power of two this is the least multiple of `align` that is not below `value`. -/
def roundUp? (value align : Nat) : Option Nat :=
  (add? value (align - 1)).map fun bumped => bumped - (bumped &&& (align - 1))

/-! ### When the results fit -/

/-- A sum that fits a word. -/
theorem add?_eq_some_iff {a b c : Nat} : add? a b = some c ↔ a + b < limit ∧ a + b = c := by
  simp [add?]

theorem add?_eq_none_iff {a b : Nat} : add? a b = none ↔ limit ≤ a + b := by
  simp [add?]

/-- A product that fits a word. -/
theorem mul?_eq_some_iff {a b c : Nat} : mul? a b = some c ↔ a * b < limit ∧ a * b = c := by
  simp [mul?]

theorem mul?_eq_none_iff {a b : Nat} : mul? a b = none ↔ limit ≤ a * b := by
  simp [mul?]

end NativeLayout.Word
