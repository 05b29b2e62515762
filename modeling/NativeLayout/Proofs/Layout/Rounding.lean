import Mathlib.Order.Bounds.Basic
import NativeLayout.Word

namespace NativeLayout.Word

/-!
# Rounding up to an alignment

* `roundUp value align` — the least multiple of `align` that is not below `value`, on unbounded
  numbers (`isLeast_roundUp`).
* `roundUp?_eq` — for a power of two, clearing the low bits finds that multiple, and it fails
  exactly when the multiple is no word: never because of the sum it forms on the way.
-/

variable {value align m : Nat}

/-- The least multiple of `align` that is not below `value`. -/
def roundUp (value align : Nat) : Nat := (value + (align - 1)) / align * align

/-- The rounded value is a multiple. -/
theorem dvd_roundUp (value align : Nat) : align ∣ roundUp value align :=
  Nat.dvd_mul_left _ _

/-- It is not below the value. -/
theorem le_roundUp (value : Nat) (h : 0 < align) : value ≤ roundUp value align := by
  have hdiv := Nat.div_add_mod (value + (align - 1)) align
  have hmod := Nat.mod_lt (value + (align - 1)) h
  rw [roundUp, Nat.mul_comm]
  omega

/-- It is less than one alignment above the value. -/
theorem roundUp_le_add (value align : Nat) : roundUp value align ≤ value + (align - 1) :=
  Nat.div_mul_le_self _ _

/-- Every multiple above the value is above the rounded one. -/
theorem roundUp_le (h : align ∣ m) (hv : value ≤ m) : roundUp value align ≤ m := by
  obtain ⟨k, rfl⟩ := h
  rcases Nat.eq_zero_or_pos align with rfl | hpos
  · simp [roundUp]
  · rw [roundUp, Nat.mul_comm]
    refine Nat.mul_le_mul_left align ?_
    have hlt : value + (align - 1) < align * (k + 1) := by
      rw [Nat.mul_succ]
      omega
    exact Nat.lt_succ_iff.1 (Nat.div_lt_of_lt_mul hlt)

/-- **Rounding up** is to the least multiple. -/
theorem isLeast_roundUp (value : Nat) (h : 0 < align) :
    IsLeast {m | align ∣ m ∧ value ≤ m} (roundUp value align) :=
  ⟨⟨dvd_roundUp value align, le_roundUp value h⟩, fun _ hm => roundUp_le hm.1 hm.2⟩

/-- Every value is a multiple of one. -/
theorem roundUp_one (value : Nat) : roundUp value 1 = value := by
  simp [roundUp]

/-- A multiple stays where it is. -/
theorem roundUp_of_dvd (hpos : 0 < align) (h : align ∣ value) : roundUp value align = value :=
  Nat.le_antisymm (roundUp_le h le_rfl) (le_roundUp value hpos)

/-! ### Words -/

/-- A power of two is not zero. -/
theorem pos_of_isPowerOfTwo (h : align.isPowerOfTwo) : 0 < align := by
  obtain ⟨k, rfl⟩ := h
  exact Nat.two_pow_pos k

/-- Of two powers of two the smaller one divides the other. -/
theorem dvd_of_isPowerOfTwo {a b : Nat} (ha : a.isPowerOfTwo) (hb : b.isPowerOfTwo) (h : a ≤ b) :
    a ∣ b := by
  obtain ⟨j, rfl⟩ := ha
  obtain ⟨k, rfl⟩ := hb
  exact Nat.pow_dvd_pow 2 ((Nat.pow_le_pow_iff_right (by decide)).1 h)

/-- A power of two that is a word divides the number of words. -/
theorem dvd_limit (h : align.isPowerOfTwo) (hword : align < limit) : align ∣ limit := by
  obtain ⟨k, rfl⟩ := h
  have hk : k < 64 := (Nat.pow_lt_pow_iff_right (by decide)).1 hword
  exact Nat.pow_dvd_pow 2 (by omega)

/-- Clearing the bits below a power of two leaves a multiple of it. -/
theorem sub_and_mask (value : Nat) (h : align.isPowerOfTwo) :
    value - (value &&& (align - 1)) = value / align * align := by
  obtain ⟨k, rfl⟩ := h
  rw [Nat.and_two_pow_sub_one_eq_mod, Nat.mul_comm]
  have hdiv := Nat.div_add_mod value (2 ^ k)
  omega

/-- For a power of two a result is the least multiple, whatever words there are. -/
theorem eq_roundUp_of_roundUp? (h : align.isPowerOfTwo) (hm : roundUp? value align = some m) :
    m = roundUp value align := by
  obtain ⟨bumped, hadd, rfl⟩ := Option.map_eq_some_iff.1 hm
  obtain ⟨-, rfl⟩ := add?_eq_some_iff.1 hadd
  rw [sub_and_mask _ h, roundUp]

/-- Whatever the alignment, the result is not below the value. -/
theorem le_of_roundUp?_eq_some (h : roundUp? value align = some m) : value ≤ m := by
  obtain ⟨bumped, hadd, rfl⟩ := Option.map_eq_some_iff.1 h
  obtain ⟨-, rfl⟩ := add?_eq_some_iff.1 hadd
  have hand := Nat.and_le_right (n := value + (align - 1)) (m := align - 1)
  omega

/-- The sum that is formed on the way fits exactly when the result does: no multiple of the
alignment lies between them. -/
theorem add_lt_limit_iff (h : align.isPowerOfTwo) (hword : align < limit) :
    value + (align - 1) < limit ↔ roundUp value align < limit := by
  constructor
  · exact fun hlt => lt_of_le_of_lt (roundUp_le_add value align) hlt
  · intro hlt
    -- the limit is a multiple as well, so the next one after the result is at most the limit
    obtain ⟨q, hq⟩ := dvd_limit h hword
    obtain ⟨k, hk⟩ := dvd_roundUp value align
    have hkq : k < q := by
      rw [hk, hq] at hlt
      exact Nat.lt_of_mul_lt_mul_left hlt
    have hstep : align * k + align ≤ limit := by
      rw [hq, ← Nat.mul_succ]
      exact Nat.mul_le_mul_left align hkq
    have hpos := pos_of_isPowerOfTwo h
    have hle := le_roundUp value hpos
    omega

/-- **With words** it is the same, as long as the result is a word; the mask clears what the addition left
over. -/
theorem roundUp?_eq (h : align.isPowerOfTwo) (hword : align < limit) :
    roundUp? value align =
      if roundUp value align < limit then some (roundUp value align) else none := by
  simp only [roundUp?, add?, ← add_lt_limit_iff h hword]
  split
  · rw [Option.map_some, sub_and_mask _ h, roundUp]
  · rfl

end NativeLayout.Word
