import NativeLayout.ScalarType

namespace NativeLayout

/-!
# Values as bytes

* `Bytes.ofNat`, `Bytes.toNat` — numbers, least significant byte first.
* `ScalarType.encode`, `ScalarType.decode` — the values of a scalar type; a floating-point
  value stands for its bit pattern.
-/

namespace Bytes

/-- The `width` low bytes of a number, least significant first. -/
def ofNat : (width : Nat) → Nat → List UInt8
  | 0, _ => []
  | width + 1, n => UInt8.ofNat n :: ofNat width (n / 256)

/-- The number with these bytes, least significant first. -/
def toNat : List UInt8 → Nat
  | [] => 0
  | b :: rest => b.toNat + 256 * toNat rest

@[simp] theorem length_ofNat (width n : Nat) : (ofNat width n).length = width := by
  induction width generalizing n with
  | zero => rfl
  | succ width ih => simp [ofNat, ih]

/-- Of a number that is too large the upper bytes are lost. -/
theorem toNat_ofNat (width n : Nat) : toNat (ofNat width n) = n % Nat.pow 256 width := by
  induction width generalizing n with
  | zero => simp [ofNat, toNat, Nat.mod_one]
  | succ width ih =>
    simp only [ofNat, toNat, ih, UInt8.toNat_ofNat']
    have hw : Nat.pow 256 (width + 1) = 256 * Nat.pow 256 width := Nat.pow_succ'
    rw [hw, Nat.mod_mul]

end Bytes

namespace ScalarType

/-- Whether the values of the type have a sign. -/
def signed : ScalarType → Bool
  | i8 | i16 | i32 | i64 => true
  | _ => false

/-- Whether the values of the type are floating-point numbers. -/
def isFloat : ScalarType → Bool
  | f32 | f64 => true
  | _ => false

/-- The number of bit patterns of the type. -/
def patterns (t : ScalarType) : Nat := Nat.pow 256 t.width

/-- The bytes of a value. -/
def encode (t : ScalarType) (value : Int) : List UInt8 :=
  Bytes.ofNat t.width (value % t.patterns).toNat

/-- The value of some bytes; in a signed type the upper half of the patterns is negative. -/
def decode (t : ScalarType) (bytes : List UInt8) : Int :=
  let n := Bytes.toNat bytes
  if t.signed ∧ t.patterns / 2 ≤ n then n - t.patterns else n

/-- The values of the type. -/
def InRange (t : ScalarType) (value : Int) : Prop :=
  if t.signed then -(t.patterns / 2 : Nat) ≤ value ∧ value < (t.patterns / 2 : Nat)
  else 0 ≤ value ∧ value < t.patterns

@[simp] theorem length_encode (t : ScalarType) (value : Int) :
    (t.encode value).length = t.width := by
  simp [encode]

/-- Values survive being stored. -/
theorem decode_encode {t : ScalarType} {value : Int} (h : t.InRange value) :
    t.decode (t.encode value) = value := by
  have he : 2 * (t.patterns / 2) = t.patterns := by cases t <;> rfl
  have hp : 0 < t.patterns := by cases t <;> decide
  have hm : ((value % t.patterns).toNat : Int) = value % t.patterns :=
    Int.toNat_of_nonneg (Int.emod_nonneg _ (by omega))
  have hlt : (value % t.patterns).toNat < t.patterns := by
    have := Int.emod_lt_of_pos value (b := t.patterns) (by omega)
    omega
  have hb : Bytes.toNat (t.encode value) = (value % t.patterns).toNat := by
    rw [encode, Bytes.toNat_ofNat]
    exact Nat.mod_eq_of_lt hlt
  simp only [decode, hb]
  unfold InRange at h
  cases hs : t.signed
  · simp only [hs, Bool.false_eq_true, if_false, false_and] at h ⊢
    rw [hm, Int.emod_eq_of_lt h.1 h.2]
  · simp only [hs, if_true, true_and] at h ⊢
    -- a negative value is stored as the pattern that is larger by all patterns
    by_cases hneg : value < 0
    · have hv : value % t.patterns = value + t.patterns := by
        rw [← Int.add_emod_right, Int.emod_eq_of_lt (by omega) (by omega)]
      rw [if_pos (by omega), hm, hv]
      omega
    · rw [Int.emod_eq_of_lt (by omega) (by omega)] at hm ⊢
      rw [if_neg (by omega), hm]

end ScalarType

end NativeLayout
