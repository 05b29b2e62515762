import Mathlib.Algebra.Group.Nat.Defs
import NativeLayout.Proofs.Layout.Rounding

namespace NativeLayout.Word

/-!
# Rounding in a register

* `roundUp?_eq_some_iff`, `roundUp?_eq_none_iff` — for a power of two that is a word, a result is the
  least multiple above the value, and there is none exactly when no such multiple is a word.
* `exists_roundUp?_le` — so every multiple above the value bounds the result, and shows that there is one.
* `Register.roundUp?` — the same rounding on 64 bits, with the carry of the sum as the failure, and
  `Register.map_toNat_roundUp?`: both agree, whatever the alignment is.
* `roundUp?_exact` — what follows for a value and an alignment.
-/

variable {value align m n : Nat}

/-! ### Least multiples -/

/-- A result is the least multiple above the value, and a word. -/
theorem roundUp?_eq_some_iff (h : align.isPowerOfTwo) (hword : align < limit) :
    roundUp? value align = some m ↔ IsLeast {m | align ∣ m ∧ value ≤ m} m ∧ m < limit := by
  have hleast := isLeast_roundUp value (pos_of_isPowerOfTwo h)
  rw [roundUp?_eq h hword]
  constructor
  · intro hm
    split at hm
    next hlt =>
      obtain rfl := Option.some.inj hm
      exact ⟨hleast, hlt⟩
    next => cases hm
  · rintro ⟨hm, hlt⟩
    obtain rfl := hm.unique hleast
    rw [if_pos hlt]

/-- There is no result exactly if no multiple above the value is a word. -/
theorem roundUp?_eq_none_iff (h : align.isPowerOfTwo) (hword : align < limit) :
    roundUp? value align = none ↔ ∀ m, align ∣ m → value ≤ m → limit ≤ m := by
  rw [roundUp?_eq h hword]
  constructor
  · intro hnone m hdvd hle
    split at hnone
    next => cases hnone
    next hlt => exact (Nat.le_of_not_lt hlt).trans (roundUp_le hdvd hle)
  · intro hall
    have hle := hall _ (dvd_roundUp value align) (le_roundUp value (pos_of_isPowerOfTwo h))
    rw [if_neg (Nat.not_lt.2 hle)]

/-- A multiple that is a word leaves no room for a failure, and none for a result behind it. -/
theorem exists_roundUp?_le (h : align.isPowerOfTwo) (hword : align < limit) (hdvd : align ∣ n)
    (hle : value ≤ n) (hlt : n < limit) : ∃ m ≤ n, roundUp? value align = some m := by
  cases hm : roundUp? value align with
  | none =>
    have hlimit := (roundUp?_eq_none_iff h hword).1 hm n hdvd hle
    omega
  | some m =>
    obtain ⟨hleast, -⟩ := (roundUp?_eq_some_iff h hword).1 hm
    exact ⟨m, hleast.2 ⟨hdvd, hle⟩, rfl⟩

/-! ### Registers -/

namespace Register

/-- Rounding in a register: the mask is added, which fails if the sum carries out of the register, and
then the bits of the mask are cleared. -/
def roundUp? (value align : BitVec 64) : Option (BitVec 64) :=
  let mask := align - 1
  if value.uaddOverflow mask then none else some ((value + mask) &&& ~~~mask)

/-- The bits of a mask and the other bits make up the whole. -/
theorem toNat_and_not (x mask : BitVec 64) :
    (x &&& ~~~mask).toNat = x.toNat - (x.toNat &&& mask.toNat) := by
  have hapart : (x &&& mask) &&& (x &&& ~~~mask) = 0#64 := by
    ext i
    cases hx : x[i] <;> simp [hx]
  have hjoin : (x &&& mask) ||| (x &&& ~~~mask) = x := by
    ext i
    cases hx : x[i] <;> simp [hx]
  have hsum := BitVec.toNat_add_of_and_eq_zero hapart
  rw [BitVec.add_eq_or_of_and_eq_zero _ _ hapart, hjoin, BitVec.toNat_and] at hsum
  omega

/-- The mask of the register finds what the arithmetic does. -/
theorem map_toNat_roundUp? (value : BitVec 64) {align : BitVec 64} (h : align ≠ 0) :
    (roundUp? value align).map BitVec.toNat = Word.roundUp? value.toNat align.toNat := by
  have hone : (1#64) ≤ align := by
    have hne : align.toNat ≠ 0 := fun hzero => h (BitVec.eq_of_toNat_eq hzero)
    rw [BitVec.le_def]
    exact Nat.one_le_iff_ne_zero.2 hne
  have hmask : (align - 1).toNat = align.toNat - 1 := BitVec.toNat_sub_of_le hone
  -- the addition in front of the mask carries exactly if the sum is no word
  have hcarry : value.uaddOverflow (align - 1) = true ↔
      ¬ value.toNat + (align.toNat - 1) < limit := by
    rw [← hmask, BitVec.uaddOverflow, decide_eq_true_iff, Nat.not_lt]
    rfl
  unfold roundUp? Word.roundUp? add?
  by_cases hfits : value.toNat + (align.toNat - 1) < limit
  · have hsum : (value + (align - 1)).toNat = value.toNat + (align.toNat - 1) := by
      rw [BitVec.toNat_add_of_not_uaddOverflow (fun ho => hcarry.1 ho hfits), hmask]
    simp only [if_neg (fun ho => hcarry.1 ho hfits), if_pos hfits, Option.map_some, toNat_and_not,
      hsum, hmask]
  · simp only [if_pos (hcarry.2 hfits), if_neg hfits, Option.map_none]

end Register

/-! ### Exact rounding -/

/-- Rounding a value up to a power of two is exact.  The result is the least multiple above the value,
and there is one exactly if this multiple is a word; it stays when it is rounded again; a smaller value
and a coarser alignment give no larger and no smaller result; and a register of 64 bits finds it. -/
theorem roundUp?_exact (value : Nat) (h : align.isPowerOfTwo) (hword : align ≤ 2 ^ 63) :
    (∀ m, roundUp? value align = some m ↔
      IsLeast {m | align ∣ m ∧ value ≤ m} m ∧ m < limit) ∧
    (roundUp? value align = none ↔ ∀ m, align ∣ m → value ≤ m → limit ≤ m) ∧
    (∀ m, roundUp? value align = some m → roundUp? m align = some m) ∧
    (∀ value' n, value ≤ value' → roundUp? value' align = some n →
      ∃ m ≤ n, roundUp? value align = some m) ∧
    (∀ coarse n, coarse.isPowerOfTwo → coarse ≤ 2 ^ 63 → align ∣ coarse →
      roundUp? value coarse = some n → ∃ m ≤ n, roundUp? value align = some m) ∧
    (∀ v a : BitVec 64, v.toNat = value → a.toNat = align →
      (Register.roundUp? v a).map BitVec.toNat = roundUp? value align) := by
  have hlt : ∀ {a : Nat}, a ≤ 2 ^ 63 → a < limit := fun ha => lt_of_le_of_lt ha (by decide)
  refine ⟨fun m => roundUp?_eq_some_iff h (hlt hword), roundUp?_eq_none_iff h (hlt hword), ?_, ?_, ?_,
    ?_⟩
  · -- a result is a multiple, and so it is the least one from itself on
    intro m hm
    obtain ⟨⟨⟨hdvd, -⟩, -⟩, hfits⟩ := (roundUp?_eq_some_iff h (hlt hword)).1 hm
    exact (roundUp?_eq_some_iff h (hlt hword)).2 ⟨⟨⟨hdvd, le_rfl⟩, fun _ hn => hn.2⟩, hfits⟩
  · -- what a larger value is rounded up to is a multiple above this one too
    intro value' n hle hn
    obtain ⟨⟨⟨hdvd, hfrom⟩, -⟩, hfits⟩ := (roundUp?_eq_some_iff h (hlt hword)).1 hn
    exact exists_roundUp?_le h (hlt hword) hdvd (hle.trans hfrom) hfits
  · -- and a multiple of the coarser alignment is one of the finer
    intro coarse n hcoarse hcoarseWord hdvd hn
    obtain ⟨⟨⟨hmultiple, hfrom⟩, -⟩, hfits⟩ := (roundUp?_eq_some_iff hcoarse (hlt hcoarseWord)).1 hn
    exact exists_roundUp?_le h (hlt hword) (Nat.dvd_trans hdvd hmultiple) hfrom hfits
  · rintro v a rfl rfl
    refine Register.map_toNat_roundUp? v fun hzero => ?_
    have hpos := pos_of_isPowerOfTwo h
    simp [hzero] at hpos

/-- The last multiple of 8 that is a word is the result for itself, and there is none behind it. -/
theorem roundUp?_exact_top :
    (8 : Nat).isPowerOfTwo ∧ 8 ≤ 2 ^ 63 ∧
    roundUp? (2 ^ 64 - 9) 8 = some (2 ^ 64 - 8) ∧ roundUp? (2 ^ 64 - 8) 8 = some (2 ^ 64 - 8) ∧
    roundUp? (2 ^ 64 - 7) 8 = none ∧ (∀ m, 8 ∣ m → 2 ^ 64 - 7 ≤ m → limit ≤ m) ∧
    (Register.roundUp? (BitVec.ofNat 64 (2 ^ 64 - 7)) 8).map BitVec.toNat = none := by
  have hpow : (8 : Nat).isPowerOfTwo := ⟨3, rfl⟩
  have hword : 8 ≤ 2 ^ 63 := by decide
  have hlast : roundUp? (2 ^ 64 - 9) 8 = some (2 ^ 64 - 8) := by decide +kernel
  have hnone : roundUp? (2 ^ 64 - 7) 8 = none := by decide +kernel
  obtain ⟨-, -, hagain, -⟩ := roundUp?_exact (2 ^ 64 - 9) hpow hword
  obtain ⟨-, hnoneIff, -, -, -, hregister⟩ := roundUp?_exact (2 ^ 64 - 7) hpow hword
  exact ⟨hpow, hword, hlast, hagain _ hlast, hnone, hnoneIff.1 hnone,
    (hregister _ _ (by decide) (by decide)).trans hnone⟩

end NativeLayout.Word
