import NativeLayout.Proofs.Layout.Rounding
import NativeLayout.Shape

namespace NativeLayout.Shape

/-!
# Shapes that can be built

* `Built` — the shapes that the constructors give for words.
* `Built.isPowerOfTwo`, `Built.align_lt` — what all of them have in common.
-/

/-- The shapes that `padded?` and `compressed` build from words. -/
inductive Built : Shape → Prop where
  | padded {size align pre post : Nat} {s : Shape} (hword : align < Word.limit)
      (h : padded? size align pre post = .ok s) : Built s
  | compressed {size : Nat} (hword : size < Word.limit) : Built (compressed size)

variable {s : Shape}

theorem Built.isPowerOfTwo (h : s.Built) : s.align.isPowerOfTwo := by
  cases h with
  | padded _ h =>
    obtain ⟨hpow, -, rfl⟩ := padded?_eq_ok_iff.1 h
    exact hpow
  | compressed => exact ⟨0, rfl⟩

theorem Built.align_lt (h : s.Built) : s.align < Word.limit := by
  cases h with
  | padded hword h =>
    obtain ⟨-, -, rfl⟩ := padded?_eq_ok_iff.1 h
    exact hword
  | compressed => exact (by decide : 1 < Word.limit)

end NativeLayout.Shape
