import Mathlib.Algebra.Ring.Nat
import Mathlib.Data.List.Forall2
import Mathlib.Order.MinMax
import NativeLayout.Proofs.Layout.Shapes
import NativeLayout.RecordLayout

namespace NativeLayout.RecordLayout

/-!
# The layout of a record is the least one

* `Admits` — the offsets that leave room for every field and its leading padding, with each
  field at a multiple of the alignment it gets.
* `leastOffsets` — offsets of that kind, none of which can be smaller (`leastOffsets_le`).
* `placeFields_eq` — the pass over the fields finds them, and it fails exactly when the last
  field ends behind the last word.
* `compute_isLeast` — the record ends at the least multiple of its alignment behind them.
-/

variable {cap start : Nat} {packed : Bool} {fields : List Shape} {offsets : List Nat}

/-! ### Offsets -/

/-- Whether the fields fit at these offsets, the first one from `start` on: each has its
alignment, and room for its leading padding behind the field before it. -/
def Admits (cap : Nat) (packed : Bool) : (start : Nat) → List Shape → List Nat → Prop
  | _, [], [] => True
  | start, field :: fields, offset :: offsets =>
    start + field.pre ≤ offset ∧ fieldAlign cap packed field ∣ offset ∧
      Admits cap packed (offset + field.extent) fields offsets
  | _, _, _ => False

/-- The end of the last field. -/
def stopOf : (start : Nat) → List Shape → List Nat → Nat
  | _, field :: fields, offset :: offsets => stopOf (offset + field.extent) fields offsets
  | start, _, _ => start

/-- The bytes in front of each field, from the end of the field before it. -/
def gapsOf : (start : Nat) → List Shape → List Nat → List Nat
  | start, field :: fields, offset :: offsets =>
    (offset - start) :: gapsOf (offset + field.extent) fields offsets
  | _, _, _ => []

/-- The largest alignment that a field gets, at least 1. -/
def recordAlign (cap : Nat) (packed : Bool) (fields : List Shape) : Nat :=
  (fields.map (fieldAlign cap packed)).foldr max 1

/-- Each field at the first place that its alignment and its leading padding allow. -/
def leastOffsets (cap : Nat) (packed : Bool) : (start : Nat) → List Shape → List Nat
  | _, [] => []
  | start, field :: fields =>
    let offset := Word.roundUp (start + field.pre) (fieldAlign cap packed field)
    offset :: leastOffsets cap packed (offset + field.extent) fields

/-- The limited alignment of a field is a power of two. -/
theorem fieldAlign_isPowerOfTwo (packed : Bool) {field : Shape} (hcap : cap.isPowerOfTwo)
    (h : field.align.isPowerOfTwo) :
    (fieldAlign cap packed field).isPowerOfTwo := by
  unfold fieldAlign
  split
  · exact ⟨0, rfl⟩
  · rcases min_choice field.align cap with hmin | hmin
    · exact (congrArg Nat.isPowerOfTwo hmin).mpr h
    · exact (congrArg Nat.isPowerOfTwo hmin).mpr hcap

/-- The limited alignment of a field is a word. -/
theorem fieldAlign_lt {field : Shape} (h : field.Built) :
    fieldAlign cap packed field < Word.limit := by
  unfold fieldAlign
  split
  · decide
  · exact lt_of_le_of_lt (min_le_left _ _) h.align_lt

/-- The least offsets are admitted: each is aligned, and behind the field before. -/
theorem admits_leastOffsets (packed : Bool) (hcap : cap.isPowerOfTwo)
    (h : ∀ f ∈ fields, f.Built) (start : Nat) :
    Admits cap packed start fields (leastOffsets cap packed start fields) := by
  induction fields generalizing start with
  | nil => trivial
  | cons field fields ih =>
    have hpow := fieldAlign_isPowerOfTwo packed hcap (h field (by simp)).isPowerOfTwo
    exact ⟨Word.le_roundUp _ (Word.pos_of_isPowerOfTwo hpow), Word.dvd_roundUp _ _,
      ih (fun f hf => h f (by simp [hf])) _⟩

/-- No offset can be smaller, not even when the fields start earlier. -/
theorem leastOffsets_le {other : Nat} (h : Admits cap packed other fields offsets)
    (hstart : start ≤ other) :
    List.Forall₂ (· ≤ ·) (leastOffsets cap packed start fields) offsets := by
  induction fields generalizing start other offsets with
  | nil =>
    cases offsets with
    | nil => exact .nil
    | cons => exact h.elim
  | cons field fields ih =>
    cases offsets with
    | nil => exact h.elim
    | cons offset offsets =>
      obtain ⟨hroom, hdvd, hrest⟩ := h
      -- the first place is the least one, so the other fields start no later either
      have hle : Word.roundUp (start + field.pre) (fieldAlign cap packed field) ≤ offset :=
        Word.roundUp_le hdvd (by omega)
      exact .cons hle (ih hrest (by omega))

/-- The fields end behind the place where they start. -/
theorem Admits.le_stopOf (h : Admits cap packed start fields offsets) :
    start ≤ stopOf start fields offsets := by
  induction fields generalizing start offsets with
  | nil => cases offsets <;> exact le_rfl
  | cons field fields ih =>
    cases offsets with
    | nil => exact h.elim
    | cons offset offsets =>
      obtain ⟨hroom, -, hrest⟩ := h
      have hlater := ih hrest
      rw [stopOf]
      omega

/-- The fields and the gaps between them fill the bytes from the start to the end. -/
theorem Admits.sum_gapsOf (h : Admits cap packed start fields offsets) :
    start + (fields.map Shape.extent).sum + (gapsOf start fields offsets).sum =
      stopOf start fields offsets := by
  induction fields generalizing start offsets with
  | nil => cases offsets <;> simp [gapsOf, stopOf]
  | cons field fields ih =>
    cases offsets with
    | nil => exact h.elim
    | cons offset offsets =>
      obtain ⟨hroom, -, hrest⟩ := h
      have hlater := ih hrest
      simp only [gapsOf, stopOf, List.map_cons, List.sum_cons]
      omega

/-! ### The alignment of the record -/

/-- The alignment of a record is a power of two. -/
theorem recordAlign_isPowerOfTwo (packed : Bool) (hcap : cap.isPowerOfTwo)
    (h : ∀ f ∈ fields, f.align.isPowerOfTwo) :
    (recordAlign cap packed fields).isPowerOfTwo := by
  induction fields with
  | nil => exact ⟨0, rfl⟩
  | cons field fields ih =>
    have hfield := fieldAlign_isPowerOfTwo packed hcap (h field (by simp))
    have hrest := ih fun f hf => h f (by simp [hf])
    rcases max_choice (fieldAlign cap packed field) (recordAlign cap packed fields) with hmax | hmax
    · exact (congrArg Nat.isPowerOfTwo hmax).mpr hfield
    · exact (congrArg Nat.isPowerOfTwo hmax).mpr hrest

/-- The alignment of a record is a word. -/
theorem recordAlign_lt (cap : Nat) (packed : Bool) (h : ∀ f ∈ fields, f.Built) :
    recordAlign cap packed fields < Word.limit := by
  induction fields with
  | nil => exact (by decide : 1 < Word.limit)
  | cons field fields ih =>
    exact max_lt (fieldAlign_lt (h field (by simp))) (ih fun f hf => h f (by simp [hf]))

/-- A packed record is not aligned. -/
theorem recordAlign_packed (cap : Nat) (fields : List Shape) : recordAlign cap true fields = 1 := by
  induction fields with
  | nil => rfl
  | cons field fields ih =>
    rw [recordAlign, List.map_cons, List.foldr_cons, ← recordAlign, ih]
    rfl

/-! ### The pass over the fields -/

/-- The least place for one field, unless it is no word. -/
theorem add?_bind_roundUp? {field : Shape} (hcap : cap.isPowerOfTwo) (h : field.Built) :
    (Word.add? start field.pre).bind (Word.roundUp? · (fieldAlign cap packed field)) =
      let offset := Word.roundUp (start + field.pre) (fieldAlign cap packed field)
      if offset < Word.limit then some offset else none := by
  have hpow := fieldAlign_isPowerOfTwo packed hcap h.isPowerOfTwo
  have hle := Word.le_roundUp (start + field.pre) (Word.pos_of_isPowerOfTwo hpow)
  by_cases hroom : start + field.pre < Word.limit
  · rw [Word.add?_eq_some_iff.2 ⟨hroom, rfl⟩, Option.bind_some,
      Word.roundUp?_eq hpow (fieldAlign_lt h)]
  · rw [Word.add?_eq_none_iff.2 (Nat.le_of_not_lt hroom), Option.bind_none]
    exact (if_neg (by omega)).symm

/-- The pass finds the least offsets.  It fails exactly when they do not end within a word: a
failure on the way is never premature, as everything behind it lies further on. -/
theorem placeFields_eq (hcap : cap.isPowerOfTwo) (h : ∀ f ∈ fields, f.Built)
    (hstart : start < Word.limit) :
    placeFields cap packed start fields =
      let offsets := leastOffsets cap packed start fields
      if stopOf start fields offsets < Word.limit then
        .ok ⟨offsets, gapsOf start fields offsets, stopOf start fields offsets,
          recordAlign cap packed fields⟩
      else .error .overflow := by
  induction fields generalizing start with
  | nil => simp [placeFields, leastOffsets, stopOf, gapsOf, recordAlign, hstart]
  | cons field fields ih =>
    have hfield := h field (by simp)
    have hfields : ∀ f ∈ fields, f.Built := fun f hf => h f (by simp [hf])
    simp only [placeFields, hfield.isPowerOfTwo, if_true, add?_bind_roundUp? hcap hfield,
      leastOffsets, stopOf, gapsOf]
    generalize Word.roundUp (start + field.pre) (fieldAlign cap packed field) = offset
    have hlater := (admits_leastOffsets packed hcap hfields
      (offset + field.extent)).le_stopOf
    -- the field fits if its end does, and it ends within the end of all fields
    by_cases hstop : offset + field.extent < Word.limit
    · have hoffset : offset < Word.limit := by omega
      simp only [hoffset, if_true, Word.add?_eq_some_iff.2 ⟨hstop, rfl⟩, ih hfields hstop]
      by_cases hend : stopOf (offset + field.extent) fields
          (leastOffsets cap packed (offset + field.extent) fields) < Word.limit
      · simp only [hend, if_true]
        rfl
      · simp only [hend, if_false]
    · rw [if_neg (show ¬ stopOf (offset + field.extent) fields
        (leastOffsets cap packed (offset + field.extent) fields) < Word.limit by omega)]
      by_cases hoffset : offset < Word.limit
      · simp only [hoffset, if_true, Word.add?_eq_none_iff.2 (Nat.le_of_not_lt hstop)]
      · simp only [hoffset, if_false]

/-! ### The record around them -/

/-- A record whose fields end at `stop` is closed at the least multiple of its alignment, if that
is a word. -/
theorem close_eq {placed : Placed} (hpow : placed.align.isPowerOfTwo)
    (hword : placed.align < Word.limit) (hstop : placed.stop < Word.limit)
    (hpacked : packed = true → placed.align = 1) :
    close packed placed =
      let total := Word.roundUp placed.stop placed.align
      if total < Word.limit then
        .ok ⟨placed.align, packed, 0, placed.stop, total - placed.stop⟩
      else .error .overflow := by
  have hle := Word.le_roundUp placed.stop (Word.pos_of_isPowerOfTwo hpow)
  cases packed with
  | true =>
    -- a packed record ends where its fields do
    simp only [hpacked rfl, Word.roundUp_one, close, if_true, hstop, Nat.sub_self]
    rfl
  | false =>
    simp only [close, Bool.false_eq_true, if_false, Word.roundUp?_eq hpow hword]
    by_cases htotal : Word.roundUp placed.stop placed.align < Word.limit
    · simp only [htotal, if_true]
      exact Shape.padded?_eq_ok_iff.2 ⟨hpow, by omega, rfl⟩
    · simp only [htotal, if_false]

/-- The layout of a record under a cap that is a power of two: among all offsets that its fields
can have there is a least choice, and the record ends at the least multiple of its alignment
behind them.  If that end is a word, this is the layout; if not, there is none. -/
theorem compute_isLeast (packed : Bool) (typeName : String) (hcap : cap.isPowerOfTwo)
    (hne : fields ≠ []) (h : ∀ f ∈ fields, f.Built) :
    ∃ offsets total,
      (Admits cap packed 0 fields offsets ∧
        ∀ others, Admits cap packed 0 fields others → List.Forall₂ (· ≤ ·) offsets others) ∧
      IsLeast {t | recordAlign cap packed fields ∣ t ∧ stopOf 0 fields offsets ≤ t} total ∧
      (Word.limit ≤ total → compute cap packed typeName fields = .error .overflow) ∧
      (total < Word.limit → ∃ layout, compute cap packed typeName fields = .ok layout ∧
        layout.offsets = offsets ∧
        layout.size = total ∧
        layout.shape.align = recordAlign cap packed fields ∧
        layout.shape.size = stopOf 0 fields offsets ∧
        layout.tail = total - stopOf 0 fields offsets ∧
        layout.gaps = gapsOf 0 fields offsets ∧
        layout.shape.packed = packed ∧
        (fields.map Shape.extent).sum + layout.gaps.sum + layout.tail = layout.size) := by
  have hpow := recordAlign_isPowerOfTwo packed hcap fun f hf => (h f hf).isPowerOfTwo
  have hword := recordAlign_lt cap packed h
  have hadmits := admits_leastOffsets packed hcap h 0
  refine ⟨leastOffsets cap packed 0 fields, _, ⟨hadmits, fun others ho => leastOffsets_le ho le_rfl⟩,
    Word.isLeast_roundUp _ (Word.pos_of_isPowerOfTwo hpow), ?_⟩
  have hsum := hadmits.sum_gapsOf
  have hplace : placeFields cap packed 0 fields = _ := placeFields_eq hcap h (by decide)
  -- from here on only what was shown of these offsets counts
  generalize leastOffsets cap packed 0 fields = offsets at hsum hplace ⊢
  have hle := Word.le_roundUp (stopOf 0 fields offsets) (Word.pos_of_isPowerOfTwo hpow)
  -- the record does not end before its fields do, so if their end is no word, its end is none
  by_cases hstop : stopOf 0 fields offsets < Word.limit
  · have hclose : close packed ⟨offsets, gapsOf 0 fields offsets, stopOf 0 fields offsets,
        recordAlign cap packed fields⟩ = _ :=
      close_eq hpow hword hstop fun hp => by rw [hp]; exact recordAlign_packed cap fields
    simp only [hstop, if_true] at hplace
    constructor
    · intro htotal
      simp only [compute, if_neg hne, hplace, hclose, if_neg (Nat.not_lt.2 htotal)]
    · intro htotal
      refine ⟨_, by simp only [compute, if_neg hne, hplace, hclose, if_pos htotal]; rfl, rfl, ?_, rfl,
        rfl, rfl, rfl, rfl, ?_⟩
      · simp only [size, Shape.extent]
        omega
      · simp only [tail, size, Shape.extent]
        omega
  · simp only [hstop, if_false] at hplace
    constructor
    · intro _
      simp only [compute, if_neg hne, hplace]
    · intro htotal
      omega

/-- Two fields, the second with leading padding and an alignment above the cap. -/
theorem compute_isLeast_padded :
    let fields : List Shape := [⟨2, false, 0, 2, 1⟩, ⟨8, false, 3, 8, 0⟩]
    Nat.isPowerOfTwo 4 ∧ fields ≠ [] ∧ (∀ f ∈ fields, f.Built) ∧
      ∃ layout, compute 4 false anonymous fields = .ok layout ∧ layout.offsets = [0, 8] ∧
        ∀ others, Admits 4 false 0 fields others → List.Forall₂ (· ≤ ·) [0, 8] others := by
  intro fields
  have hcap : Nat.isPowerOfTwo 4 := by decide
  have hne : fields ≠ [] := by decide
  have hbuilt : ∀ f ∈ fields, f.Built := by
    intro f hf
    rcases List.mem_pair.1 hf with rfl | rfl
    · exact .padded (by decide) (Shape.padded?_eq_ok_iff.2 ⟨by decide, by decide, rfl⟩)
    · exact .padded (by decide) (Shape.padded?_eq_ok_iff.2 ⟨by decide, by decide, rfl⟩)
  obtain ⟨offsets, total, ⟨-, hleast⟩, -, hover, hfit⟩ :=
    compute_isLeast false anonymous hcap hne hbuilt
  have hcompute : compute 4 false anonymous fields = .ok ⟨⟨4, false, 0, 16, 0⟩, [0, 8], [0, 5]⟩ := by
    decide
  -- there is a layout, so the record did not overflow
  have htotal : total < Word.limit := by
    by_contra hle
    cases (hover (Nat.le_of_not_lt hle)).symm.trans hcompute
  obtain ⟨layout, hlayout, rfl, -⟩ := hfit htotal
  cases hlayout.symm.trans hcompute
  exact ⟨hcap, hne, hbuilt, _, hcompute, rfl, hleast⟩

end NativeLayout.RecordLayout
