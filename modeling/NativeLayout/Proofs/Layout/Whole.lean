import NativeLayout.Proofs.Layout.Least
import NativeLayout.Proofs.Layout.Spacing
import NativeLayout.Abi
import NativeLayout.ScalarType

namespace NativeLayout

/-!
# Shapes without leading padding that fill multiples of their alignment

* `RecordLayout.compute_eq_ok_iff`, `RecordLayout.compute_eq_ok` — a layout is what the pass over its
  fields found, closed at the least multiple of the largest alignment.
* `Shape.Whole` — no leading padding, and an extent that is a multiple of the alignment.
* `RecordLayout.whole_of_compute`, `ScalarType.whole_of_run?`, `Node.whole_of_arrayShape?` — records
  and runs of scalars are whole, and so are arrays of whole elements, one extent apart.
-/

/-- Every ABI limits alignments to a power of two. -/
theorem Abi.cap_isPowerOfTwo (abi : Abi) : abi.cap.isPowerOfTwo := by
  cases abi
  · exact ⟨4, rfl⟩
  · exact ⟨2, rfl⟩

/-- No leading padding, and an extent that is a multiple of the alignment. -/
structure Shape.Whole (s : Shape) : Prop where
  pow : s.align.isPowerOfTwo
  pre : s.pre = 0
  dvd : s.align ∣ s.extent
  packed : s.packed = true → s.align = 1

/-- A whole shape has an alignment, so it can be divided by. -/
theorem Shape.Whole.pos {s : Shape} (h : s.Whole) : 0 < s.align := Word.pos_of_isPowerOfTwo h.pow

namespace RecordLayout

variable {cap start : Nat} {packed : Bool} {typeName : String} {shapes : List Shape}
  {placed : Placed} {l : RecordLayout}

/-! ### The pass over the fields, once it succeeded -/

/-- What the pass over the fields collects is the largest of their limited alignments. -/
theorem align_of_placeFields (h : placeFields cap packed start shapes = .ok placed) :
    placed.align = recordAlign cap packed shapes := by
  induction shapes generalizing start placed with
  | nil => cases h; rfl
  | cons s shapes ih =>
    obtain ⟨-, offset, stop, later, -, -, hlater, rfl⟩ := placeFields_cons_eq_ok_iff.1 h
    show max (fieldAlign cap packed s) later.align = _
    rw [ih hlater]
    rfl

/-- The pass refuses any other alignment, so after a success there is none. -/
theorem isPowerOfTwo_of_placeFields (h : placeFields cap packed start shapes = .ok placed) :
    ∀ s ∈ shapes, s.align.isPowerOfTwo := by
  -- on the fields, as the pass goes through them
  induction shapes generalizing start placed with
  | nil => simp
  | cons s shapes ih =>
    obtain ⟨hs, offset, stop, later, -, -, hlater, rfl⟩ := placeFields_cons_eq_ok_iff.1 h
    exact List.forall_mem_cons.2 ⟨hs, ih hlater⟩

/-- The alignment that a record gets from its fields. -/
theorem align_of_placed (hcap : cap.isPowerOfTwo)
    (h : placeFields cap packed start shapes = .ok placed) :
    placed.align.isPowerOfTwo ∧ (packed = true → placed.align = 1) := by
  rw [align_of_placeFields h]
  constructor
  · exact recordAlign_isPowerOfTwo packed hcap (isPowerOfTwo_of_placeFields h)
  · rintro rfl
    exact recordAlign_packed cap shapes

/-- A field that got an offset is at the least place for it. -/
theorem eq_roundUp_of_bind {s : Shape} {offset : Nat} (hcap : cap.isPowerOfTwo)
    (hs : s.align.isPowerOfTwo)
    (h : (Word.add? start s.pre).bind (Word.roundUp? · (fieldAlign cap packed s)) = some offset) :
    offset = Word.roundUp (start + s.pre) (fieldAlign cap packed s) := by
  obtain ⟨begin, hbegin, hround⟩ := Option.bind_eq_some_iff.1 h
  obtain ⟨-, rfl⟩ := Word.add?_eq_some_iff.1 hbegin
  exact Word.eq_roundUp_of_roundUp? (fieldAlign_isPowerOfTwo packed hcap hs) hround

/-! ### The record around them -/

/-- A record that could be closed ends at the next multiple of its alignment; a packed one ends with its
last field. -/
theorem eq_of_close {s : Shape} (hpow : placed.align.isPowerOfTwo)
    (hpacked : packed = true → placed.align = 1) (h : close packed placed = .ok s) :
    s = ⟨placed.align, packed, 0, placed.stop,
      Word.roundUp placed.stop placed.align - placed.stop⟩ := by
  unfold close at h
  split at h
  next hp =>
    cases h
    rw [hp, hpacked hp, Word.roundUp_one, Nat.sub_self]
    rfl
  next hp =>
    split at h
    next => cases h
    next total htotal =>
      obtain ⟨-, -, rfl⟩ := Shape.padded?_eq_ok_iff.1 h
      rw [Word.eq_roundUp_of_roundUp? hpow htotal, Bool.eq_false_iff.2 hp]

/-- A layout is what the pass over its fields found, with a record closed around it. -/
theorem compute_eq_ok_iff :
    compute cap packed typeName shapes = .ok l ↔ shapes ≠ [] ∧ ∃ placed,
      placeFields cap packed 0 shapes = .ok placed ∧ close packed placed = .ok l.shape ∧
        l.offsets = placed.offsets ∧ l.gaps = placed.gaps := by
  obtain ⟨shape, offsets, gaps⟩ := l
  unfold compute
  by_cases hne : shapes = []
  · simp [hne]
  · cases hplaced : placeFields cap packed 0 shapes with
    | error e => simp [hne]
    | ok placed =>
      cases hclose : close packed placed with
      | error e => simp [hne, hclose]
      | ok t => simp [hne, hclose, eq_comm]

/-- A layout is what the pass over its fields found, closed at the least multiple of the largest
alignment. -/
theorem compute_eq_ok (hcap : cap.isPowerOfTwo) (h : compute cap packed typeName shapes = .ok l) :
    ∃ placed, placeFields cap packed 0 shapes = .ok placed ∧ placed.align.isPowerOfTwo ∧
      l = ⟨⟨placed.align, packed, 0, placed.stop,
        Word.roundUp placed.stop placed.align - placed.stop⟩, placed.offsets, placed.gaps⟩ := by
  obtain ⟨shape, offsets, gaps⟩ := l
  obtain ⟨-, placed, hplaced, hclose, rfl, rfl⟩ := compute_eq_ok_iff.1 h
  obtain ⟨hpow, hone⟩ := align_of_placed hcap hplaced
  obtain rfl := eq_of_close hpow hone hclose
  exact ⟨placed, hplaced, hpow, rfl⟩

/-- A layout has an offset and a gap for each field. -/
theorem length_of_compute (hcap : cap.isPowerOfTwo)
    (h : compute cap packed typeName shapes = .ok l) :
    l.offsets.length = shapes.length ∧ l.gaps.length = shapes.length := by
  obtain ⟨placed, hplaced, -, rfl⟩ := compute_eq_ok hcap h
  exact length_offsets_placeFields hplaced

/-- The record ends at the least multiple of its alignment behind its fields. -/
theorem size_eq_roundUp (hcap : cap.isPowerOfTwo) (h : compute cap packed typeName shapes = .ok l) :
    l.size = Word.roundUp l.shape.size l.shape.align := by
  obtain ⟨placed, -, hpow, rfl⟩ := compute_eq_ok hcap h
  have hle := Word.le_roundUp placed.stop (Word.pos_of_isPowerOfTwo hpow)
  show placed.stop + (Word.roundUp placed.stop placed.align - placed.stop) =
    Word.roundUp placed.stop placed.align
  omega

/-- **Records are whole.** The trailing padding was chosen for that. -/
theorem whole_of_compute (hcap : cap.isPowerOfTwo) (h : compute cap packed typeName shapes = .ok l) :
    l.shape.Whole := by
  have hsize := size_eq_roundUp hcap h
  obtain ⟨placed, hplaced, hpow, rfl⟩ := compute_eq_ok hcap h
  refine ⟨hpow, rfl, ?_, ?_⟩
  · show placed.align ∣ RecordLayout.size _
    rw [hsize]
    exact Word.dvd_roundUp _ _
  · rintro rfl
    show placed.align = 1
    rw [align_of_placeFields hplaced, recordAlign_packed]

/-- No field is more aligned than its record, once its alignment is limited. -/
theorem fieldAlign_le_recordAlign (cap : Nat) (packed : Bool) {s : Shape} (hs : s ∈ shapes) :
    fieldAlign cap packed s ≤ recordAlign cap packed shapes := by
  induction shapes with
  | nil => cases hs
  | cons t shapes ih =>
    rcases List.mem_cons.1 hs with rfl | hs
    · exact le_max_left _ _
    · exact le_trans (ih hs) (le_max_right _ _)

/-- No record is more aligned than the cap. -/
theorem recordAlign_le (shapes : List Shape) (hcap : 0 < cap) :
    recordAlign cap false shapes ≤ cap := by
  induction shapes with
  | nil => exact hcap
  | cons s shapes ih => exact max_le (min_le_right _ _) ih

/-- The cap may be replaced by the alignment of the record: no field tells the difference. -/
theorem min_align_eq_fieldAlign (hcap : cap.isPowerOfTwo)
    (h : compute cap packed typeName shapes = .ok l) {s : Shape} (hs : s ∈ shapes) :
    min s.align l.shape.align = fieldAlign cap packed s := by
  obtain ⟨placed, hplaced, -, rfl⟩ := compute_eq_ok hcap h
  show min s.align placed.align = _
  rw [align_of_placeFields hplaced]
  cases packed with
  | true =>
    rw [recordAlign_packed]
    exact min_eq_right (Word.pos_of_isPowerOfTwo (isPowerOfTwo_of_placeFields hplaced s hs))
  | false =>
    -- the largest alignment is at least that of the field, and at most the cap
    have hfield := fieldAlign_le_recordAlign cap false hs
    have hrecord := recordAlign_le shapes (Word.pos_of_isPowerOfTwo hcap)
    have hmin : fieldAlign cap false s = min s.align cap := rfl
    omega

end RecordLayout

/-! ### Leaves and arrays -/

/-- A run of scalars has the alignment of one of them, and as many bytes as all of them. -/
theorem ScalarType.whole_of_run? {t : ScalarType} {count : Nat} {s : Shape}
    (h : t.run? count = .ok s) : s.Whole ∧ s.extent = count * t.width ∧ s.align = t.width := by
  unfold ScalarType.run? at h
  split at h
  next => cases h
  next =>
    split at h
    next => cases h
    next size hsize =>
      obtain ⟨-, rfl⟩ := Word.mul?_eq_some_iff.1 hsize
      obtain ⟨hpow, -, rfl⟩ := Shape.padded?_eq_ok_iff.1 h
      have hextent : Shape.extent ⟨t.width, false, 0, t.width * count, 0⟩ = t.width * count := rfl
      exact ⟨⟨hpow, rfl, ⟨count, hextent⟩, by rintro ⟨⟩⟩, by rw [hextent, Nat.mul_comm], rfl⟩

namespace Node

/-- A whole element needs nothing between it and the next one. -/
theorem stride?_of_whole {element : Shape} {stride : Nat} (helement : element.Whole)
    (h : stride? element = some stride) : stride = element.extent := by
  have hfootprint : element.footprint = element.extent := by
    rw [Shape.footprint_eq, helement.pre, Nat.zero_add]
  unfold stride? at h
  rw [hfootprint] at h
  split at h
  · cases h
    rfl
  · rw [Word.eq_roundUp_of_roundUp? helement.pow h, Word.roundUp_of_dvd helement.pos helement.dvd]

/-- Elements stand a multiple of their alignment apart, so an array is whole whatever they are. -/
theorem whole_array {length stride : Nat} {element shape : Shape}
    (h : arrayShape? length element = .ok (stride, shape)) : shape.Whole := by
  obtain ⟨hstride, ⟨-, rfl⟩ | ⟨hpacked, hpow, rfl⟩⟩ := eq_of_arrayShape? h
  · exact ⟨⟨0, rfl⟩, rfl, Nat.one_dvd _, fun _ => rfl⟩
  · simp only [stride?, hpacked, Bool.false_eq_true, if_false] at hstride
    have hdvd : element.align ∣ stride := by
      rw [Word.eq_roundUp_of_roundUp? hpow hstride]
      exact Word.dvd_roundUp _ _
    exact ⟨hpow, rfl, Nat.dvd_mul_right_of_dvd hdvd length, by rintro ⟨⟩⟩

/-- Whole elements stand one extent apart, and the array is as aligned as they are. -/
theorem whole_of_arrayShape? {length stride : Nat} {element shape : Shape} (helement : element.Whole)
    (h : arrayShape? length element = .ok (stride, shape)) :
    shape.Whole ∧ shape.extent = length * element.extent ∧ shape.align = element.align := by
  refine ⟨whole_array h, ?_⟩
  obtain ⟨hstride, hshape⟩ := eq_of_arrayShape? h
  obtain rfl := stride?_of_whole helement hstride
  rcases hshape with ⟨hpacked, rfl⟩ | ⟨-, -, rfl⟩
  · rw [Shape.extent_compressed, Nat.mul_comm]
    exact ⟨rfl, (helement.packed hpacked).symm⟩
  · exact ⟨Nat.mul_comm _ _, rfl⟩

end Node

end NativeLayout
