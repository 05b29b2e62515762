import NativeLayout.Node.Resolve
import NativeLayout.Proofs.Layout.Rounding

namespace NativeLayout

/-!
# Fields and elements do not overlap

* `RecordLayout.Spaced` — fields one behind the other, each with room for its leading padding.
* `RecordLayout.spaced_compute` — the fields of every layout are spaced, whatever the cap on their
  alignment; `Spaced.inside` and `Spaced.apart` say what that means for one field and for two.
* `Node.eq_of_arrayShape?`, `Node.arrayShape?_eq_ok` — the shape of an array: an element fits
  between two strides, and all of them fit the array.
-/

namespace RecordLayout

/-- Fields at offsets one behind the other, from `start` on and up to `stop`. -/
def Spaced : (start : Nat) → List Shape → List Nat → (stop : Nat) → Prop
  | start, [], [], stop => start = stop
  | start, s :: shapes, offset :: offsets, stop =>
    start + s.pre ≤ offset ∧ Spaced (offset + s.extent) shapes offsets stop
  | _, _, _, _ => False

variable {start stop : Nat} {shapes : List Shape} {offsets : List Nat}

/-- There is an offset for each shape. -/
theorem Spaced.length_eq (h : Spaced start shapes offsets stop) :
    offsets.length = shapes.length := by
  induction shapes generalizing start offsets with
  | nil =>
    cases offsets with
    | nil => rfl
    | cons => exact h.elim
  | cons s shapes ih =>
    cases offsets with
    | nil => exact h.elim
    | cons offset offsets => exact congrArg (· + 1) (ih h.2)

/-- Fields one behind the other end behind their start. -/
theorem Spaced.le (h : Spaced start shapes offsets stop) : start ≤ stop := by
  induction shapes generalizing start offsets with
  | nil =>
    cases offsets with
    | nil => exact Nat.le_of_eq h
    | cons => exact h.elim
  | cons s shapes ih =>
    cases offsets with
    | nil => exact h.elim
    | cons offset offsets =>
      obtain ⟨hroom, hrest⟩ := h
      have hstop := ih hrest
      omega

/-- A field and its leading padding are between the start and the stop. -/
theorem Spaced.inside (h : Spaced start shapes offsets stop) {k : Nat} {s : Shape} {offset : Nat}
    (hs : shapes[k]? = some s) (ho : offsets[k]? = some offset) :
    start + s.pre ≤ offset ∧ offset + s.extent ≤ stop := by
  induction shapes generalizing start offsets k with
  | nil => simp at hs
  | cons t shapes ih =>
    cases offsets with
    | nil => exact h.elim
    | cons first offsets =>
      obtain ⟨hroom, hrest⟩ := h
      cases k with
      | zero =>
        cases hs
        cases ho
        exact ⟨hroom, hrest.le⟩
      | succ k =>
        obtain ⟨hbefore, hbehind⟩ := ih hrest (by simpa using hs) (by simpa using ho)
        -- the fields behind the first one start where it ends, which is not in front of the start
        exact ⟨by omega, hbehind⟩

/-- A field ends before the leading padding of every later one. -/
theorem Spaced.apart (h : Spaced start shapes offsets stop) {j k : Nat} (hjk : j < k) {s t : Shape}
    {offset other : Nat} (hs : shapes[j]? = some s) (ho : offsets[j]? = some offset)
    (ht : shapes[k]? = some t) (ho' : offsets[k]? = some other) :
    offset + s.extent + t.pre ≤ other := by
  induction shapes generalizing start offsets j k with
  | nil => simp at hs
  | cons first shapes ih =>
    cases offsets with
    | nil => exact h.elim
    | cons o offsets =>
      obtain ⟨-, hrest⟩ := h
      obtain ⟨k, rfl⟩ : ∃ i, k = i + 1 := Nat.exists_eq_add_one.2 (Nat.zero_lt_of_lt hjk)
      have ht : shapes[k]? = some t := by simpa using ht
      have ho' : offsets[k]? = some other := by simpa using ho'
      -- the later field is behind the first one, so only the earlier one can be it
      cases j with
      | zero =>
        cases hs
        cases ho
        exact (hrest.inside ht ho').1
      | succ j => exact ih hrest (Nat.lt_of_succ_lt_succ hjk) (by simpa using hs) (by simpa using ho) ht ho'

/-! ### Layouts -/

/-- The pass over the fields places them one behind the other. -/
theorem spaced_placeFields {cap : Nat} {packed : Bool} {placed : Placed}
    (h : placeFields cap packed start shapes = .ok placed) :
    Spaced start shapes placed.offsets placed.stop := by
  induction shapes generalizing start placed with
  | nil =>
    cases h
    rfl
  | cons s shapes ih =>
    obtain ⟨-, offset, stop, later, hoffset, hstop, hlater, rfl⟩ := placeFields_cons_eq_ok_iff.1 h
    obtain ⟨begin, hbegin, hround⟩ := Option.bind_eq_some_iff.1 hoffset
    obtain ⟨-, rfl⟩ := Word.add?_eq_some_iff.1 hbegin
    obtain ⟨-, rfl⟩ := Word.add?_eq_some_iff.1 hstop
    exact ⟨Word.le_of_roundUp?_eq_some hround, ih hlater⟩

/-- A record starts with its first field, and its value ends with the last one. -/
theorem close_eq_ok {packed : Bool} {placed : Placed} {s : Shape} (h : close packed placed = .ok s) :
    s.pre = 0 ∧ s.size = placed.stop := by
  unfold close at h
  split at h
  next => cases h; exact ⟨rfl, rfl⟩
  next =>
    split at h
    next => cases h
    next =>
      obtain ⟨-, -, rfl⟩ := Shape.padded?_eq_ok_iff.1 h
      exact ⟨rfl, rfl⟩

/-- The fields of a layout fill the record from its first byte to the end of its size. -/
theorem spaced_compute {cap : Nat} {packed : Bool} {typeName : String} {l : RecordLayout}
    (h : compute cap packed typeName shapes = .ok l) :
    l.shape.pre = 0 ∧ Spaced 0 shapes l.offsets l.shape.size := by
  unfold compute at h
  split at h
  next => cases h
  next =>
    split at h
    next => cases h
    next placed hplaced =>
      split at h
      next => cases h
      next shape hclose =>
        cases h
        obtain ⟨hpre, hsize⟩ := close_eq_ok hclose
        exact ⟨hpre, hsize ▸ spaced_placeFields hplaced⟩

end RecordLayout

namespace Node

/-! ### Arrays -/

/-- An element fits between its start and the next one. -/
theorem footprint_le_of_stride? {element : Shape} {stride : Nat} (h : stride? element = some stride) :
    element.footprint ≤ stride := by
  unfold stride? at h
  split at h
  · cases h
    exact Nat.le_refl _
  · exact Word.le_of_roundUp?_eq_some h

/-- The shape of an array: a packed one for packed elements, else one that is aligned like them. -/
theorem eq_of_arrayShape? {length stride : Nat} {element shape : Shape}
    (h : arrayShape? length element = .ok (stride, shape)) :
    stride? element = some stride ∧
      (element.packed = true ∧ shape = .compressed (stride * length) ∨
        element.packed = false ∧ element.align.isPowerOfTwo ∧
          shape = ⟨element.align, false, 0, stride * length, 0⟩) := by
  unfold arrayShape? at h
  split at h
  next => cases h
  next stride' hstride =>
    split at h
    next => cases h
    next size hsize =>
      -- all elements fit a word; what is left to fail is their alignment
      obtain ⟨-, rfl⟩ := Word.mul?_eq_some_iff.1 hsize
      split at h
      next hpacked =>
        cases h
        exact ⟨hstride, .inl ⟨hpacked, rfl⟩⟩
      next hpacked =>
        cases hplain : Shape.plain? (stride' * length) element.align with
        | error =>
          rw [hplain] at h
          cases h
        | ok plain =>
          rw [hplain] at h
          cases h
          obtain ⟨hpow, -, rfl⟩ := Shape.padded?_eq_ok_iff.1 hplain
          exact ⟨hstride, .inr ⟨Bool.eq_false_iff.2 hpacked, hpow, rfl⟩⟩

/-- An element fits between two strides, and the strides of all elements make up the array. -/
theorem arrayShape?_eq_ok {length stride : Nat} {element shape : Shape}
    (h : arrayShape? length element = .ok (stride, shape)) :
    element.footprint ≤ stride ∧ shape.pre = 0 ∧ shape.size = stride * length := by
  obtain ⟨hstride, ⟨-, rfl⟩ | ⟨-, -, rfl⟩⟩ := eq_of_arrayShape? h
  · exact ⟨footprint_le_of_stride? hstride, rfl, rfl⟩
  · exact ⟨footprint_le_of_stride? hstride, rfl, rfl⟩

end Node

end NativeLayout
