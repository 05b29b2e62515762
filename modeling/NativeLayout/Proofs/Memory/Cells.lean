import NativeLayout.Node.Content
import NativeLayout.Proofs.Memory.Heap
import NativeLayout.Proofs.Text.Utf8

namespace NativeLayout

/-!
# What leaves hold, cell by cell

A leaf has a cell for each number, or one for its text, its name or its address.

* `Datum` — what a cell holds.
* `Leaf.cell?`, `Leaf.datum?` — where a cell is in its leaf, and what it holds now; a number that
  stands for no name is no datum.
* `Leaf.cell_inside`, `Leaf.cells_apart` — cells lie inside their leaf and do not overlap.
* `Leaf.datum?_write_cell`, `Leaf.datum?_write_numbers` — what all cells hold after a write.
* `Leaf.storedText` — the part of a text that is stored.
* `Leaf.meaning?_encode`, `Leaf.meaning?_textBytes`, `Leaf.meaning?_name`,
  `Leaf.meaning?_address` — what is stored means what it was made from.
-/

/-- What a cell holds. -/
inductive Datum where
  | number (value : Int)
  | text (value : String)
  | name (value : String)
  | address (value : Nat)
  deriving DecidableEq, Repr

namespace Leaf

/-- The offset of a cell in its leaf, and the number of its bytes. -/
def cell? (index : Nat) : Leaf → Option (Nat × Nat)
  | .scalars type count => if index < count then some (index * type.width, type.width) else none
  | .text capacity => if index = 0 then some (0, capacity) else none
  | .enum _ => if index = 0 then some (0, ScalarType.i32.width) else none
  | .pointer _ => if index = 0 then some (0, ScalarType.address.width) else none
  | .custom .. => none

/-- What the bytes of a cell mean. -/
def meaning? (bytes : List UInt8) : Leaf → Option Datum
  | .scalars type _ => some (.number (type.decode bytes))
  | .text _ => some (.text (String.ofList (Text.decode (Text.untilZero bytes))))
  | .enum type => (type.nameOf? (ScalarType.i32.decode bytes)).map .name
  | .pointer _ => some (.address (Bytes.toNat bytes))
  | .custom .. => none

/-- What the cell at an index of a leaf holds, if the leaf has that cell and storage. -/
def datum? (heap : Heap) (status : Status Shape) (kind : Leaf) (index : Nat) : Option Datum :=
  status.placement?.bind fun p =>
    (kind.cell? index).bind fun c => kind.meaning? (heap.read p.region (p.offset + c.1) c.2)

variable {kind : Leaf} {index : Nat} {s : Shape} {start count : Nat}

/-! ### Where cells are -/

/-- A run of scalars has the bytes of each of them. -/
theorem size_of_run? {type : ScalarType} {count : Nat} (h : type.run? count = .ok s) :
    s.size = type.width * count := by
  unfold ScalarType.run? at h
  split at h
  · cases h
  · split at h
    next => cases h
    next size hsize =>
      obtain ⟨-, rfl⟩ := Word.mul?_eq_some_iff.1 hsize
      obtain ⟨-, -, rfl⟩ := Shape.padded?_eq_ok_iff.1 h
      rfl

/-- A text has as many bytes as its capacity, which is not zero. -/
theorem size_of_text {capacity : Nat} (h : (Leaf.text capacity).shape? = .ok s) :
    s.size = capacity ∧ capacity ≠ 0 := by
  unfold shape? at h
  by_cases hcapacity : capacity = 0
  · simp only [if_pos hcapacity] at h
    cases h
  · simp only [if_neg hcapacity] at h
    rw [size_of_run? h]
    exact ⟨Nat.one_mul capacity, hcapacity⟩

/-- **Cells are inside.** No cell of a leaf reaches behind its value. -/
theorem cell_inside (hs : kind.shape? = .ok s) (hc : kind.cell? index = some (start, count)) :
    start + count ≤ s.size := by
  cases kind with
  | scalars type length =>
    have hsize := size_of_run? hs
    rw [cell?] at hc
    by_cases hindex : index < length
    · rw [if_pos hindex] at hc
      cases hc
      -- the last number ends where the run does
      rw [hsize, ← Nat.succ_mul, Nat.mul_comm type.width]
      exact Nat.mul_le_mul_right _ hindex
    · rw [if_neg hindex] at hc
      cases hc
  | text capacity =>
    obtain ⟨hsize, -⟩ := size_of_text hs
    rw [cell?] at hc
    split at hc
    · cases hc
      omega
    · cases hc
  | enum type =>
    have hsize : s.size = ScalarType.i32.width * 1 := size_of_run? hs
    rw [cell?] at hc
    split at hc
    · cases hc
      omega
    · cases hc
  | pointer pointee =>
    have hsize : s.size = ScalarType.address.width * 1 := size_of_run? hs
    rw [cell?] at hc
    split at hc
    · cases hc
      omega
    · cases hc
  | custom => cases hc

/-- Two cells of a leaf do not overlap. -/
theorem cells_apart {other start' count' : Nat} (hne : index ≠ other)
    (hc : kind.cell? index = some (start, count)) (hc' : kind.cell? other = some (start', count')) :
    start + count ≤ start' ∨ start' + count' ≤ start := by
  -- only numbers have more than one cell
  have hfirst : ∀ (i : Nat) (c d : Nat × Nat), (if i = 0 then some c else none) = some d → i = 0 := by
    intro i c d h
    by_contra hi
    rw [if_neg hi] at h
    cases h
  cases kind with
  | scalars type length =>
    have hcell : ∀ i a n, (Leaf.scalars type length).cell? i = some (a, n) →
        a = i * type.width ∧ n = type.width := by
      intro i a n h
      rw [cell?] at h
      split at h
      · cases h
        exact ⟨rfl, rfl⟩
      · cases h
    obtain ⟨rfl, rfl⟩ := hcell _ _ _ hc
    obtain ⟨rfl, rfl⟩ := hcell _ _ _ hc'
    rw [← Nat.succ_mul, ← Nat.succ_mul]
    rcases Nat.lt_or_gt_of_ne hne with hlt | hlt
    · exact .inl (Nat.mul_le_mul_right _ hlt)
    · exact .inr (Nat.mul_le_mul_right _ hlt)
  | text => exact absurd ((hfirst _ _ _ hc).trans (hfirst _ _ _ hc').symm) hne
  | enum => exact absurd ((hfirst _ _ _ hc).trans (hfirst _ _ _ hc').symm) hne
  | pointer => exact absurd ((hfirst _ _ _ hc).trans (hfirst _ _ _ hc').symm) hne
  | custom => cases hc

/-! ### What cells hold -/

section datum

variable {heap heap' : Heap} {status : Status Shape} {p : Placement} {bytes : List UInt8}

/-- What a cell of a stored leaf holds is what the bytes there mean. -/
theorem datum?_eq (hp : status.placement? = some p) (hc : kind.cell? index = some (start, count)) :
    datum? heap status kind index =
      kind.meaning? (heap.read p.region (p.offset + start) count) := by
  rw [datum?, hp, Option.bind_some, hc]
  rfl

/-- A leaf holds nothing where it has no cell. -/
theorem datum?_eq_none (hc : kind.cell? index = none) : datum? heap status kind index = none := by
  rw [datum?, hc]
  cases status.placement? <;> rfl

/-- Only the bytes of its cell matter for a datum. -/
theorem datum?_congr (hp : status.placement? = some p)
    (h : ∀ c, kind.cell? index = some c → heap'.read p.region (p.offset + c.1) c.2 =
      heap.read p.region (p.offset + c.1) c.2) :
    datum? heap' status kind index = datum? heap status kind index := by
  cases hc : kind.cell? index with
  | none => rw [datum?_eq_none hc, datum?_eq_none hc]
  | some c =>
    obtain ⟨start, count⟩ := c
    rw [datum?_eq hp hc, datum?_eq hp hc, h _ hc]

/-- A cell that a write leaves alone. -/
theorem datum?_write_apart {offset : Nat} (hp : status.placement? = some p)
    (hhas : heap.Has p.region) (h : ∀ c, kind.cell? index = some c →
      p.offset + c.1 + c.2 ≤ offset ∨ offset + bytes.length ≤ p.offset + c.1) :
    datum? (heap.write p.region offset bytes) status kind index = datum? heap status kind index :=
  datum?_congr hp fun c hc => Heap.read_write_of_disjoint hhas (h c hc)

/-- A cell that is a part of what is written. -/
theorem datum?_write_inside {offset part : Nat} (hp : status.placement? = some p)
    (hhas : heap.Has p.region) (hc : kind.cell? index = some (start, count))
    (hpart : p.offset + start = offset + part) (hfits : part + count ≤ bytes.length) :
    datum? (heap.write p.region offset bytes) status kind index =
      kind.meaning? ((bytes.drop part).take count) := by
  rw [datum?_eq hp hc, hpart, Heap.read_write_inside hhas hfits]

/-- A write to one cell. -/
theorem datum?_write_cell (hp : status.placement? = some p) (hhas : heap.Has p.region)
    (hc : kind.cell? index = some (start, count)) (hlength : bytes.length = count) (other : Nat) :
    datum? (heap.write p.region (p.offset + start) bytes) status kind other =
      if other = index then kind.meaning? bytes else datum? heap status kind other := by
  by_cases hother : other = index
  · have hwhole : (bytes.drop 0).take count = bytes := by
      rw [List.drop_zero, ← hlength, List.take_length]
    rw [if_pos hother, hother, datum?_write_inside hp hhas hc (Nat.add_zero _).symm (by omega), hwhole]
  · rw [if_neg hother]
    refine datum?_write_apart hp hhas fun c hother' => ?_
    have hapart := cells_apart hother hother' hc
    omega

/-! ### Many numbers at once -/

section numbers

variable {type : ScalarType} {values : List Int}

/-- Numbers that are written one behind the other take the width of the type each. -/
theorem length_flatMap_encode (type : ScalarType) (values : List Int) :
    (values.flatMap type.encode).length = values.length * type.width := by
  induction values with
  | nil => rw [List.flatMap_nil, List.length_nil, List.length_nil, Nat.zero_mul]
  | cons value values ih =>
    rw [List.flatMap_cons, List.length_append, ih, ScalarType.length_encode, List.length_cons,
      Nat.succ_mul, Nat.add_comm]

/-- The bytes of one of some numbers. -/
theorem slice_flatMap_encode {value : Int} (hvalue : values[index]? = some value) :
    ((values.flatMap type.encode).drop (index * type.width)).take type.width =
      type.encode value := by
  induction values generalizing index with
  | nil => cases hvalue
  | cons first values ih =>
    rw [List.flatMap_cons]
    cases index with
    | zero =>
      rw [List.getElem?_cons_zero, Option.some.injEq] at hvalue
      rw [hvalue, Nat.zero_mul, List.drop_zero]
      exact List.take_left' (ScalarType.length_encode type value)
    | succ index =>
      rw [List.getElem?_cons_succ] at hvalue
      -- every number takes as many bytes as its type is wide
      have hskip : (index + 1) * type.width =
          (type.encode first).length + index * type.width := by
        rw [ScalarType.length_encode, Nat.succ_mul, Nat.add_comm]
      rw [hskip, List.drop_length_add_append]
      exact ih hvalue

/-- A write to the first cells of some numbers. -/
theorem datum?_write_numbers {length : Nat} (hp : status.placement? = some p)
    (hhas : heap.Has p.region) (hfits : values.length ≤ length) (other : Nat) :
    datum? (heap.write p.region p.offset (values.flatMap type.encode)) status
        (.scalars type length) other =
      match values[other]? with
      | some value => (Leaf.scalars type length).meaning? (type.encode value)
      | none => datum? heap status (.scalars type length) other := by
  have hlength := length_flatMap_encode type values
  -- a cell is one of those that are written, or behind all of them
  cases hvalue : values[other]? with
  | some value =>
    obtain ⟨hother, -⟩ := List.getElem?_eq_some_iff.1 hvalue
    have hc : (Leaf.scalars type length).cell? other = some (other * type.width, type.width) := by
      rw [cell?, if_pos (Nat.lt_of_lt_of_le hother hfits)]
    have hend : other * type.width + type.width ≤ values.length * type.width := by
      rw [← Nat.succ_mul]
      exact Nat.mul_le_mul_right _ hother
    rw [datum?_write_inside hp hhas hc rfl (by omega), slice_flatMap_encode hvalue]
  | none =>
    refine datum?_write_apart hp hhas fun c hc => .inr ?_
    have hother : values.length ≤ other := List.getElem?_eq_none_iff.1 hvalue
    have hstart : values.length * type.width ≤ other * type.width := Nat.mul_le_mul_right _ hother
    rw [cell?] at hc
    split at hc
    · cases hc
      show p.offset + (values.flatMap type.encode).length ≤ p.offset + other * type.width
      omega
    · cases hc

end numbers

end datum

/-! ### Values and their bytes -/

/-- A number in the range of its type is read back. -/
theorem meaning?_encode {type : ScalarType} {value : Int} (length : Nat) (h : type.InRange value) :
    (Leaf.scalars type length).meaning? (type.encode value) = some (.number value) := by
  rw [meaning?, ScalarType.decode_encode h]

/-- A text fills its capacity, with zero bytes behind what fits. -/
theorem length_textBytes (capacity : Nat) (text : String) :
    (textBytes capacity text).length = capacity := by
  have hfits : (Text.fitting (capacity - 1) text.toList).length ≤ capacity - 1 := by
    rw [Text.fitting_eq]
    exact Text.length_encode_cut_le _ _
  rw [textBytes]
  simp only [List.length_append, List.length_replicate]
  omega

/-- What is left of a text in some bytes: the characters in front of the first zero character, of
those that leave room for a zero byte. -/
def storedText (capacity : Nat) (text : String) : String :=
  String.ofList ((Text.cut (capacity - 1) text.toList).takeWhile (· ≠ '\x00'))

/-- Of a text that is written, the part that is stored is read back. -/
theorem meaning?_textBytes (capacity : Nat) (text : String) :
    (Leaf.text capacity).meaning? (textBytes capacity text) =
      some (.text (storedText capacity text)) := by
  rw [meaning?, textBytes, Text.decode_untilZero_fitting, storedText]

/-- A name is read back through its number, if it is the name that the number stands for. -/
theorem meaning?_name {type : EnumType} {number : Int} {name : String}
    (hnumber : ScalarType.i32.InRange number) (hname : type.nameOf? number = some name) :
    (Leaf.enum type).meaning? (ScalarType.i32.encode number) = some (.name name) := by
  rw [meaning?, ScalarType.decode_encode hnumber, hname]
  rfl

/-- An address that is a word is read back, whatever is behind it. -/
theorem meaning?_address {address : Nat} (h : address < Word.limit) (pointee : Option String) :
    (Leaf.pointer pointee).meaning? (Bytes.ofNat ScalarType.address.width address) =
      some (.address address) := by
  rw [meaning?, Bytes.toNat_ofNat]
  have hword : address % Nat.pow 256 ScalarType.address.width = address := Nat.mod_eq_of_lt h
  rw [hword]

end Leaf

end NativeLayout
