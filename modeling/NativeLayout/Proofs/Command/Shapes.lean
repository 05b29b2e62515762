import Mathlib.Algebra.BigOperators.Group.List.Basic
import NativeLayout.Command.TypeText
import NativeLayout.Node.Resolve
import NativeLayout.Proofs.Tree.Described

namespace NativeLayout

/-!
# The shapes of field types

A field type is answered by one run of scalars, with all array lengths multiplied first; an array
in memory is built from the shape of its elements, one length after the other.

* `ScalarType.run` — the shape of a number of values, if there is one (`ScalarType.run?_eq_ok_iff`).
* `MemberType.scalar?` — the scalars that a type is made of.
* `Command.foldlM_mul?_eq_some` — the product of lengths of which none is zero.
* `Command.shapeOfType_eq_ok_iff` — the types that have a shape, and the shape.
* `Command.shapeOfType_array_eq_ok_iff`, `Command.shapeOfType_memberType_eq_ok_iff` — for arrays and
  for plain leaves both ways lead to the same shape, and fail on the same types.
-/

/-- The shape of `count` values side by side, wherever they fit. -/
def ScalarType.run (t : ScalarType) (count : Nat) : Shape :=
  { align := t.width, packed := false, pre := 0, size := t.width * count, post := 0 }

/-- A run of scalars has a shape unless it is empty or does not fit a word. -/
theorem ScalarType.run?_eq_ok_iff {t : ScalarType} {count : Nat} {s : Shape} :
    t.run? count = .ok s ↔ 0 < count ∧ t.width * count < Word.limit ∧ s = t.run count := by
  unfold run?
  split
  next hzero => simp [hzero]
  next hzero =>
    split
    next hmul =>
      rw [Word.mul?_eq_none_iff] at hmul
      simp [Nat.not_lt.2 hmul]
    next size hmul =>
      obtain ⟨hfit, rfl⟩ := Word.mul?_eq_some_iff.1 hmul
      rw [Shape.plain?, Shape.padded?_eq_ok_iff]
      simp [t.width_isPowerOfTwo, hfit, Nat.pos_of_ne_zero hzero, run]

/-- The scalars that a member of the type is made of; a named type is made of anything. -/
def MemberType.scalar? : MemberType → Option ScalarType
  | .scalar type => some type
  | .pointer _ => some .address
  | .array element _ => element.scalar?
  | .named _ => none

theorem MemberType.scalar?_base (t : MemberType) : t.base.scalar? = t.scalar? := by
  induction t with
  | array element length ih => exact ih
  | _ => rfl

/-- The innermost type is no array. -/
theorem MemberType.base_ne_array (t element : MemberType) (length : Nat) :
    t.base ≠ .array element length := by
  induction t with
  | array _ _ ih => exact ih
  | _ => rintro ⟨⟩

namespace Command

/-- A product of lengths that is answered is the product. -/
theorem eq_of_foldlM_mul? {start c : Nat} {lengths : List Nat}
    (h : lengths.foldlM Word.mul? start = some c) : c = start * lengths.prod := by
  induction lengths generalizing start with
  | nil =>
    cases h
    rw [List.prod_nil, Nat.mul_one]
  | cons n rest ih =>
    rw [List.foldlM_cons, Option.bind_eq_bind] at h
    obtain ⟨next, hnext, h⟩ := Option.bind_eq_some_iff.1 h
    obtain ⟨-, rfl⟩ := Word.mul?_eq_some_iff.1 hnext
    rw [ih h, List.prod_cons, Nat.mul_assoc]

/-- Without a zero among the lengths no intermediate product passes the last one. -/
theorem foldlM_mul?_eq_some {start : Nat} {lengths : List Nat} (hpos : 0 < lengths.prod)
    (hfit : start * lengths.prod < Word.limit) :
    lengths.foldlM Word.mul? start = some (start * lengths.prod) := by
  induction lengths generalizing start with
  | nil =>
    rw [List.prod_nil, Nat.mul_one]
    rfl
  | cons n rest ih =>
    rw [List.prod_cons, ← Nat.mul_assoc] at hfit ⊢
    have hrest : 0 < rest.prod := Nat.pos_of_mul_pos_left hpos
    -- a product only grows by the factors that are left
    have hle : start * n ≤ start * n * rest.prod := Nat.le_mul_of_pos_right _ hrest
    have hnext : Word.mul? start n = some (start * n) :=
      Word.mul?_eq_some_iff.2 ⟨lt_of_le_of_lt hle hfit, rfl⟩
    rw [List.foldlM_cons, hnext]
    exact ih hrest hfit

theorem ofLayout_eq_ok_iff {α : Type} {r : Except LayoutError α} {a : α} :
    ofLayout r = .ok a ↔ r = .ok a := by
  cases r <;> simp [ofLayout]

variable {t : MemberType} {s : Shape}

/-- A type has the shape of a run of its scalars, as many as its lengths say. -/
theorem shapeOfType_eq_ok_iff_run? :
    shapeOfType t = .ok s ↔ ∃ scalar count, t.scalar? = some scalar ∧
      t.dimensions.foldlM Word.mul? 1 = some count ∧ scalar.run? count = .ok s := by
  rw [← t.scalar?_base]
  unfold shapeOfType
  cases hbase : t.base with
  | scalar type =>
    cases t.dimensions.foldlM Word.mul? 1 <;> simp [MemberType.scalar?, ofLayout_eq_ok_iff]
  | pointer pointee =>
    cases t.dimensions.foldlM Word.mul? 1 <;> simp [MemberType.scalar?, ofLayout_eq_ok_iff]
  | named name => simp [MemberType.scalar?]
  | array element length => exact absurd hbase (t.base_ne_array element length)

/-- A type has a shape if it is made of scalars, no length is zero, and all scalars together fit; the
shape is that of the scalars side by side. -/
theorem shapeOfType_eq_ok_iff :
    shapeOfType t = .ok s ↔ ∃ scalar, t.scalar? = some scalar ∧ 0 < t.dimensions.prod ∧
      scalar.width * t.dimensions.prod < Word.limit ∧ s = scalar.run t.dimensions.prod := by
  rw [shapeOfType_eq_ok_iff_run?]
  constructor
  · rintro ⟨scalar, count, hscalar, hcount, hrun⟩
    obtain rfl : count = t.dimensions.prod := by rw [eq_of_foldlM_mul? hcount, Nat.one_mul]
    exact ⟨scalar, hscalar, ScalarType.run?_eq_ok_iff.1 hrun⟩
  · rintro ⟨scalar, hscalar, hpos, hfit, rfl⟩
    -- a scalar has a byte at least, so the number of them fits as well
    have hle := Nat.le_mul_of_pos_left t.dimensions.prod scalar.width_pos
    have hcount : t.dimensions.foldlM Word.mul? 1 = some (1 * t.dimensions.prod) :=
      foldlM_mul?_eq_some hpos (by omega)
    rw [Nat.one_mul] at hcount
    exact ⟨scalar, _, hscalar, hcount, ScalarType.run?_eq_ok_iff.2 ⟨hpos, hfit, rfl⟩⟩

/-- Rows of scalars stand side by side. -/
theorem arrayShape?_run_eq_ok_iff {scalar : ScalarType} {count length stride : Nat}
    (hfit : scalar.width * count < Word.limit) :
    Node.arrayShape? length (scalar.run count) = .ok (stride, s) ↔
      stride = scalar.width * count ∧ scalar.width * (length * count) < Word.limit ∧
        s = scalar.run (length * count) := by
  have hpow := scalar.width_isPowerOfTwo
  have hword : scalar.width < Word.limit := by cases scalar <;> decide
  have hround : Word.roundUp? (scalar.width * count) scalar.width = some (scalar.width * count) := by
    rw [Word.roundUp?_eq hpow hword, Word.roundUp_of_dvd scalar.width_pos (Nat.dvd_mul_right _ _),
      if_pos hfit]
  have hstride : Node.stride? (scalar.run count) = some (scalar.width * count) := by
    simpa [Node.stride?, ScalarType.run, Shape.footprint] using hround
  have hsize : scalar.width * (length * count) = scalar.width * count * length := by
    rw [Nat.mul_comm length, Nat.mul_assoc]
  rw [hsize]
  unfold Node.arrayShape?
  rw [hstride]
  by_cases hall : scalar.width * count * length < Word.limit
  · simp [Word.mul?, hall, ScalarType.run, Shape.plain?, Shape.padded?, hpow, hsize, eq_comm,
      Except.map]
  · simp [Word.mul?, hall]

/-- An array type has a shape if an array of elements of its element type has one. -/
theorem shapeOfType_array_eq_ok_iff {length : Nat} :
    shapeOfType (.array t length) = .ok s ↔ 0 < length ∧ ∃ element stride,
      shapeOfType t = .ok element ∧ Node.arrayShape? length element = .ok (stride, s) := by
  have hprod : (MemberType.array t length).dimensions.prod = length * t.dimensions.prod := rfl
  rw [shapeOfType_eq_ok_iff, hprod]
  constructor
  · rintro ⟨scalar, hscalar, hpos, hfit, rfl⟩
    have hlength : 0 < length := Nat.pos_of_mul_pos_right hpos
    have hinner : 0 < t.dimensions.prod := Nat.pos_of_mul_pos_left hpos
    -- one row fits a word, since all of them do
    have hle : scalar.width * t.dimensions.prod ≤ scalar.width * (length * t.dimensions.prod) :=
      Nat.mul_le_mul_left _ (Nat.le_mul_of_pos_left _ hlength)
    have hone := lt_of_le_of_lt hle hfit
    exact ⟨hlength, _, _, shapeOfType_eq_ok_iff.2 ⟨scalar, hscalar, hinner, hone, rfl⟩,
      (arrayShape?_run_eq_ok_iff hone).2 ⟨rfl, hfit, rfl⟩⟩
  · rintro ⟨hlength, element, stride, helement, harray⟩
    obtain ⟨scalar, hscalar, hinner, hone, rfl⟩ := shapeOfType_eq_ok_iff.1 helement
    obtain ⟨-, hfit, rfl⟩ := (arrayShape?_run_eq_ok_iff hone).1 harray
    exact ⟨scalar, hscalar, Nat.mul_pos hlength hinner, hfit, rfl⟩

/-- A plain leaf has the shape of its type. -/
theorem shapeOfType_memberType_eq_ok_iff {kind : Leaf} (plain : kind.Plain) :
    shapeOfType kind.memberType = .ok s ↔ kind.shape? = .ok s := by
  rw [shapeOfType_eq_ok_iff]
  cases kind with
  | scalars type count =>
    rw [Leaf.shape?, ScalarType.run?_eq_ok_iff, Leaf.memberType, MemberType.repeated]
    split
    next hone => simp [hone, MemberType.scalar?, MemberType.dimensions]
    next => simp [MemberType.scalar?, MemberType.dimensions]
  | text capacity =>
    simp only [Leaf.shape?, Leaf.memberType, MemberType.scalar?, MemberType.dimensions]
    split
    next hzero => simp [hzero]
    next => simp [ScalarType.run?_eq_ok_iff]
  | enum type =>
    simp [Leaf.shape?, ScalarType.run?_eq_ok_iff, Leaf.memberType, MemberType.scalar?,
      MemberType.dimensions]
  | pointer pointee =>
    simp [Leaf.shape?, ScalarType.run?_eq_ok_iff, Leaf.memberType, MemberType.scalar?,
      MemberType.dimensions]
  | custom => exact plain.elim

end Command

end NativeLayout
