import NativeLayout.Shape

namespace NativeLayout

/-!
# Record layouts

The layout of a record is found in one pass over the shapes of its fields.  Each field goes
to the first place behind the previous one that leaves room for its leading padding and is
a multiple of its alignment; the alignment a field may ask for is cut off at a cap.

* `RecordLayout` — the shape of the record, and offset and gap of each field.
* `RecordLayout.placeFields` — the pass over the fields.
* `RecordLayout.compute` — the layout of a list of shapes under a cap.
-/

/-- Where the fields of a record are. -/
structure RecordLayout where
  /-- The record as a whole: its size ends with the last field, the rest is trailing padding. -/
  shape : Shape
  /-- The offset of each field's value. -/
  offsets : List Nat
  /-- The bytes between the end of the previous field and each field's value. -/
  gaps : List Nat
  deriving DecidableEq, Repr

namespace RecordLayout

/-- The size of the record, trailing padding included. -/
def size (l : RecordLayout) : Nat := l.shape.extent

/-- The padding behind the last field. -/
def tail (l : RecordLayout) : Nat := l.shape.post

/-- The alignment a field gets: 1 in a packed record, else its own up to the cap. -/
def fieldAlign (cap : Nat) (packed : Bool) (field : Shape) : Nat :=
  if packed then 1 else min field.align cap

/-- The fields placed from some position on. -/
structure Placed where
  offsets : List Nat
  gaps : List Nat
  /-- The end of the last field. -/
  stop : Nat
  /-- The largest alignment of a field, at least 1. -/
  align : Nat
  deriving DecidableEq, Repr

/-- Places the fields one behind the other, the first one from `start` on. -/
def placeFields (cap : Nat) (packed : Bool) (start : Nat) :
    List Shape → Except LayoutError Placed
  | [] => .ok { offsets := [], gaps := [], stop := start, align := 1 }
  | field :: rest =>
    if field.align.isPowerOfTwo then
      let align := fieldAlign cap packed field
      -- the padding in front is left free, and the value behind it is aligned
      match (Word.add? start field.pre).bind (Word.roundUp? · align) with
      | none => .error .overflow
      | some offset =>
        match Word.add? offset field.extent with
        | none => .error .overflow
        | some stop =>
          match placeFields cap packed stop rest with
          | .error e => .error e
          | .ok placed => .ok
            { offsets := offset :: placed.offsets
              gaps := (offset - start) :: placed.gaps
              stop := placed.stop
              align := max align placed.align }
    else .error (.notPowerOfTwo field.align)

/-- The record around fields that are placed: a packed one ends with its last field, any
other is rounded up to its alignment. -/
def close (packed : Bool) (placed : Placed) : Except LayoutError Shape :=
  if packed then .ok (.compressed placed.stop)
  else
    match Word.roundUp? placed.stop placed.align with
    | none => .error .overflow
    | some total => Shape.padded? placed.stop placed.align 0 (total - placed.stop)

/-- The layout of a record with these fields; `typeName` is for the error of an empty one. -/
def compute (cap : Nat) (packed : Bool) (typeName : String) (fields : List Shape) :
    Except LayoutError RecordLayout :=
  if fields = [] then .error (.emptyRecord typeName)
  else
    match placeFields cap packed 0 fields with
    | .error e => .error e
    | .ok placed =>
      match close packed placed with
      | .error e => .error e
      | .ok shape => .ok { shape, offsets := placed.offsets, gaps := placed.gaps }

/-- How an error names a record without a name. -/
def anonymous : String := "<anonymous>"

/-! ### One offset and one gap for each field -/

/-- The first field is placed at the next multiple of its alignment, and the others behind it. -/
theorem placeFields_cons_eq_ok_iff {cap : Nat} {packed : Bool} {start : Nat} {field : Shape}
    {rest : List Shape} {placed : Placed} :
    placeFields cap packed start (field :: rest) = .ok placed ↔
      field.align.isPowerOfTwo ∧ ∃ offset stop later,
        (Word.add? start field.pre).bind (Word.roundUp? · (fieldAlign cap packed field)) =
          some offset ∧
        Word.add? offset field.extent = some stop ∧
        placeFields cap packed stop rest = .ok later ∧
        placed = ⟨offset :: later.offsets, (offset - start) :: later.gaps, later.stop,
          max (fieldAlign cap packed field) later.align⟩ := by
  simp only [placeFields]
  split
  next hp =>
    split
    next h₁ => simp [h₁]
    next offset h₁ =>
      split
      next h₂ => simp [h₁, h₂]
      next stop h₂ =>
        split
        next e h₃ => simp [h₁, h₂, h₃]
        next later h₃ => simp [h₁, h₂, h₃, hp, eq_comm]
  next hp => simp [hp]

/-- There are an offset and a gap for each field. -/
theorem length_offsets_placeFields {cap : Nat} {packed : Bool} {start : Nat}
    {fields : List Shape} {placed : Placed}
    (h : placeFields cap packed start fields = .ok placed) :
    placed.offsets.length = fields.length ∧ placed.gaps.length = fields.length := by
  induction fields generalizing start placed with
  | nil => cases h; exact ⟨rfl, rfl⟩
  | cons field rest ih =>
    obtain ⟨_, _, _, later, _, _, h₃, rfl⟩ := placeFields_cons_eq_ok_iff.1 h
    simp [ih h₃]

end RecordLayout

end NativeLayout
