namespace NativeLayout

/-!
# Why a layout cannot exist

* `Counted` — the things that need at least one element.
* `LayoutError` — the causes, with their wording in `LayoutError.message`.
-/

/-- A thing whose length must not be zero. -/
inductive Counted where
  | scalars
  | text
  | elements
  deriving DecidableEq, Repr

/-- How an error names it. -/
def Counted.label : Counted → String
  | .scalars => "primitive array"
  | .text => "string capacity"
  | .elements => "structure array"

/-- Why a field or a record has no layout. -/
inductive LayoutError where
  /-- An alignment that is no power of two. -/
  | notPowerOfTwo (align : Nat)
  /-- A record without fields. -/
  | emptyRecord (typeName : String)
  /-- A run of length zero. -/
  | missingLength (what : Counted)
  /-- Two fields of one record under one index. -/
  | duplicateField (typeName : String) (index : Nat)
  /-- An array element whose shape differs from the first one's. -/
  | elementMismatch (index : Nat)
  /-- A size or an offset that is no word. -/
  | overflow
  /-- A text that names no ABI. -/
  | unknownAbi (text : String)
  deriving DecidableEq, Repr

/-- The wording of each cause. -/
def LayoutError.message : LayoutError → String
  | .notPowerOfTwo align => s!"alignment {align} is not a power of two"
  | .emptyRecord typeName => s!"composite `{typeName}` has no fields"
  | .missingLength what => what.label ++ " requires a non-zero length"
  | .duplicateField typeName index =>
    s!"field index {index} of `{typeName}` is registered twice"
  | .elementMismatch index =>
    s!"array element {index} does not match the layout of element 0"
  | .overflow => "layout size overflows usize"
  | .unknownAbi text => s!"unknown ABI `{text}` (expected `msvc-x64` or `sysv-i386`)"

end NativeLayout
