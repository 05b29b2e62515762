import NativeLayout.Command.Options
import NativeLayout.Command.TypeText
import NativeLayout.Text.Lines

namespace NativeLayout.Command

/-!
# The layout report

* `layoutReport` — a table of the offsets that a list of field types gets.
-/

/-- How the report is called. -/
def reportUsage : String := "usage: strata layout [--abi=<abi>] [--packed] <type>..."

/-- One field of the table. -/
structure Row where
  index : Nat
  offset : Nat
  shape : Shape
  gap : Nat
  type : MemberType
  deriving DecidableEq, Repr

/-- The fields with their places, numbered from `index` on. -/
def rows (index : Nat) : List MemberType → List Shape → List Nat → List Nat → List Row
  | type :: types, shape :: shapes, offset :: offsets, gap :: gaps =>
    { index, offset, shape, gap, type } :: rows (index + 1) types shapes offsets gaps
  | _, _, _, _ => []

/-- The line of a field. -/
def Row.line (row : Row) : String :=
  "  ".intercalate
    [Text.padLeft 5 (toString row.index), Text.padLeft 6 (toString row.offset),
      Text.padLeft 4 (toString row.shape.extent), Text.padLeft 5 (toString row.shape.align),
      Text.padLeft 3 (toString row.gap), row.type.display]

/-- The table of a layout. -/
def reportLines (options : Options) (types : List MemberType) (shapes : List Shape)
    (layout : RecordLayout) : List String :=
  ["abi " ++ options.abi.name ++ (if options.packed then ", packed" else ""),
      "field  offset  size  align  pad  type"] ++
    (rows 0 types shapes layout.offsets layout.gaps).map Row.line ++
    [s!"size {layout.size} align {layout.shape.align} tail {layout.tail}"]

/-- The table of the fields with these types. -/
def layoutReport (options : Options) (texts : List String) : Except CommandError String := do
  if texts = [] then throw (.usage reportUsage)
  let types ← texts.mapM readType
  let shapes ← types.mapM shapeOfType
  let layout ← ofLayout (options.abi.layout options.packed RecordLayout.anonymous shapes)
  return Text.ofLines (reportLines options types shapes layout)

end NativeLayout.Command
