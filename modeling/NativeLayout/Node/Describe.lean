import NativeLayout.Node.Element
import NativeLayout.Text.Quoted

namespace NativeLayout.Node

/-!
# Structures in one line

* `describe?` — a record or an array with its state; leaves have no such text.
-/

/-- What is known of a value, or that nothing is. -/
def describeOption {α : Type} (text : α → String) : Option α → String
  | some a => s!"Some({text a})"
  | none => "None"

/-- A shape with the names of its parts. -/
def describeShape (s : Shape) : String :=
  s!"LayoutDescriptor \x7b alignment: {s.align}, compressed: {s.packed}, " ++
    s!"pre_padding: {s.pre}, size: {s.size}, post_padding: {s.post} \x7d"

/-- A placement with the names of its parts. -/
def describePlacement (p : Placement) : String :=
  s!"Placement \x7b buffer: {p.region.describe}, offset: {p.offset}, " ++
    s!"ownership: {p.ownership.name} \x7d"

/-- A stage with a capital letter. -/
def describeStage : Stage → String
  | .unallocated => "Unallocated"
  | .allocatable => "Allocatable"
  | .allocated => "Allocated"

/-- The status of a structure with the names of its parts. -/
def describeStatus (heap : Heap) (status : Status Shape) : String :=
  let address := match status.placement? with
    | some placement => heap.addressText placement.address
    | none => "0x0"
  s!"StructCore \x7b state: {describeStage status.stage}, " ++
    s!"descriptor: {describeOption describeShape status.plan?}, " ++
    s!"placement: {describeOption describePlacement status.placement?}, " ++
    s!"resolved: {address} \x7d"

/-- A record or an array in one line. -/
def describe? (heap : Heap) (n : Node) : Option String :=
  match n with
  | .leaf .. => none
  | .record _ head fields =>
    let names := Text.quotedList (fields.map (·.name))
    some (s!"CompositeStructure \x7b type_name: {Text.quoted head.typeName}, " ++
      s!"abi: {head.abi.tag}, compressed: {head.packed}, fields: {names}, " ++
      s!"core: {describeStatus heap n.status}, .. \x7d")
  | .array status head _ _ _ elements =>
    let made := (elements.filter Option.isSome).length
    some (s!"StructureArray \x7b len: {head.length}, lazy: {head.lazy}, " ++
      s!"stride: {strideOf status}, materialized: {made}, " ++
      s!"core: {describeStatus heap n.status}, .. \x7d")

end NativeLayout.Node
