import NativeLayout.Source.Item

namespace NativeLayout.Source

/-!
# Record declarations in C

* `CDeclaration` — a record with the packing it is declared under.
* `CDeclaration.lines` — its lines, with a check of the size.
-/

/-- A record as C declares it. -/
structure CDeclaration where
  name : String
  /-- The largest alignment a member gets. -/
  pack : Nat
  items : List Item
  /-- The size the record must have. -/
  size : Nat
  deriving DecidableEq, Repr

namespace CDeclaration

/-- The C declaration of a definition with its layout and its items. -/
def ofLayout (d : RecordDef) (layout : RecordLayout) (items : List Item) : CDeclaration where
  name := d.name
  pack := if layout.shape.packed then 1 else layout.shape.align
  items := items
  size := layout.size

/-- The spelling of a type in front of a member's name. -/
def typeName : MemberType → String
  | .scalar type => type.cName
  | .named name => name
  | .pointer none => "void*"
  | .pointer (some pointee) =>
    match ScalarType.ofName? pointee with
    | some type => type.cName ++ "*"
    | none => s!"struct {pointee}*"
  | t@(.array ..) => t.display

/-- A member: the innermost type, the name, and the array lengths. -/
def declarator (m : Member) : String :=
  s!"{typeName m.type.base} {m.name}" ++
    String.join (m.type.dimensions.map fun length => s!"[{length}]")

/-- The line of an item. -/
def itemLine : Item → String
  | .member m => s!"    {declarator m};"
  | .padding number bytes => s!"    uint8_t {paddingName number}[{bytes}];"

/-- The lines of the declaration. -/
def lines (d : CDeclaration) : List String :=
  [s!"#pragma pack(push, {d.pack})", s!"typedef struct {d.name} \x7b"] ++
    d.items.map itemLine ++
    [s!"\x7d {d.name};", "#pragma pack(pop)",
      s!"_Static_assert(sizeof({d.name}) == {d.size}, \"{d.name} must be {d.size} bytes\");"]

end CDeclaration

end NativeLayout.Source
