import NativeLayout.Source.Item

namespace NativeLayout.Source

/-!
# Record declarations in Rust

* `Representation` — how much of its natural alignment a record keeps.
* `RustDeclaration` — a record with its representation.
* `RustDeclaration.lines` — its lines, with a check of the size.
-/

/-- The representation attribute of a record. -/
inductive Representation where
  /-- Natural alignment. -/
  | natural
  /-- No alignment. -/
  | packed
  /-- Natural alignment up to a limit. -/
  | packedTo (limit : Nat)
  deriving DecidableEq, Repr

/-- The attribute in front of the record. -/
def Representation.line : Representation → String
  | .natural => "#[repr(C)]"
  | .packed => "#[repr(C, packed)]"
  | .packedTo limit => s!"#[repr(C, packed({limit}))]"

/-- A record as Rust declares it. -/
structure RustDeclaration where
  name : String
  representation : Representation
  items : List Item
  /-- The size the record must have. -/
  size : Nat
  deriving DecidableEq, Repr

namespace RustDeclaration

/-- The alignment a type has by itself, for types that are no records. -/
def naturalAlign? (t : MemberType) : Option Nat :=
  match t.base with
  | .scalar type => some type.width
  | .pointer _ => some ScalarType.address.width
  | _ => none

/-- Whether the layout puts a member below its natural alignment. -/
def underaligned (layout : RecordLayout) (m : Member) : Bool :=
  match naturalAlign? m.type with
  | some align => layout.shape.align < align
  | none => false

/-- A record that keeps its natural alignment has the natural representation; a packed one
has none, and any other is limited to the alignment of its layout. -/
def representationOf (d : RecordDef) (layout : RecordLayout) : Representation :=
  if layout.shape.packed then .packed
  else if d.members.any (underaligned layout) then .packedTo layout.shape.align
  else .natural

/-- The Rust declaration of a definition with its layout and its items. -/
def ofLayout (d : RecordDef) (layout : RecordLayout) (items : List Item) :
    RustDeclaration where
  name := d.name
  representation := representationOf d layout
  items := items
  size := layout.size

/-- The reserved words, which need a mark to be names. -/
def keywords : List String :=
  ["as", "break", "const", "continue", "crate", "else", "enum", "extern", "false", "fn", "for",
    "if", "impl", "in", "let", "loop", "match", "mod", "move", "mut", "pub", "ref", "return",
    "static", "struct", "trait", "true", "type", "unsafe", "use", "where", "while", "async",
    "await", "dyn"]

/-- A member's name, marked if it is a reserved word. -/
def identifier (name : String) : String :=
  if keywords.contains name then "r#" ++ name else name

/-- The spelling of a type. -/
def typeName : MemberType → String
  | .scalar type => type.rustName
  | .named name => name
  | .pointer none => ScalarType.address.rustName
  | .pointer (some pointee) =>
    match ScalarType.ofName? pointee with
    | some type => "*mut " ++ type.rustName
    | none => "*mut " ++ pointee
  | .array element length => s!"[{typeName element}; {length}]"

/-- The line of an item. -/
def itemLine : Item → String
  | .member m => s!"    pub {identifier m.name}: {typeName m.type},"
  | .padding number bytes => s!"    {paddingName number}: [u8; {bytes}],"

/-- The lines of the declaration. -/
def lines (d : RustDeclaration) : List String :=
  [d.representation.line, s!"pub struct {d.name} \x7b"] ++
    d.items.map itemLine ++
    ["\x7d", "",
      s!"const _: () = assert!(core::mem::size_of::<{d.name}>() == {d.size});"]

end RustDeclaration

end NativeLayout.Source
