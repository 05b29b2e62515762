import NativeLayout.Abi
import NativeLayout.Document
import NativeLayout.MemberType

namespace NativeLayout

/-!
# Stored layouts

How shapes, layouts, record definitions and ABIs are written as documents and read back.
A record of values is an object with a member for each value; reading it ignores other
members and accepts the values alone as a list.  One of several alternatives is an object
with a single member, named for the alternative; one that carries nothing is its name.

* `toDocument` and `ofDocument?` in the namespace of each type.
-/

namespace Document

/-- A truth value. -/
def bool? : Document → Option Bool
  | .bool value => some value
  | _ => none

/-- A number that is a word. -/
def word? : Document → Option Nat
  | .integer (.ofNat n) => if n < Word.limit then some n else none
  | _ => none

/-- A text. -/
def text? : Document → Option String
  | .text value => some value
  | _ => none

/-- A list whose items can all be read. -/
def listOf? {α : Type} (read : Document → Option α) : Document → Option (List α)
  | .list items => items.mapM read
  | _ => none

/-- The name of an alternative that carries nothing. -/
def alternative? : Document → Option String
  | .text name => some name
  | .object [(name, .null)] => some name
  | _ => none

/-- The values of a record: the members with the given names, or the items of a list. -/
def record? (names : List String) : Document → Option (List Document)
  | .object members => names.mapM (member? members)
  | .list items => if items.length = names.length then some items else none
  | _ => none

end Document

namespace Shape

/-- The members of a stored shape. -/
def storedNames : List String := ["alignment", "compressed", "pre_padding", "size", "post_padding"]

/-- The shape as a document. -/
def toDocument (s : Shape) : Document :=
  .object
    [("alignment", .ofNat s.align), ("compressed", .bool s.packed), ("pre_padding", .ofNat s.pre),
      ("size", .ofNat s.size), ("post_padding", .ofNat s.post)]

/-- Reads a shape; any numbers will do. -/
def ofDocument? (d : Document) : Option Shape :=
  match d.record? storedNames with
  | some [align, packed, pre, size, post] => do
    return {
      align := ← align.word?
      packed := ← packed.bool?
      pre := ← pre.word?
      size := ← size.word?
      post := ← post.word? }
  | _ => none

end Shape

namespace RecordLayout

/-- The members of a stored layout. -/
def storedNames : List String := ["descriptor", "offsets", "padding"]

/-- The layout as a document. -/
def toDocument (l : RecordLayout) : Document :=
  .object
    [("descriptor", l.shape.toDocument), ("offsets", .list (l.offsets.map .ofNat)),
      ("padding", .list (l.gaps.map .ofNat))]

/-- Reads a layout; any numbers will do. -/
def ofDocument? (d : Document) : Option RecordLayout :=
  match d.record? storedNames with
  | some [shape, offsets, gaps] => do
    return {
      shape := ← Shape.ofDocument? shape
      offsets := ← offsets.listOf? Document.word?
      gaps := ← gaps.listOf? Document.word? }
  | _ => none

end RecordLayout

namespace Abi

/-- The ABI as a document. -/
def toDocument (abi : Abi) : Document := .text abi.tag

/-- Reads an ABI. -/
def ofDocument? (d : Document) : Option Abi :=
  d.alternative?.bind ofTag?

end Abi

namespace MemberType

/-- The type as a document. -/
def toDocument : MemberType → Document
  | .scalar type => .object [("Primitive", .text type.tag)]
  | .named name => .object [("Named", .text name)]
  | .pointer none => .object [("Pointer", .null)]
  | .pointer (some pointee) => .object [("Pointer", .text pointee)]
  | .array element length =>
    .object [("Array", .list [element.toDocument, .ofNat length])]

/-- Reads a type. -/
def ofDocument? : Document → Option MemberType
  | .object [("Primitive", type)] =>
    (type.alternative?.bind ScalarType.ofTag?).map .scalar
  | .object [("Named", name)] => name.text?.map .named
  | .object [("Pointer", .null)] => some (.pointer none)
  | .object [("Pointer", .text pointee)] => some (.pointer (some pointee))
  | .object [("Array", .list [element, length])] => do
    return .array (← ofDocument? element) (← length.word?)
  | _ => none

end MemberType

namespace Member

/-- The members of a stored record member. -/
def storedNames : List String := ["name", "ty"]

/-- The member as a document. -/
def toDocument (m : Member) : Document :=
  .object [("name", .text m.name), ("ty", m.type.toDocument)]

/-- Reads a member. -/
def ofDocument? (d : Document) : Option Member :=
  match d.record? storedNames with
  | some [name, type] => do
    return { name := ← name.text?, type := ← MemberType.ofDocument? type }
  | _ => none

end Member

namespace RecordDef

/-- The members of a stored record definition. -/
def storedNames : List String := ["name", "fields"]

/-- The definition as a document. -/
def toDocument (d : RecordDef) : Document :=
  .object [("name", .text d.name), ("fields", .list (d.members.map Member.toDocument))]

/-- Reads a definition. -/
def ofDocument? (d : Document) : Option RecordDef :=
  match d.record? storedNames with
  | some [name, members] => do
    return { name := ← name.text?, members := ← members.listOf? Member.ofDocument? }
  | _ => none

end RecordDef

end NativeLayout
