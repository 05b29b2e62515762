import NativeLayout.MemberType
import NativeLayout.RecordLayout
import NativeLayout.Source.Language

namespace NativeLayout.Source

/-!
# The items of a declaration

A declaration lists the members of a record and, between them, the padding that its layout
has, so that no compiler has to insert any.

* `Item` — a declared member, or padding under a numbered name.
* `items?` — the items of a record definition under a layout.
* `paddingCount` — how many of the items are padding.
-/

/-- One line of a declaration. -/
inductive Item where
  | member (member : Member)
  /-- Padding of some bytes; the padding items of a declaration are numbered from zero. -/
  | padding (number bytes : Nat)
  deriving DecidableEq, Repr

/-- The name of a padding item. -/
def paddingName (number : Nat) : String := s!"_pad{number}"

/-- The name an item is declared under. -/
def Item.name : Item → String
  | .member m => m.name
  | .padding number _ => paddingName number

/-- Padding of some bytes, or nothing for zero bytes. -/
def padding (number bytes : Nat) : List Item :=
  if 0 < bytes then [.padding number bytes] else []

/-- The members, each behind the gap in front of it, and the padding at the end; `number`
is the number of the next padding item. -/
def arrange (number tail : Nat) : List Member → List Nat → List Item
  | m :: members, gap :: gaps =>
    let before := padding number gap
    before ++ .member m :: arrange (number + before.length) tail members gaps
  | _, _ => padding number tail

/-- The items of a definition, unless the layout is for another number of fields. -/
def items? (d : RecordDef) (layout : RecordLayout) : Except SourceError (List Item) :=
  if d.members.length = layout.offsets.length then
    .ok (arrange 0 layout.tail d.members layout.gaps)
  else .error (.fieldCountMismatch d.name d.members.length layout.offsets.length)

/-- The number of padding items a layout asks for. -/
def paddingCount (layout : RecordLayout) : Nat :=
  (layout.gaps.filter (0 < ·)).length + if 0 < layout.tail then 1 else 0

end NativeLayout.Source
