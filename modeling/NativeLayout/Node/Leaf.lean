import NativeLayout.MemberType

namespace NativeLayout

/-!
# Leaves

The structures without parts.

* `Leaf` — the kinds of leaves.
* `Leaf.shape?` — the shape a leaf gets.
* `Leaf.memberType`, `Leaf.typeName` — how a leaf presents itself.
-/

/-- A type of named numbers. -/
structure EnumType where
  name : String
  /-- The names with their numbers. -/
  variants : List (String × Int)
  deriving DecidableEq, Repr

namespace EnumType

/-- The name of a number. -/
def nameOf? (e : EnumType) (number : Int) : Option String :=
  (e.variants.find? fun v => v.2 = number).map (·.1)

/-- The number of a name. -/
def numberOf? (e : EnumType) (name : String) : Option Int :=
  (e.variants.find? fun v => v.1 = name).map (·.2)

end EnumType

/-- A structure without parts. -/
inductive Leaf where
  /-- Numbers of one type. -/
  | scalars (type : ScalarType) (count : Nat)
  /-- A text with a zero byte behind it. -/
  | text (capacity : Nat)
  /-- One of some names, stored as its number. -/
  | enum (type : EnumType)
  /-- An address, of a named type if one is given. -/
  | pointer (pointee : Option String)
  /-- Bytes that only their owner understands, of the given shape if there is such a shape.  A member
  that holds them is of a type that the owner chooses, which is named like the leaf if nothing is said. -/
  | custom (name : String) (wanted : Shape) (type : MemberType := .named name)
  deriving DecidableEq, Repr

namespace Leaf

/-- The shape a leaf gets. -/
def shape? : Leaf → Except LayoutError Shape
  | .scalars type count => type.run? count
  | .text capacity =>
    if capacity = 0 then .error (.missingLength .text) else ScalarType.char.run? capacity
  | .enum _ => ScalarType.i32.run? 1
  | .pointer _ => ScalarType.address.run? 1
  | .custom _ wanted _ =>
    if wanted.packed then .ok (.compressed wanted.size)
    else Shape.padded? wanted.size wanted.align wanted.pre wanted.post

/-- The type of a member that holds the leaf. -/
def memberType : Leaf → MemberType
  | .scalars type count => (MemberType.scalar type).repeated count
  | .text capacity => .array (.scalar .char) capacity
  | .enum _ => .scalar .i32
  | .pointer pointee => .pointer pointee
  | .custom _ _ type => type

/-- The name of the leaf's own type. -/
def typeName : Leaf → String
  | .enum type => type.name
  | .custom name _ _ => name
  | leaf => leaf.memberType.display

end Leaf

end NativeLayout
