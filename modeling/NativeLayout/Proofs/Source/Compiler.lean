import NativeLayout.Proofs.Layout.Rounding
import NativeLayout.Source.CDeclaration
import NativeLayout.Source.RustDeclaration
import NativeLayout.Table

namespace NativeLayout.Source

/-!
# How a compiler reads declarations

The rules by which C and Rust lay out records, on unbounded numbers.  Nothing here refers to the
layouts that the declarations were written from.

* `measure?` — size and alignment of a type, given those of the records declared so far.
* `layItems` — each item at the least multiple of its alignment behind the item before.
* `compile?` — a record, rounded up to the largest alignment of its items.
* `compileAll?` — declarations in order, each with a check of its size.

A limit caps the alignment of every item: that of `#pragma pack` in C, that of `packed` in Rust.
-/

/-- Size and alignment of a type. -/
structure Measure where
  size : Nat
  align : Nat
  deriving DecidableEq, Repr

/-- The records declared so far. -/
abbrev Scope := Table String Measure

/-- A scalar is as aligned as it is wide, a pointer is an address, and an array is as aligned as
its elements. -/
def measure? (scope : Scope) : MemberType → Option Measure
  | .scalar type => some ⟨type.width, type.width⟩
  | .named name => scope.find? name
  | .pointer _ => some ⟨ScalarType.address.width, ScalarType.address.width⟩
  | .array element length => (measure? scope element).map fun m => ⟨length * m.size, m.align⟩

/-- The type an item is declared with; padding is an array of bytes. -/
def Item.type : Item → MemberType
  | .member m => m.type
  | .padding _ bytes => .array (.scalar .u8) bytes

/-- The offsets of the members that an item declares. -/
def Item.offsets (offset : Nat) : Item → List Nat
  | .member _ => [offset]
  | .padding _ _ => []

/-- An alignment under a limit, if there is one. -/
def limited (limit : Option Nat) (align : Nat) : Nat :=
  match limit with
  | some most => min align most
  | none => align

/-- Items, laid one behind the other. -/
structure Laid where
  /-- The offsets of the members among them. -/
  offsets : List Nat
  stop : Nat
  /-- The largest alignment of an item, at least 1. -/
  align : Nat
  deriving DecidableEq, Repr

/-- Each item at the least multiple of its alignment that is not below the end of the one before. -/
def layItems (limit : Option Nat) (scope : Scope) (start : Nat) : List Item → Option Laid
  | [] => some ⟨[], start, 1⟩
  | item :: rest =>
    (measure? scope item.type).bind fun m =>
      let align := limited limit m.align
      let offset := Word.roundUp start align
      (layItems limit scope (offset + m.size) rest).map fun later =>
        ⟨item.offsets offset ++ later.offsets, later.stop, max align later.align⟩

/-- A record as it is compiled. -/
structure Compiled where
  /-- The offsets of its members. -/
  offsets : List Nat
  measure : Measure
  deriving DecidableEq, Repr

/-- A record with these items ends at the least multiple of their largest alignment. -/
def compile? (limit : Option Nat) (scope : Scope) (items : List Item) : Option Compiled :=
  (layItems limit scope 0 items).map fun laid =>
    ⟨laid.offsets, ⟨Word.roundUp laid.stop laid.align, laid.align⟩⟩

/-- What counts of a declaration, whatever its language. -/
structure Declaration where
  name : String
  limit : Option Nat
  items : List Item
  /-- The size that is checked. -/
  size : Nat
  deriving DecidableEq, Repr

/-- Under `#pragma pack` no alignment is above the one that is given. -/
def CDeclaration.declaration (d : CDeclaration) : Declaration :=
  ⟨d.name, some d.pack, d.items, d.size⟩

/-- The limit of each representation. -/
def Representation.limit : Representation → Option Nat
  | .natural => none
  | .packed => some 1
  | .packedTo most => some most

def RustDeclaration.declaration (d : RustDeclaration) : Declaration :=
  ⟨d.name, d.representation.limit, d.items, d.size⟩

/-- Declarations in order.  None is compiled if a name is declared twice, if a type is not declared
before it is used, or if a size is not the one that is checked. -/
def compileAll? (scope : Scope) : List Declaration → Option (List Compiled)
  | [] => some []
  | d :: rest =>
    if (scope.find? d.name).isSome then none
    else
      (compile? d.limit scope d.items).bind fun c =>
        if c.measure.size = d.size then
          (compileAll? (scope.insert d.name c.measure) rest).map (c :: ·)
        else none

end NativeLayout.Source
