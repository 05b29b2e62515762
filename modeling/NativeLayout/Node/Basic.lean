import NativeLayout.Catalog
import NativeLayout.Node.Leaf
import NativeLayout.Node.Status

namespace NativeLayout

/-!
# Structures

A structure is a tree of leaves, records and arrays, each with its own status.  The elements
of an array are built from templates, one for each time the array builds something; they
come into being when the array gets storage, or later one by one if it is lazy.

* `Node` — the trees.
* `Node.shape?`, `Node.placement?`, `Node.stage` — what is known of a tree.
* `Node.depth` — how deep a tree is.
-/

/-- A child of a record, under its index and name. -/
structure Field (α : Type) where
  index : Nat
  name : String
  child : α
  deriving DecidableEq, Repr

/-- The field with another child. -/
def Field.withChild {α β : Type} (f : Field α) (child : β) : Field β :=
  { index := f.index, name := f.name, child }

/-- What a record is apart from its fields. -/
structure RecordHead where
  typeName : String
  abi : Abi
  packed : Bool
  /-- The number of the catalog it takes its layout from. -/
  catalog : Nat
  deriving DecidableEq, Repr

/-- What an array is apart from its elements. -/
structure ArrayHead where
  length : Nat
  /-- Whether elements are built when they are first used. -/
  lazy : Bool
  /-- How often the array built something from a template. -/
  calls : Nat
  /-- The tally that is kept of these. -/
  counter : Option String
  deriving DecidableEq, Repr

/-- How a structure presents itself: the name of its type, and the type of a member that
holds it. -/
structure Facade where
  typeName : String
  memberType : MemberType
  deriving DecidableEq, Repr

/-- What an array knows once it is resolved. -/
structure ArrayPlan where
  /-- The shape of the array. -/
  shape : Shape
  /-- The bytes from one element to the next. -/
  stride : Nat
  /-- The shape of each element. -/
  element : Shape
  /-- How an element presents itself. -/
  facade : Facade
  /-- The records an element is made of, inner ones first. -/
  records : List (RecordDef × RecordLayout)
  deriving DecidableEq, Repr

/-- A structure. -/
inductive Node where
  | leaf (status : Status Shape) (kind : Leaf)
  | record (status : Status RecordLayout) (head : RecordHead) (fields : List (Field Node))
  /-- `template` is what elements are built from, unless `alternatives` has an entry for the
  call; `staged` holds elements that are built but not placed. -/
  | array (status : Status ArrayPlan) (head : ArrayHead) (template : Node)
      (alternatives : List (Nat × Node)) (staged : List Node) (elements : List (Option Node))

namespace Node

instance : Inhabited Node := ⟨.leaf .unallocated (.pointer none)⟩

/-- The status, as far as any structure has one. -/
def status : Node → Status Shape
  | .leaf status _ => status
  | .record status _ _ => status.map RecordLayout.shape
  | .array status .. => status.map ArrayPlan.shape

/-- The stage of the structure. -/
def stage (n : Node) : Stage := n.status.stage

/-- The shape of a resolved structure. -/
def shape? (n : Node) : Option Shape := n.status.plan?

/-- Where the structure is stored. -/
def placement? (n : Node) : Option Placement := n.status.placement?

/-- The address of the first byte. -/
def address? (n : Node) : Option Nat := n.placement?.map Placement.address

/-- What a resolved array knows. -/
def arrayPlan? : Node → Option ArrayPlan
  | .array status _ _ _ _ _ => status.plan?
  | _ => none

/-- The structure, stored at a place. -/
def withPlacement (placement : Placement) : Node → Node
  | .leaf status kind => .leaf (status.place placement) kind
  | .record status head fields => .record (status.place placement) head fields
  | .array status head template alternatives staged elements =>
    .array (status.place placement) head template alternatives staged elements

/-! ### Building structures -/

/-- A leaf without storage. -/
def ofLeaf (kind : Leaf) : Node := .leaf .unallocated kind

/-- A record without fields. -/
def newRecord (head : RecordHead) : Node := .record .unallocated head []

/-- An array without elements. -/
def newArray (length : Nat) (lazy : Bool) (counter : Option String) (template : Node)
    (alternatives : List (Nat × Node)) : Node :=
  .array .unallocated { length, lazy, calls := 0, counter } template alternatives [] []

/-! ### Structures in a region -/

/-- One for a structure that is stored in the region. -/
def holds (region : Region) (n : Node) : Nat :=
  match n.placement? with
  | some placement => if placement.region.number = region.number then 1 else 0
  | none => 0

mutual

/-- The number of structures in the tree that are stored in the region. -/
def storedIn (region : Region) : Node → Nat
  | .leaf status kind => holds region (.leaf status kind)
  | .record status head fields =>
    holds region (.record status head fields) + storedInFields region fields
  | .array status head template alternatives staged elements =>
    holds region (.array status head template alternatives staged elements) +
      (storedInList region staged + storedInOptions region elements)

def storedInFields (region : Region) : List (Field Node) → Nat
  | [] => 0
  | ⟨_, _, child⟩ :: rest => child.storedIn region + storedInFields region rest

def storedInList (region : Region) : List Node → Nat
  | [] => 0
  | n :: rest => n.storedIn region + storedInList region rest

def storedInOptions (region : Region) : List (Option Node) → Nat
  | [] => 0
  | none :: rest => storedInOptions region rest
  | some n :: rest => n.storedIn region + storedInOptions region rest

end

/-! ### Depth -/

mutual

/-- The number of structures on the longest way down the tree, templates included. -/
def depth : Node → Nat
  | .leaf .. => 1
  | .record _ _ fields => 1 + depthFields fields
  | .array _ _ template alternatives staged elements =>
    1 + max (max template.depth (depthAlternatives alternatives))
      (max (depthList staged) (depthOptions elements))

def depthFields : List (Field Node) → Nat
  | [] => 0
  | ⟨_, _, child⟩ :: rest => max child.depth (depthFields rest)

def depthAlternatives : List (Nat × Node) → Nat
  | [] => 0
  | (_, n) :: rest => max n.depth (depthAlternatives rest)

def depthList : List Node → Nat
  | [] => 0
  | n :: rest => max n.depth (depthList rest)

def depthOptions : List (Option Node) → Nat
  | [] => 0
  | none :: rest => depthOptions rest
  | some n :: rest => max n.depth (depthOptions rest)

end

end Node

end NativeLayout
