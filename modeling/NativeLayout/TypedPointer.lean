import NativeLayout.Node.Element
import NativeLayout.Text.Quoted

namespace NativeLayout

/-!
# Pointers

* `addressOf`, `addressOfArray` — the address of a structure.
* `TypedPointer` — an address with the type behind it.
* `TypedPointer.cast`, `TypedPointer.step` — another name for the type, and the next
  structures of that type.
-/

/-- The address of a structure; nothing has the null address. -/
def addressOf : Option Node → Except Fault Nat
  | none => .ok Address.null
  | some n =>
    match n.address? with
    | some address => .ok address
    | none => .error (.illegal .takeAddress (.atStage n.stage))

/-- The address of the first element of an array. -/
def addressOfArray (n : Node) : Except Fault Nat := n.elementAddress 0

/-- An address that remembers what is behind it. -/
structure TypedPointer where
  address : Nat
  /-- The name of the type behind it. -/
  pointee : Option String
  /-- The bytes from one structure to the next. -/
  stride : Nat
  deriving DecidableEq, Repr

namespace TypedPointer

/-- The pointer to nothing. -/
def null : TypedPointer := { address := Address.null, pointee := none, stride := 0 }

/-- The pointer to a structure. -/
def ofNode : Option Node → Except Fault TypedPointer
  | none => .ok null
  | some n =>
    (addressOf (some n)).map fun address =>
      { address, pointee := some n.facade.typeName
        stride := (n.shape?.map Shape.extent).getD 0 }

/-- The pointer to the first element of an array. -/
def ofArray (n : Node) : Except Fault TypedPointer :=
  (addressOfArray n).map fun address =>
    { address
      pointee := n.arrayPlan?.map fun plan => plan.facade.typeName
      stride := (n.arrayPlan?.map ArrayPlan.stride).getD 0 }

/-- The same pointer, as long as the name is that of the type behind it; the pointer to
nothing fits any name. -/
def cast (p : TypedPointer) (name : String) : Except Fault TypedPointer :=
  match p.pointee with
  | some found => if found = name then .ok p else .error (.typeMismatch name found)
  | none => .ok p

/-- The pointer to the structure `index` places further on. -/
def step (p : TypedPointer) (index : Nat) : Except Fault TypedPointer :=
  if p.address = Address.null then .ok null
  else
    match (Word.mul? index p.stride).bind (Address.move? p.address) with
    | some address => .ok { p with address }
    | none => .error (.layout .overflow)

/-- Whether two pointers point at the same structure as the same type. -/
def same (p q : TypedPointer) : Bool :=
  p.address = q.address ∧ p.pointee = q.pointee

/-- The pointer in one line. -/
def describe (heap : Heap) (p : TypedPointer) : String :=
  let address := if p.address = Address.null then Address.text p.address
    else heap.addressText p.address
  let pointee := match p.pointee with
    | some name => s!"Some({Text.quoted name})"
    | none => "None"
  s!"TypedPointer \x7b pointer: {address}, pointee: {pointee}, stride: {p.stride} \x7d"

end TypedPointer

end NativeLayout
