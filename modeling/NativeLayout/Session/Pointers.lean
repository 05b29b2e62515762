import NativeLayout.Session.Leaves

namespace NativeLayout

/-!
# Pointers of a session

* `Target`, `Act.target` — what a pointer may point at, and its address.
* `Target.slot?` — the name a target is kept under.
* `Act.storeTarget` — the address of a target, in memory.
* `Act.pointAtArray`, `Act.pointAt`, `Act.castPointer`, `Act.stepPointer`, `Act.copyPointer` —
  pointers under names.
-/

/-- What a pointer may point at. -/
inductive Target where
  | nothing
  | node (path : Path)
  /-- The first element of an array. -/
  | array (path : Path)
  /-- Where another pointer points. -/
  | pointer (name : String)
  | address (address : Nat)
  deriving DecidableEq, Repr

/-- The name under which the structure that a target points into is kept. -/
def Target.slot? : Target → Option String
  | .node path | .array path => some path.slot
  | .nothing | .pointer _ | .address _ => none

namespace Act

/-- The address of a target. -/
def target : Target → Act Nat
  | .nothing => return Address.null
  | .node path => visit path <| Visit.read fun node _ =>
    (addressOf (some node)).mapError .fault
  | .array path => visit path <| Visit.onArray <| Visit.read fun node _ =>
    (addressOfArray node).mapError .fault
  | .pointer name => return (← pointer name).pointer.address
  | .address address => return address

/-- Stores the address of a target.  A target under the name of the structure that is to hold it
comes first: its address is known before the way to the holder changes anything under that name.
For any other target the holder is found first.  Either way it matters last whether the holder has
storage. -/
def storeTarget (path : Path) (t : Target) : Act Unit := do
  unless t.slot? = some path.slot do
    visit path Visit.expectPointer
  let address ← target t
  visit path (Visit.putPointer address)

/-- Keeps a pointer, which begins a chain of steps. -/
def beginPointer (name : String) (p : TypedPointer) : Act TrackedPointer := do
  let t : TrackedPointer := { pointer := p, start := p.address }
  keepPointer name t
  return t

/-- A pointer to the first element of an array. -/
def pointAtArray (name : String) (path : Path) : Act TrackedPointer := do
  let p ← visit path <| Visit.onArray <| Visit.read fun node _ =>
    (TypedPointer.ofArray node).mapError .fault
  beginPointer name p

/-- A pointer to a structure, or to nothing. -/
def pointAt (name : String) (path : Option Path) : Act TrackedPointer := do
  let p ← match path with
    | none => pure TypedPointer.null
    | some path => visit path <| Visit.read fun node _ =>
      (TypedPointer.ofNode (some node)).mapError .fault
  beginPointer name p

/-- A pointer under another type name; it is lost if the name is wrong. -/
def castPointer (name typeName : String) : Act TrackedPointer := do
  let t ← pointer name
  modify fun s => { s with pointers := s.pointers.erase name }
  let p ← ofFault (t.pointer.cast typeName)
  let t := { t with pointer := p }
  keepPointer name t
  return t

/-- A pointer some structures further on, kept under another name. -/
def stepPointer (name copy : String) (index : Nat) : Act TrackedPointer := do
  let t ← pointer name
  let p ← ofFault (t.pointer.step index)
  let t : TrackedPointer :=
    { pointer := p, start := if p.address = Address.null then Address.null else t.start }
  keepPointer copy t
  return t

/-- The same pointer under another name. -/
def copyPointer (name copy : String) : Act TrackedPointer := do
  let t ← pointer name
  keepPointer copy t
  return t

end Act

end NativeLayout
