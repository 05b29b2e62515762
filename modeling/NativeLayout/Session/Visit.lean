import NativeLayout.Node.Record
import NativeLayout.Session.Basic

namespace NativeLayout

/-!
# Visiting structures

* `Visit` — an operation on one structure, with the memory and what structures share.
* `Path` — the way from a name to a structure.
* `Act.visit` — an operation on the structure at the end of a path.
-/

/-- What a visit leaves behind, and its result. -/
structure Visited (α : Type) where
  node : Node
  store : Store
  result : Except SessionError α

/-- An operation on one structure. -/
def Visit (α : Type) := Node → Store → Visited α

namespace Visit

variable {α β : Type}

/-- Looks at a structure and changes nothing. -/
def read (f : Node → Store → Except SessionError α) : Visit α := fun node store =>
  { node, store, result := f node store }

/-- Fails and changes nothing. -/
def fail (e : SessionError) : Visit α := read fun _ _ => .error e

/-- An operation that leaves the memory alone. -/
def change (f : Node → Shared → Outcome Node α) : Visit α := fun node store =>
  let r := f node store.shared
  { node := r.state
    store := { store with shared := r.shared }
    result := r.result.mapError .fault }

/-- An operation that changes the memory and nothing else. -/
def write (f : Node → Heap → Except SessionError Heap) : Visit Unit := fun node store =>
  match f node store.heap with
  | .ok heap => { node, store := { store with heap }, result := .ok () }
  | .error e => { node, store, result := .error e }

/-- A second operation after a successful first one. -/
def bind (first : Visit α) (next : α → Visit β) : Visit β := fun node store =>
  let r := first node store
  match r.result with
  | .ok a => next a r.node r.store
  | .error e => { node := r.node, store := r.store, result := .error e }

/-- The structure as it is now, after an operation. -/
def thenNode (first : Visit α) : Visit Node :=
  first.bind fun _ => read fun node _ => .ok node

/-- Operations one after the other, with the result of each. -/
def each : List (Visit α) → Visit (List (Except SessionError α))
  | [] => read fun _ _ => .ok []
  | first :: rest => fun node store =>
    let r := first node store
    (each rest).bind (fun results => read fun _ _ => .ok (r.result :: results)) r.node r.store

/-! ### Ways down the tree -/

/-- An operation on the first field that has some property. -/
def field (p : Field Node → Bool) (visit : Visit α) : Visit α := fun node store =>
  match node with
  | .record status head fields =>
    match fields.findIdx? p with
    | none => { node, store, result := .error (.missing .field) }
    | some position =>
      match fields[position]? with
      | none => { node, store, result := .error (.missing .field) }
      | some f =>
        let r := visit f.child store
        { r with node := .record status head (fields.set position (f.withChild r.node)) }
  | node => { node, store, result := .error (.wrongKind .record) }

/-- An operation for arrays only. -/
def onArray (visit : Visit α) : Visit α := fun node store =>
  match node with
  | .array .. => visit node store
  | node => { node, store, result := .error (.wrongKind .array) }

/-- An operation on an element of an array, which exists afterwards. -/
def element (index : Nat) (visit : Visit α) : Visit α :=
  onArray <| (change (Node.materialize index)).bind fun _ => fun node store =>
    match node.element? index with
    | none => { node, store, result := .error (.missing .field) }
    | some e =>
      let r := visit e store
      { r with node := node.setElement index r.node }

end Visit

/-- A step down the tree. -/
inductive PathStep where
  /-- To the field under an index. -/
  | index (index : Nat)
  /-- To the first field with a name. -/
  | name (name : String)
  /-- To an element. -/
  | element (index : Nat)
  deriving DecidableEq, Repr

/-- The way from a name to a structure. -/
structure Path where
  slot : String
  steps : List PathStep
  deriving DecidableEq, Repr

/-- An operation on the structure at the end of some steps. -/
def Visit.along {α : Type} (visit : Visit α) : List PathStep → Visit α
  | [] => visit
  | .index index :: rest => Visit.field (fun f => f.index = index) (visit.along rest)
  | .name name :: rest => Visit.field (fun f => f.name = name) (visit.along rest)
  | .element index :: rest => Visit.element index (visit.along rest)

namespace Act

variable {α : Type}

/-- An operation on the structure at the end of a path. -/
def visit (path : Path) (v : Visit α) : Act α := do
  let n ← find .slot Session.slots path.slot
  let r := v.along path.steps n (← get).store
  keep path.slot r.node
  setStore r.store
  match r.result with
  | .ok a => return a
  | .error e => throw e

end Act

end NativeLayout
