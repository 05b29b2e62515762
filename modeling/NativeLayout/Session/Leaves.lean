import NativeLayout.Node.Content
import NativeLayout.Session.Visit

namespace NativeLayout.Visit

/-!
# Leaves of a session

Each operation is for one kind of leaf and fails on any other structure.

* `getScalar`, `putScalar`, `getScalars`, `putScalars`, `scalarCount` — numbers.
* `getText`, `putText`, `textCapacity` — texts.
* `getEnum`, `putEnum`, `rawEnum` — names.
* `getPointer`, `putPointer` — addresses.
-/

/-- A number, with its type. -/
structure TypedNumber where
  type : ScalarType
  value : Int
  deriving DecidableEq, Repr

/-- The number at an index. -/
def getScalar (index : Nat) : Visit TypedNumber := read fun node store =>
  match node with
  | .leaf status (.scalars type count) =>
    match Leaf.readScalar store.heap status type count index with
    | .ok value => .ok { type, value }
    | .error e => .error (.fault e)
  | _ => .error (.wrongKind .scalars)

/-- All numbers. -/
def getScalars : Visit (List TypedNumber) := read fun node store =>
  match node with
  | .leaf status (.scalars type count) =>
    match Leaf.readScalars store.heap status type count with
    | .ok values => .ok (values.map fun value => { type, value })
    | .error e => .error (.fault e)
  | _ => .error (.wrongKind .scalars)

/-- Another number at an index. -/
def putScalar (index : Nat) (value : Int) : Visit Unit := write fun node heap =>
  match node with
  | .leaf status (.scalars type count) =>
    (Leaf.writeScalar heap status type count index value).mapError .fault
  | _ => .error (.wrongKind .scalars)

/-- Other numbers from the first one on. -/
def putScalars (values : List Int) : Visit Unit := write fun node heap =>
  match node with
  | .leaf status (.scalars type count) =>
    (Leaf.writeScalars heap status type count values).mapError .fault
  | _ => .error (.wrongKind .scalars)

/-- How many numbers there are. -/
def scalarCount : Visit Nat := read fun node _ =>
  match node with
  | .leaf _ (.scalars _ count) => .ok count
  | _ => .error (.wrongKind .scalars)

/-- The text. -/
def getText : Visit String := read fun node store =>
  match node with
  | .leaf status (.text capacity) => (Leaf.readText store.heap status capacity).mapError .fault
  | _ => .error (.wrongKind .text)

/-- Another text. -/
def putText (text : String) : Visit Unit := write fun node heap =>
  match node with
  | .leaf status (.text capacity) => (Leaf.writeText heap status capacity text).mapError .fault
  | _ => .error (.wrongKind .text)

/-- How many bytes there are for the text. -/
def textCapacity : Visit Nat := read fun node _ =>
  match node with
  | .leaf _ (.text capacity) => .ok capacity
  | _ => .error (.wrongKind .text)

/-- The name. -/
def getEnum : Visit String := read fun node store =>
  match node with
  | .leaf status (.enum type) => (Leaf.readEnum store.heap status type).mapError .fault
  | _ => .error (.wrongKind .enum)

/-- Another name, which must be one of the type's. -/
def putEnum (name : String) : Visit Unit := write fun node heap =>
  match node with
  | .leaf status (.enum type) =>
    match type.numberOf? name with
    | some number => (Leaf.writeEnum heap status number).mapError .fault
    | none => .error (.wrongKind .enum)
  | _ => .error (.wrongKind .enum)

/-- The number that stands for the name. -/
def rawEnum : Visit Int := read fun node store =>
  match node with
  | .leaf status (.enum _) =>
    match status.placement? with
    | some placement => .ok (Leaf.loadEnum store.heap placement)
    | none => .error (.wrongKind .storedEnum)
  | _ => .error (.wrongKind .enum)

/-- The address. -/
def getPointer : Visit Nat := read fun node store =>
  match node with
  | .leaf status (.pointer _) => (Leaf.readPointer store.heap status).mapError .fault
  | _ => .error (.wrongKind .pointer)

/-- Nothing, as long as the structure holds an address. -/
def expectPointer : Visit Unit := read fun node _ =>
  match node with
  | .leaf _ (.pointer _) => .ok ()
  | _ => .error (.wrongKind .pointer)

/-- Another address. -/
def putPointer (address : Nat) : Visit Unit := write fun node heap =>
  match node with
  | .leaf status (.pointer _) => (Leaf.writePointer heap status address).mapError .fault
  | _ => .error (.wrongKind .pointer)

end NativeLayout.Visit
