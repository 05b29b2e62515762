import NativeLayout.Session.Visit
import NativeLayout.Window

namespace NativeLayout

/-!
# Arrays of a session

* `ArrayView` — an array seen from outside.
* `Visit.elementType`, `Visit.elementAddress` — what is known without an element.
* `Visit.inWindow`, `Visit.overWindow` — operations on the elements in a window.
-/

/-- An array seen from outside. -/
structure ArrayView where
  head : ArrayHead
  stride : Nat
  /-- The indices of the elements that exist. -/
  made : List Nat
  deriving DecidableEq, Repr

namespace Visit

variable {α : Type}

/-- The indices of the elements that exist, the first one being `index`. -/
def madeFrom (index : Nat) : List (Option Node) → List Nat
  | [] => []
  | none :: rest => madeFrom (index + 1) rest
  | some _ :: rest => index :: madeFrom (index + 1) rest

/-- An array seen from outside. -/
def array : Visit ArrayView := read fun node _ =>
  match node with
  | .array status head _ _ _ elements =>
    .ok { head, stride := Node.strideOf status, made := madeFrom 0 elements }
  | _ => .error (.wrongKind .array)

/-- The type name of an element; an array that is not resolved is asked for it. -/
def elementType : Visit String := onArray <| change fun node shared =>
  let name := match node with
    | .array status head template alternatives _ _ =>
      match status.plan? with
      | some plan => plan.facade.typeName
      | none => (choose head.calls alternatives template).facade.typeName
    | node => node.facade.typeName
  .pure (node.ask shared) node.asked name

/-- An element, if it exists. -/
def peek (index : Nat) : Visit (Option Node) := onArray <| read fun node _ =>
  .ok (node.element? index)

/-- The address of an element. -/
def elementAddress (index : Nat) : Visit Nat := onArray <| read fun node _ =>
  (node.elementAddress index).mapError .fault

/-- The window of all elements. -/
def allElements : Visit Window := onArray <| read fun node _ => .ok (.whole node.length)

/-- An operation on the element at an index of a window. -/
def inWindow (w : Window) (index : Nat) (visit : Visit α) : Visit α :=
  match w.index index with
  | .ok i => element i visit
  | .error e => fail (.fault e)

/-- The element at an index of a window, if it exists. -/
def peekInWindow (w : Window) (index : Nat) : Visit (Option Node) :=
  match w.index index with
  | .ok i => peek i
  | .error _ => read fun _ _ => .ok none

/-- The address of the element at an index of a window. -/
def addressInWindow (w : Window) (index : Nat) : Visit Nat :=
  match w.index index with
  | .ok i => elementAddress i
  | .error e => fail (.fault e)

/-- An operation on each element in a window. -/
def overWindow (w : Window) (visit : Visit α) : Visit (List (Except SessionError α)) :=
  each (w.indices.map fun i => element i visit)

end Visit

/-- The windows that are cut one from the other, up to the first that does not fit. -/
def Window.cuts (w : Window) : List (Nat × Nat) → List Window × Except Fault Window
  | [] => ([], .ok w)
  | (start, count) :: rest =>
    match w.cut start count with
    | .error e => ([], .error e)
    | .ok v =>
      let others := v.cuts rest
      (v :: others.1, others.2)

end NativeLayout
