import NativeLayout.Memory.Heap
import NativeLayout.Node.Prepare

namespace NativeLayout.Node

/-!
# Giving structures storage

A structure gets the bytes of a region from some offset on.  Its value starts behind its
leading padding, and its children are placed inside it.

* `placeChildren` — the fields of a record at the offsets of its layout, the elements of an
  array one stride apart.
* `claim` — storage in a region that is there.
* `allocate` — storage in a region of its own.
-/

/-- Places the fields of a record whose value is at `start`; the gap in front of each field
is part of the layout, so its own leading padding is taken off again. -/
def placeFields (claimChild : Nat → Node → Shared → Outcome Node Unit) (start : Nat) :
    List (Field Node) → List Nat → Shared → Outcome (List (Field Node)) Unit
  | f :: rest, offset :: offsets, shared =>
    let pre := (f.child.shape?.map Shape.pre).getD 0
    if start + offset < pre then .fail shared (f :: rest) (.layout .overflow)
    else
      let first := claimChild (start + offset - pre) f.child shared
      match first.result with
      | .error fault => .fail first.shared (f.withChild first.state :: rest) fault
      | .ok _ =>
        (placeFields claimChild start rest offsets first.shared).mapState
          (f.withChild first.state :: ·)
  | fields, _, shared => .pure shared fields ()

/-- Places elements one stride apart, the first one at `start`. -/
def placeElements (claimChild : Nat → Node → Shared → Outcome Node Unit) (stride : Nat)
    (start : Nat) : List Node → Shared → Outcome (List Node) Unit
  | [], shared => .pure shared [] ()
  | element :: rest, shared =>
    let first := claimChild start element shared
    match first.result with
    | .error fault => .fail first.shared (first.state :: rest) fault
    | .ok _ =>
      (placeElements claimChild stride (start + stride) rest first.shared).mapState
        (first.state :: ·)

/-- The bytes from one element to the next, as far as they are known. -/
def strideOf (status : Status ArrayPlan) : Nat :=
  match status.plan? with
  | some plan => plan.stride
  | none => 0

/-- Places the children of a structure whose value is at `start`. -/
def placeChildren (claimChild : Nat → Node → Shared → Outcome Node Unit) (start : Nat) :
    Node → Shared → Outcome Node Unit
  | .leaf status kind, shared => .pure shared (.leaf status kind) ()
  | .record status head fields, shared =>
    match status.plan? with
    | none =>
      .fail shared (.record status head fields)
        (.illegal .placeFields (.atStage status.stage))
    | some layout =>
      (placeFields claimChild start fields layout.offsets shared).mapState
        fun fields => .record status head fields
  | .array status head template alternatives staged elements, shared =>
    if head.lazy then
      .pure shared
        (.array status head template alternatives staged (List.replicate head.length none)) ()
    else
      let ready := stageElements prepare status head template alternatives staged shared
      let (head, staged) := ready.state
      match ready.result with
      | .error fault =>
        .fail ready.shared (.array status head template alternatives staged elements) fault
      | .ok _ =>
        let placed := placeElements claimChild (strideOf status) start staged ready.shared
        match placed.result with
        | .error fault =>
          -- what was staged is gone, also if one of its elements cannot be placed
          .fail placed.shared (.array status head template alternatives [] elements) fault
        | .ok _ =>
          .pure placed.shared
            (.array status head template alternatives [] (placed.state.map some)) ()

/-- Gives a structure that is at most `fuel` deep the bytes of a region from `offset` on. -/
def claimWithin : (fuel : Nat) → (region : Region) → (ownership : Ownership) →
    (operation : Operation) → (offset : Nat) → Node → Shared → Outcome Node Unit
  | 0, _, _, _, _, n, shared => .pure shared n ()
  | fuel + 1, region, ownership, operation, offset, n, shared =>
    match n.status with
    | .allocatable shape =>
      if region.length - offset < shape.footprint then
        .fail shared n (.capacity shape.footprint (region.length - offset))
      else
        (n.prepare shared).bind fun shared n _ =>
          (placeChildren (claimWithin fuel region .claimed .claim) (offset + shape.pre) n
            shared).bind fun shared n _ =>
              .pure shared
                (n.withPlacement { region, offset := offset + shape.pre, ownership }) ()
    | status => .fail shared n (.illegal operation (.atStage status.stage))

/-- Gives the structure the bytes of a region from `offset` on. -/
def claim (region : Region) (offset : Nat) (n : Node) (shared : Shared) : Outcome Node Unit :=
  claimWithin n.depth region .claimed .claim offset n shared

/-- Places the children of a structure as if its value were at `start`. -/
def placeInside (region : Region) (start : Nat) (n : Node) (shared : Shared) :
    Outcome Node Unit :=
  placeChildren (claimWithin n.depth region .claimed .claim) start n shared

/-- Gives the structure a region of its own, which stays even if the structure cannot use
it. -/
def allocate (n : Node) (heap : Heap) (shared : Shared) : Outcome Node Unit × Heap :=
  match n.status with
  | .allocatable shape =>
    match heap.allocate shape.footprint shape.align with
    | .error e => (.fail shared n (.layout e), heap)
    | .ok (region, heap) =>
      (claimWithin n.depth region .root .allocate 0 n shared, heap)
  | status => (.fail shared n (.illegal .allocate (.atStage status.stage)), heap)

end NativeLayout.Node
