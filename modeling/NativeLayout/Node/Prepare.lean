import NativeLayout.Node.Resolve

namespace NativeLayout.Node

/-!
# Preparing for storage

Before a structure gets storage, each array in it builds its elements, unless it is lazy, and
checks that they all have one shape.

* `build` — one element of an array.
* `stageElements` — the elements of an array, built but not placed.
* `prepare` — all arrays of a structure.
-/

/-- Builds one element of an array from a template: it must have the shape of the first one,
and `prep` prepares what is inside it. -/
def build (prep : Node → Shared → Outcome Node Unit) (status : Status ArrayPlan)
    (template : Node) (alternatives : List (Nat × Node)) (index : Nat) (head : ArrayHead)
    (shared : Shared) : Outcome ArrayHead Node :=
  match status.plan? with
  | none => .fail shared head (.illegal .buildElement (.atStage status.stage))
  | some plan =>
    let made := (choose head.calls alternatives template).resolve (shared.count head.counter)
    let head := { head with calls := head.calls + 1 }
    match made.result with
    | .error fault => .fail made.shared head fault
    | .ok shape =>
      if shape = plan.element then
        let ready := prep made.state made.shared
        { shared := ready.shared, state := head, result := ready.result.map fun _ => ready.state }
      else .fail made.shared head (.layout (.elementMismatch index))

/-- Builds `count` elements from an index on. -/
def buildMany (one : Nat → ArrayHead → Shared → Outcome ArrayHead Node) :
    (count index : Nat) → ArrayHead → Shared → Outcome ArrayHead (List Node)
  | 0, _, head, shared => .pure shared head []
  | count + 1, index, head, shared =>
    let first := one index head shared
    match first.result with
    | .error fault => .fail first.shared first.state fault
    | .ok element =>
      let others := buildMany one count (index + 1) first.state first.shared
      { shared := others.shared
        state := others.state
        result := others.result.map (element :: ·) }

/-- The head of an array and its staged elements, once there is one for each index.  A lazy
array stages nothing. -/
def stageElements (prep : Node → Shared → Outcome Node Unit) (status : Status ArrayPlan)
    (head : ArrayHead) (template : Node) (alternatives : List (Nat × Node))
    (staged : List Node) (shared : Shared) : Outcome (ArrayHead × List Node) Unit :=
  if head.lazy ∨ staged.length = head.length then .pure shared (head, staged) ()
  else
    let made := buildMany (build prep status template alternatives) head.length 0 head shared
    match made.result with
    | .error fault => .fail made.shared (made.state, staged) fault
    | .ok elements => .pure made.shared (made.state, elements) ()

/-- Prepares a structure that is at most `fuel` deep. -/
def prepareWithin : (fuel : Nat) → Node → Shared → Outcome Node Unit
  | 0, n, shared => .pure shared n ()
  | _ + 1, .leaf status kind, shared => .pure shared (.leaf status kind) ()
  | fuel + 1, .record status head fields, shared =>
    let r := traverse
      (fun f shared => (prepareWithin fuel f.child shared).mapState f.withChild) fields shared
    { shared := r.shared
      state := .record status head r.state
      result := r.result.map fun _ => () }
  | fuel + 1, .array status head template alternatives staged elements, shared =>
    (stageElements (prepareWithin fuel) status head template alternatives staged shared).mapState
      fun (head, staged) => .array status head template alternatives staged elements

/-- Builds and checks the elements of all arrays in the structure. -/
def prepare (n : Node) (shared : Shared) : Outcome Node Unit :=
  prepareWithin n.depth n shared

end NativeLayout.Node
