import NativeLayout.Node.Claim

namespace NativeLayout.Node

/-!
# Elements of an array

* `materialize` — makes sure that an element exists.
* `element?` — an element, if it exists.
* `elementAddress` — where an element is or will be.
-/

/-- The number of elements; a structure that is no array has none. -/
def length : Node → Nat
  | .array _ head _ _ _ _ => head.length
  | _ => 0

/-- The element at an index, if it exists. -/
def element? (index : Nat) : Node → Option Node
  | .array _ _ _ _ _ elements => (elements[index]?).join
  | _ => none

/-- The array with another element at an index. -/
def setElement (n : Node) (index : Nat) (element : Node) : Node :=
  match n with
  | .array status head template alternatives staged elements =>
    .array status head template alternatives staged (elements.set index (some element))
  | n => n

/-- Makes sure that the element at an index exists: the first use of an index of a lazy array
builds the element and places it. -/
def materialize (index : Nat) (n : Node) (shared : Shared) : Outcome Node Unit :=
  match n with
  | .array status head template alternatives staged elements =>
    match status with
    | .allocated plan placement =>
      if index < head.length then
        match (elements[index]?).join with
        | some _ => .pure shared n ()
        | none =>
          let made := build prepare status template alternatives index head shared
          let withElements (elements : List (Option Node)) : Node :=
            .array status made.state template alternatives staged elements
          match made.result with
          | .error fault => .fail made.shared (withElements elements) fault
          | .ok element =>
            let placed := claim placement.region (placement.offset + index * plan.stride) element
              made.shared
            match placed.result with
            -- the element is thrown away, but its call counts, and the next use builds another one
            | .error fault => .fail placed.shared (withElements elements) fault
            | .ok _ =>
              .pure placed.shared (withElements (elements.set index (some placed.state))) ()
      else .fail shared n (.outOfRange index head.length)
    | status => .fail shared n (.illegal .getElement (.atStage status.stage))
  | n => .fail shared n (.outOfRange index 0)

/-- The address of an element, whether it exists or not. -/
def elementAddress (index : Nat) : Node → Except Fault Nat
  | .array status head _ _ _ _ =>
    match status with
    | .allocated plan placement =>
      if index < head.length then
        .ok (placement.address + index * plan.stride + plan.element.pre)
      else .error (.outOfRange index head.length)
    | status => .error (.illegal .addressElement (.atStage status.stage))
  | _ => .error (.outOfRange index 0)

end NativeLayout.Node
