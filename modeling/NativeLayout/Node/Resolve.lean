import NativeLayout.Node.Facade

namespace NativeLayout.Node

/-!
# Resolving structures

A structure is resolved once, inner structures first; from then on its shape is fixed.

* `planArray` — what follows from the shape of the first element that an array builds.
* `resolve` — the shape of a structure, which is then allocatable.
-/

/-- The distance from one element to the next. -/
def stride? (element : Shape) : Option Nat :=
  if element.packed then some element.footprint
  else Word.roundUp? element.footprint element.align

/-- The stride and the shape of an array of `length` elements. -/
def arrayShape? (length : Nat) (element : Shape) : Except LayoutError (Nat × Shape) :=
  match stride? element with
  | none => .error .overflow
  | some stride =>
    match Word.mul? stride length with
    | none => .error .overflow
    | some size =>
      if element.packed then .ok (stride, .compressed size)
      else (Shape.plain? size element.align).map fun shape => (stride, shape)

/-- What an array knows once its first element is resolved. -/
def planArray (length : Nat) (element : Shape) (first : Node) : Except LayoutError ArrayPlan :=
  (arrayShape? length element).map fun (stride, shape) =>
    { shape, stride, element
      facade := first.facade
      records := first.records.toOption.getD [] }

mutual

/-- The shape of a structure, which is allocatable afterwards.  A structure that has a shape
stays as it is. -/
def resolve : Node → Shared → Outcome Node Shape
  | .leaf status kind, shared =>
    match status.plan? with
    | some shape => .pure shared (.leaf status kind) shape
    | none =>
      match kind.shape? with
      | .error e => .fail shared (.leaf status kind) (.layout e)
      | .ok shape => .pure shared (.leaf (.allocatable shape) kind) shape
  | .record status head fields, shared =>
    match status.plan? with
    | some layout => .pure shared (.record status head fields) layout.shape
    | none =>
      let r := resolveFields fields shared
      match r.result with
      | .error fault => .fail r.shared (.record status head r.state) fault
      | .ok shapes =>
        let key : Catalog.Key :=
          { typeName := head.typeName, abi := head.abi, packed := head.packed }
        -- the fields stay resolved, whatever the catalog answers
        match r.shared.request head.catalog key shapes with
        | (.error e, shared) => .fail shared (.record status head r.state) (.layout e)
        | (.ok layout, shared) =>
          .pure shared (.record (.allocatable layout) head r.state) layout.shape
  | .array status head template alternatives staged elements, shared =>
    match status.plan? with
    | some plan =>
      .pure shared (.array status head template alternatives staged elements) plan.shape
    | none =>
      if head.length = 0 then
        .fail shared (.array status head template alternatives staged elements)
          (.layout (.missingLength .elements))
      else
        -- one call for the prototype, of which only the plan is kept
        let first := choose head.calls (resolveAlternatives alternatives) template.resolve
          (shared.count head.counter)
        let head := { head with calls := head.calls + 1 }
        match first.result with
        | .error fault =>
          .fail first.shared (.array status head template alternatives staged elements) fault
        | .ok element =>
          match planArray head.length element first.state with
          | .error e =>
            .fail first.shared (.array status head template alternatives staged elements)
              (.layout e)
          | .ok plan =>
            .pure first.shared
              (.array (.allocatable plan) head template alternatives staged elements) plan.shape

def resolveFields : List (Field Node) → Shared → Outcome (List (Field Node)) (List Shape)
  | [], shared => .pure shared [] []
  | ⟨index, name, child⟩ :: rest, shared =>
    let first := child.resolve shared
    match first.result with
    | .error fault => .fail first.shared (⟨index, name, first.state⟩ :: rest) fault
    | .ok shape =>
      let others := resolveFields rest first.shared
      { shared := others.shared
        state := ⟨index, name, first.state⟩ :: others.state
        result := others.result.map (shape :: ·) }

def resolveAlternatives : List (Nat × Node) → List (Nat × (Shared → Outcome Node Shape))
  | [] => []
  | (call, n) :: rest => (call, n.resolve) :: resolveAlternatives rest

end

theorem resolveAlternatives_eq_map (alternatives : List (Nat × Node)) :
    resolveAlternatives alternatives = alternatives.map fun entry => (entry.1, entry.2.resolve) := by
  induction alternatives with
  | nil => rfl
  | cons entry rest ih => simp [resolveAlternatives, ih]

end NativeLayout.Node
