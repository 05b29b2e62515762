import NativeLayout.Proofs.Session.Route
import NativeLayout.Proofs.Tree.Matching

namespace NativeLayout

/-!
# Structures in another place

* `Status.relocate`, `Node.relocate` — a structure whose parts are stored elsewhere; its templates, and
  the elements that are not placed yet, are what they were.
* `Node.setChild_relocate`, `Node.element?_relocate`, `Node.setElement_relocate` — its children are those
  of the structure, elsewhere.
* `Node.relocate_id` — nothing changes if nothing is moved.
-/

namespace Status

variable {α : Type}

/-- The status of something that is stored elsewhere. -/
def relocate (f : Placement → Placement) : Status α → Status α
  | .allocated plan place => .allocated plan (f place)
  | s => s

/-- A status that is not moved stays as it is. -/
@[simp] theorem relocate_id (s : Status α) : s.relocate id = s := by
  cases s <;> rfl

/-- To place and then to move is to place where it is moved to. -/
theorem place_relocate (f : Placement → Placement) (place : Placement) (s : Status α) :
    (s.place place).relocate f = (s.relocate f).place (f place) := by
  cases s <;> rfl

end Status

namespace Node

mutual

/-- The structure with its parts stored elsewhere. -/
def relocate (f : Placement → Placement) : Node → Node
  | .leaf status kind => .leaf (status.relocate f) kind
  | .record status head fields => .record (status.relocate f) head (relocateFields f fields)
  | .array status head template alternatives staged elements =>
    .array (status.relocate f) head template alternatives staged (relocateElements f elements)

def relocateFields (f : Placement → Placement) : List (Field Node) → List (Field Node)
  | [] => []
  | ⟨index, name, child⟩ :: rest => ⟨index, name, child.relocate f⟩ :: relocateFields f rest

def relocateElements (f : Placement → Placement) : List (Option Node) → List (Option Node)
  | [] => []
  | none :: rest => none :: relocateElements f rest
  | some e :: rest => some (e.relocate f) :: relocateElements f rest

end

/-- Each field is moved with what is inside it. -/
theorem relocateFields_eq_map (f : Placement → Placement) (fields : List (Field Node)) :
    relocateFields f fields = fields.map fun g => g.withChild (g.child.relocate f) := by
  induction fields with
  | nil => rfl
  | cons g rest ih => rw [relocateFields, ih]; rfl

/-- Each element that exists is moved. -/
theorem relocateElements_eq_map (f : Placement → Placement) (elements : List (Option Node)) :
    relocateElements f elements = elements.map (Option.map (relocate f)) := by
  induction elements with
  | nil => rfl
  | cons e rest ih => cases e <;> simp only [relocateElements, ih, List.map_cons, Option.map]

variable (f : Placement → Placement)

/-- A structure that is placed and moved is placed where it is moved to. -/
theorem withPlacement_relocate (place : Placement) (n : Node) :
    (n.withPlacement place).relocate f = (n.relocate f).withPlacement (f place) := by
  cases n <;> simp only [withPlacement, relocate, Status.place_relocate]

/-- A tree of which nothing is moved. -/
theorem relocate_id (n : Node) : n.relocate id = n := by
  induction n.forall_true with
  | leaf => simp only [relocate, Status.relocate_id]
  | @record status head fields _ _ ih =>
    have hfields : relocateFields id fields = fields := by
      rw [relocateFields_eq_map]
      refine (List.map_congr_left fun g hg => ?_).trans (List.map_id fields)
      rw [ih g hg]
      rfl
    simp only [relocate, Status.relocate_id, hfields]
  | @array status head template alternatives staged elements _ _ _ _ _ _ _ _ ih =>
    have helements : relocateElements id elements = elements := by
      rw [relocateElements_eq_map]
      refine (List.map_congr_left fun e he => ?_).trans (List.map_id elements)
      cases e with
      | none => rfl
      | some e => rw [Option.map_some, ih e he]; rfl
    simp only [relocate, Status.relocate_id, helements]

/-! ### Children -/

/-- Exchanging a field commutes with moving the record. -/
theorem setChild_relocate (n : Node) (k : Nat) (c : Node) :
    (n.setChild k c).relocate f = (n.relocate f).setChild k (c.relocate f) := by
  cases n with
  | leaf => rfl
  | record status head fields =>
    simp only [setChild, relocate, relocateFields_eq_map, List.getElem?_map]
    cases fields[k]? with
    | none => simp only [relocate, relocateFields_eq_map, Option.map_none]
    | some g => simp only [relocate, relocateFields_eq_map, List.map_set, Option.map_some]; rfl
  | array => simp only [setChild, relocate, relocateElements_eq_map, List.map_set, Option.map_some]

/-- The element at an index of a moved array is the moved element. -/
theorem element?_relocate (k : Nat) (n : Node) :
    (n.relocate f).element? k = (n.element? k).map (relocate f) := by
  cases n with
  | leaf => rfl
  | record => rfl
  | array =>
    simp only [relocate, element?, relocateElements_eq_map, List.getElem?_map,
      Option.join_map_eq_map_join]

/-- Exchanging an element commutes with moving the array. -/
theorem setElement_relocate (n : Node) (k : Nat) (e : Node) :
    (n.setElement k e).relocate f = (n.relocate f).setElement k (e.relocate f) := by
  cases n with
  | leaf => rfl
  | record => rfl
  | array => simp only [setElement, relocate, relocateElements_eq_map, List.map_set, Option.map_some]

end Node

end NativeLayout
