import NativeLayout.Proofs.Layout.Spacing
import NativeLayout.Proofs.Tree.Sound

namespace NativeLayout.Node

/-!
# Where the children of a stored structure are

* `childOffset?` — where a layout or a plan puts a child, from the start of the value around it.
* `Stands` — a child with its shape and its placement.
* `Encloses` — the children of a stored structure are stored inside it, where its layout or its
  plan puts them, one behind the other.
* `ArraySound.slot_le` — the slot of every element is inside the array, whether the element is there or
  not.
* `encloses_of_consistent` — a stored structure that is sound encloses its children.
* `stage_child` — so its children are stored as well.
-/

/-- The offset of a child in the structure around it, once that is resolved. -/
def childOffset? (k : Nat) : Node → Option Nat
  | .leaf .. => none
  | .record status _ _ => status.plan?.bind fun l => l.offsets[k]?
  | .array status _ _ _ _ _ => status.plan?.map fun plan => k * plan.stride + plan.element.pre

/-- The child at a rank or an index, with its shape and its placement. -/
structure Stands (n : Node) (k : Nat) (s : Shape) (p : Placement) : Prop where
  status : (n.child? k).map Node.status = some (.allocated s p)

/-- What is known of the children of a structure of some shape that is stored somewhere. -/
structure Encloses (n : Node) (shape : Shape) (place : Placement) : Prop where
  /-- The ranks of the fields of a record are in the order of their indices. -/
  ascending : ∀ status head fields, n = .record status head fields →
    fields.Pairwise fun f g => f.index < g.index
  /-- Every child is stored where the structure has it. -/
  stands : ∀ k c, n.child? k = some c → ∃ s offset, n.childOffset? k = some offset ∧
    n.Stands k s ⟨place.region, place.offset + offset, .claimed⟩
  /-- A child and its leading padding are inside the structure. -/
  inside : ∀ k s p, n.Stands k s p →
    place.offset + s.pre ≤ p.offset ∧ p.offset + s.extent ≤ place.offset + shape.size
  /-- A child ends before the leading padding of every later one. -/
  apart : ∀ j k s t p q, j < k → n.Stands j s p → n.Stands k t q →
    p.offset + s.extent + t.pre ≤ q.offset

variable {n : Node} {shape s : Shape} {place p : Placement} {k : Nat}

/-- Shape and place together are the status of a stored structure. -/
theorem status_eq_of {s : Shape} (hs : n.shape? = some s) (hp : n.placement? = some p) :
    n.status = .allocated s p := by
  unfold shape? at hs
  unfold placement? at hp
  cases hstatus : n.status with
  | unallocated => simp [hstatus, Status.plan?] at hs
  | allocatable => simp [hstatus, Status.placement?] at hp
  | allocated t q =>
    rw [hstatus] at hs hp
    cases hs
    cases hp
    rfl

/-- A stored structure has the shape it is stored with. -/
theorem shape?_of_status (h : n.status = .allocated s p) : n.shape? = some s := by
  rw [shape?, h]
  rfl

/-- What stands somewhere is a child with that shape and place. -/
theorem Stands.child (h : n.Stands k s p) :
    ∃ c, n.child? k = some c ∧ c.shape? = some s ∧ c.placement? = some p := by
  obtain ⟨c, hc, hstatus⟩ := Option.map_eq_some_iff.1 h.status
  refine ⟨c, hc, ?_, ?_⟩
  · rw [shape?, hstatus]
    rfl
  · rw [placement?, hstatus]
    rfl

/-- A child with a shape and a place stands there. -/
theorem stands_of {c : Node} (hc : n.child? k = some c) (hs : c.shape? = some s)
    (hp : c.placement? = some p) : n.Stands k s p :=
  ⟨by rw [hc, Option.map_some, status_eq_of hs hp]⟩

/-! ### Records -/

section record

variable {l : RecordLayout} {head : RecordHead} {fields : List (Field Node)}

/-- A stored record encloses its fields, each at the offset of the layout. -/
theorem encloses_record (h : RecordSound (.allocated l place) head fields) :
    (Node.record (.allocated l place) head fields).Encloses l.shape place := by
  obtain ⟨shapes, hshapes, hlayout⟩ := h.layout l rfl
  obtain ⟨-, hspaced⟩ := RecordLayout.spaced_compute hlayout
  have hlength : l.offsets.length = fields.length :=
    hspaced.length_eq.trans hshapes.length_eq.symm
  have hplaced := h.placed l place rfl
  -- each field has the shape that the layout was made for, and stands at the layout's offset
  have hfield : ∀ (k : Nat) (f : Field Node), fields[k]? = some f → ∃ s offset, shapes[k]? = some s ∧
      l.offsets[k]? = some offset ∧ f.child.shape? = some s ∧
      f.child.placement? = some ⟨place.region, place.offset + offset, .claimed⟩ := by
    intro k f hf
    obtain ⟨hk, -⟩ := List.getElem?_eq_some_iff.1 hf
    have hoffset := List.getElem?_eq_getElem (show k < l.offsets.length by omega)
    obtain ⟨s, hs, hfs⟩ := forall₂_getElem? hshapes.flip hf
    exact ⟨s, _, hs, hoffset, hfs, hplaced k f _ hf hoffset⟩
  have hstands : ∀ k s p, (Node.record (.allocated l place) head fields).Stands k s p →
      ∃ offset, shapes[k]? = some s ∧ l.offsets[k]? = some offset ∧
        p.offset = place.offset + offset := by
    intro k s p hk
    obtain ⟨c, hc, hs, hp⟩ := hk.child
    obtain ⟨f, hf, rfl⟩ := Option.map_eq_some_iff.1 hc
    obtain ⟨t, offset, ht, hoffset, hshape, hplacement⟩ := hfield k f hf
    rw [hs] at hshape
    rw [hp] at hplacement
    cases hshape
    cases hplacement
    exact ⟨offset, ht, hoffset, rfl⟩
  constructor
  · rintro _ _ _ ⟨⟩
    exact h.ascending
  · intro k c hc
    obtain ⟨f, hf, rfl⟩ := Option.map_eq_some_iff.1 hc
    obtain ⟨s, offset, -, hoffset, hshape, hplacement⟩ := hfield k f hf
    exact ⟨s, offset, hoffset, stands_of hc hshape hplacement⟩
  · intro k s p hk
    obtain ⟨offset, hs, hoffset, hp⟩ := hstands k s p hk
    obtain ⟨hbefore, hbehind⟩ := hspaced.inside hs hoffset
    omega
  · intro j k s t p q hjk hj hk
    obtain ⟨offset, hs, hoffset, hp⟩ := hstands j s p hj
    obtain ⟨other, ht, hother, hq⟩ := hstands k t q hk
    have hapart := hspaced.apart hjk hs hoffset ht hother
    omega

end record

/-! ### Arrays -/

section array

variable {plan : ArrayPlan} {head : ArrayHead} {template : Node}
  {alternatives : List (Nat × Node)} {staged : List Node} {elements : List (Option Node)}

/-- The slot of an element ends within the array. -/
theorem ArraySound.slot_le {status : Status ArrayPlan}
    (h : ArraySound status head template alternatives staged elements)
    (hplan : status.plan? = some plan) (hk : k < head.length) :
    k * plan.stride + plan.element.footprint ≤ plan.shape.size := by
  obtain ⟨hstride, -, hsize⟩ := arrayShape?_eq_ok (h.plan plan hplan).2
  calc k * plan.stride + plan.element.footprint
      ≤ k * plan.stride + plan.stride := Nat.add_le_add_left hstride _
    _ = (k + 1) * plan.stride := (Nat.succ_mul _ _).symm
    _ ≤ head.length * plan.stride := Nat.mul_le_mul_right _ hk
    _ = plan.shape.size := by rw [hsize, Nat.mul_comm]

/-- A stored array encloses its elements, each at its stride. -/
theorem encloses_array
    (h : ArraySound (.allocated plan place) head template alternatives staged elements) :
    (Node.array (.allocated plan place) head template alternatives staged elements).Encloses
      plan.shape place := by
  obtain ⟨-, hshape⟩ := h.plan plan rfl
  obtain ⟨hfits, -, hsize⟩ := arrayShape?_eq_ok hshape
  obtain ⟨hlength, hplaced⟩ := h.placed plan place rfl
  have hstands : ∀ k s p,
      (Node.array (.allocated plan place) head template alternatives staged elements).Stands k s p →
        k < head.length ∧ s = plan.element ∧
          p.offset = place.offset + k * plan.stride + plan.element.pre := by
    intro k s p hk
    obtain ⟨c, hc, hs, hp⟩ := hk.child
    have hget : elements[k]? = some (some c) := Option.join_eq_some_iff.1 hc
    obtain ⟨hin, -⟩ := List.getElem?_eq_some_iff.1 hget
    obtain ⟨hshape, hplacement⟩ := hplaced k c hget
    rw [hs] at hshape
    rw [hp] at hplacement
    cases hshape
    cases hplacement
    exact ⟨by omega, rfl, rfl⟩
  -- an element ends before the next stride
  have hnext : ∀ j k, j < k →
      j * plan.stride + (plan.element.pre + plan.element.extent) ≤ k * plan.stride := by
    intro j k hjk
    rw [Shape.footprint_eq] at hfits
    calc j * plan.stride + (plan.element.pre + plan.element.extent)
        ≤ j * plan.stride + plan.stride := Nat.add_le_add_left hfits _
      _ = (j + 1) * plan.stride := (Nat.succ_mul j plan.stride).symm
      _ ≤ k * plan.stride := Nat.mul_le_mul_right _ hjk
  constructor
  · rintro _ _ _ ⟨⟩
  · intro k c hc
    obtain ⟨hshape, hplacement⟩ := hplaced k c (Option.join_eq_some_iff.1 hc)
    refine ⟨plan.element, k * plan.stride + plan.element.pre, rfl, stands_of hc hshape ?_⟩
    rw [hplacement, Nat.add_assoc]
  · intro k s p hk
    obtain ⟨hin, rfl, hp⟩ := hstands k s p hk
    have hend := hnext k head.length hin
    rw [hsize, Nat.mul_comm plan.stride]
    omega
  · intro j k s t p q hjk hj hk
    obtain ⟨-, rfl, hp⟩ := hstands j s p hj
    obtain ⟨-, rfl, hq⟩ := hstands k t q hk
    have hend := hnext j k hjk
    omega

end array

/-- A stored structure that is sound encloses its children. -/
theorem encloses_of_consistent (h : n.Consistent) (hn : n.status = .allocated shape place) :
    n.Encloses shape place := by
  cases n with
  | leaf =>
    exact ⟨by rintro _ _ _ ⟨⟩, by rintro k c ⟨⟩, by rintro k s p ⟨⟨⟩⟩, by rintro j k s t p q - ⟨⟨⟩⟩⟩
  | record status head fields =>
    cases status with
    | allocated l place =>
      cases hn
      exact encloses_record h
    | unallocated => cases hn
    | allocatable => cases hn
  | array status head template alternatives staged elements =>
    cases status with
    | allocated plan place =>
      cases hn
      exact encloses_array h
    | unallocated => cases hn
    | allocatable => cases hn

/-- The children of a stored structure are stored. -/
theorem stage_child {c : Node} (h : n.Consistent) (hn : n.stage = .allocated)
    (hc : n.child? k = some c) : c.stage = .allocated := by
  obtain ⟨shape, place, hstatus⟩ : ∃ shape place, n.status = .allocated shape place := by
    unfold stage at hn
    cases hstatus : n.status with
    | unallocated => simp [hstatus, Status.stage] at hn
    | allocatable => simp [hstatus, Status.stage] at hn
    | allocated shape place => exact ⟨shape, place, rfl⟩
  obtain ⟨s, offset, -, hstands⟩ := (encloses_of_consistent h hstatus).stands k c hc
  have hchild := hstands.status
  rw [hc, Option.map_some, Option.some.injEq] at hchild
  rw [stage, hchild]
  rfl

end NativeLayout.Node
