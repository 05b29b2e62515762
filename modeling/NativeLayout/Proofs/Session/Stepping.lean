import NativeLayout.Proofs.Session.Located
import NativeLayout.Proofs.Tree.Alignment

namespace NativeLayout

/-!
# Stepping from one element to the next

A pointer to the first element of an array steps by the stride of the array; a pointer that is made of
an element steps by the extent of the element.

* `Node.stride_eq_extent_iff` — when the two are the same.
* `Node.Paces` — what a pointer made of an element does.
* `World.Reachable.paces` — it gets to the later elements exactly if the two are the same; they are for
  all elements whose shape is not chosen by their owner.
-/

open Node

namespace Node

/-- Elements stand one extent apart exactly if they have no leading padding and their extent keeps the
next one aligned. -/
theorem stride_eq_extent_iff {element : Shape} {stride : Nat} (hpow : element.align.isPowerOfTwo)
    (hpacked : element.packed = true → element.align = 1) (h : stride? element = some stride) :
    stride = element.extent ↔ element.pre = 0 ∧ element.align ∣ element.extent := by
  have hle := footprint_le_of_stride? h
  rw [Shape.footprint_eq] at hle
  unfold stride? at h
  split at h
  next hp =>
    cases h
    rw [Shape.footprint_eq, hpacked hp]
    exact ⟨fun heq => ⟨by omega, Nat.one_dvd _⟩, fun ⟨hpre, _⟩ => by omega⟩
  next =>
    -- the footprint rounded up is the extent exactly if nothing is added on either side
    have hround := Word.eq_roundUp_of_roundUp? hpow h
    rw [Shape.footprint_eq] at hround
    constructor
    · intro heq
      refine ⟨by omega, ?_⟩
      rw [← heq, hround]
      exact Word.dvd_roundUp _ _
    · rintro ⟨hpre, hdvd⟩
      rw [hround, hpre, Nat.zero_add, Word.roundUp_of_dvd (Word.pos_of_isPowerOfTwo hpow) hdvd]

/-- What a pointer does that is made of the element at an index of an array: its stride beside that of
the pointer to the first element, and where its steps lead. -/
structure Paces (n : Node) (steps : List PathStep) (store : Store) (length : Nat) (plan : ArrayPlan)
    (p : Placement) (j : Nat) (e : Node) (q first : TypedPointer) : Prop where
  made : TypedPointer.ofNode (some e) = .ok q
  front : Visit.pointer.along steps n store = ⟨n, store, .ok first⟩
  strides : q.stride = plan.element.extent ∧ first.stride = plan.stride
  /-- When the two strides are the same. -/
  same_iff : q.stride = first.stride ↔
    plan.element.pre = 0 ∧ plan.element.align ∣ plan.element.extent
  /-- They are for elements of the built-in types, records and arrays. -/
  same : e.Plain → q.stride = first.stride
  /-- A step gets to a later element exactly then. -/
  step : ∀ k, j + k < length → ∃ r, q.step k = .ok r ∧
    r.address = addressAt plan p j + k * plan.element.extent ∧
    (Visit.elementAddress (j + k)).along steps n store =
      ⟨n, store, .ok (addressAt plan p (j + k))⟩ ∧
    (r.address = addressAt plan p (j + k) ↔ k = 0 ∨ q.stride = first.stride)

variable {plan : ArrayPlan} {p : Placement} {head : ArrayHead} {template : Node}
  {alternatives : List (Nat × Node)} {staged : List Node} {elements : List (Option Node)}
  {store : Store} {n e : Node} {steps : List PathStep} {route : List Nat} {j : Nat}

/-- The two pointers into an array that is stored within its region, and where they step to. -/
theorem paces_of_array (hn : n.Sound) (hroute : n.route? steps = some route)
    (hm : n.at? route =
      some (.array (.allocated plan p) head template alternatives staged elements))
    (hinside : p.offset + plan.shape.size ≤ p.region.length) (hregion : p.region.Addressable)
    (hstore : store.shared.Coherent) (hj : j < head.length)
    (he : ((Visit.element j Visit.node).along steps n store).result = .ok e) :
    ∃ q first, n.Paces steps store head.length plan p j e q first := by
  have hsound := hn.at hm
  have self : ArraySound (.allocated plan p) head template alternatives staged elements :=
    hsound.self_of
  rw [(Visit.reaches_along hn hroute hm store).result] at he
  obtain ⟨hesound, hstatus⟩ := sound_element hsound hstore he
  have heshape := shape?_of_status hstatus
  obtain ⟨hstride, -⟩ := eq_of_arrayShape? (self.plan plan rfl).2
  have hfits := footprint_le_of_stride? hstride
  rw [Shape.footprint_eq] at hfits
  -- the pointer to an element takes its steps from the extent, the one to the array from the stride
  have hmade : TypedPointer.ofNode (some e) =
      .ok ⟨addressAt plan p j, some e.facade.typeName, plan.element.extent⟩ := by
    simp only [TypedPointer.ofNode, addressOf, address?, placement?, hstatus, Status.placement?,
      Option.map_some, heshape, Option.getD_some, Placement.address, addressAt, Nat.add_assoc]
    rfl
  have hfront : Visit.pointer.along steps n store =
      ⟨n, store, .ok ⟨addressAt plan p 0, some plan.facade.typeName, plan.stride⟩⟩ := by
    refine Visit.along_eq_of_unchanged hn hroute hm ?_
    simp only [Visit.pointer, Visit.onArray, Visit.read, ofArray_of_pos (Nat.zero_lt_of_lt hj),
      Except.mapError]
  refine ⟨_, _, hmade, hfront, ⟨rfl, rfl⟩, ?_, fun hplain => ?_, fun k hk => ?_⟩
  · rw [eq_comm]
    exact stride_eq_extent_iff (align_isPowerOfTwo hesound.self_of heshape)
      (align_and_pre hesound.self_of heshape).1 hstride
  · have hwhole := whole_of_consistent hesound.self_of heshape (by
      rintro status kind rfl
      exact hplain)
    exact (stride?_of_whole hwhole hstride).symm
  · -- a step is at most a stride, and so it stays within the array
    have hadd := addressAt_add plan p j k
    have hstop := addressAt_le (hsound.self_of.slot_le rfl hk) hinside
    have hstep : k * plan.element.extent ≤ k * plan.stride := Nat.mul_le_mul_left k (by omega)
    refine ⟨_, TypedPointer.step_eq_ok hregion (base_le_addressAt plan p j) ?_, rfl,
      (locates hn hroute hm hinside hstore hk).computed, ?_⟩
    · show addressAt plan p j + k * plan.element.extent ≤ p.region.base + p.region.length
      omega
    · rw [hadd, Nat.add_left_cancel_iff, mul_eq_mul_left_iff, or_comm]

end Node

namespace World

variable {w w' w'' : World} {i j : Nat} {n e : Node} {steps : List PathStep} {route : List Nat}
  {plan : ArrayPlan} {p : Placement} {head : ArrayHead} {template : Node}
  {alternatives : List (Nat × Node)} {staged : List Node} {elements : List (Option Node)}

/-- An element of an array anywhere in a tree that got storage as a whole, at any later time: a pointer
made of it gets to the later elements if it steps as far as the pointer to the first one does, and
never else. -/
theorem Reachable.paces (h : w.Reachable) (hroots : w.Roots i w') (hlater : w'.Later w'')
    (hn : w''.trees[i]? = some n) (hroute : n.route? steps = some route)
    (hm : n.at? route =
      some (.array (.allocated plan p) head template alternatives staged elements))
    (hregion : p.region.Addressable) (hj : j < head.length)
    (he : ((Visit.element j Visit.node).along steps n w''.store).result = .ok e) :
    ∃ q first, n.Paces steps w''.store head.length plan p j e q first := by
  obtain ⟨hsound, hinside⟩ := h.array_within hroots hlater hn hm
  exact Node.paces_of_array hsound hroute hm hinside hregion
    (((h.roots hroots).1).later hlater).sound.coherent hj he

/-- Five bytes that are aligned to four. -/
def uneven : Leaf := .custom "Uneven" ⟨4, false, 0, 5, 0⟩

/-- Two of them stand eight bytes apart. -/
def unevenPlan : ArrayPlan :=
  ⟨⟨4, false, 0, 16, 0⟩, 8, ⟨4, false, 0, 5, 0⟩, ⟨"Uneven", .named "Uneven"⟩, []⟩

/-- An array of two of them in a region of its own, without elements yet. -/
def storedPair : Node :=
  .array (.allocated unevenPlan ⟨⟨1, 64, 16⟩, 0, .root⟩) ⟨2, true, 1, none⟩ (.ofLeaf uneven) [] []
    [none, none]

/-- The pair is stored in a root array of a reachable world, and its first element can be used. -/
theorem exists_storedPair : ∃ (w w' : World) (e : Node), w.Reachable ∧ w.Roots 1 w' ∧
    w'.trees[1]? = some storedPair ∧
      ((Visit.element 0 Visit.node).along [] storedPair w'.store).result = .ok e := by
  have leaf := (Reachable.start 0).leaf uneven
  have array := leaf.uniform 2 true 0 rfl
  exact ⟨_, _, _, array.call 1 [] (c := .resolve) trivial, .allocate rfl rfl, rfl, rfl⟩

/-- A pointer made of the first one steps five bytes, and does not get to the second one. -/
theorem Reachable.paces_uneven : ∃ (w w' : World) (e : Node) (q first r : TypedPointer), w.Reachable ∧
    w.Roots 1 w' ∧ w'.trees[1]? = some storedPair ∧
      ((Visit.element 0 Visit.node).along [] storedPair w'.store).result = .ok e ∧
      TypedPointer.ofNode (some e) = .ok q ∧ q.stride = 5 ∧ q.step 1 = .ok r ∧ r.address = 69 ∧
      Visit.pointer.along [] storedPair w'.store = ⟨storedPair, w'.store, .ok first⟩ ∧
      first.stride = 8 ∧
      (Visit.elementAddress 1).along [] storedPair w'.store = ⟨storedPair, w'.store, .ok 72⟩ := by
  obtain ⟨w, w', e, hw, hroots, hn, he⟩ := exists_storedPair
  obtain ⟨q, first, hpaces⟩ := hw.paces hroots .refl hn (show storedPair.route? [] = some [] from rfl)
    rfl ⟨by decide, by decide⟩ (j := 0) (by decide) he
  obtain ⟨r, hr, haddress, hnext, -⟩ := hpaces.step 1 (by decide)
  exact ⟨w, w', e, q, first, r, hw, hroots, hn, he, hpaces.made, hpaces.strides.1, hr, haddress,
    hpaces.front, hpaces.strides.2, hnext⟩

end World

end NativeLayout
