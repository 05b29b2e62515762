import NativeLayout.Proofs.Lazy.Questions
import NativeLayout.Proofs.Session.Rooted

namespace NativeLayout

/-!
# Where the elements of an array are

* `Node.Locates` — the element itself, the array without it, the windows on the array, and the pointer
  to its first element: all ways to the address of an element.
* `Node.locates` — in an array that is stored within its region they agree.
* `World.Reachable.located` — so they do in every array of a tree that got storage as a whole.
-/

open Node

/-- A region as memory has it: not at the null address, and with an address for its end. -/
structure Region.Addressable (r : Region) : Prop where
  base : r.base ≠ Address.null
  stop : r.base + r.length < Word.limit

/-- A pointer into a region, some steps further on in it. -/
theorem TypedPointer.step_eq_ok {p : TypedPointer} {r : Region} {k : Nat} (hr : r.Addressable)
    (hstart : r.base ≤ p.address) (hstop : p.address + k * p.stride ≤ r.base + r.length) :
    p.step k = .ok { p with address := p.address + k * p.stride } := by
  -- no address in the region is null, and all of them are words
  have hbase : 0 < r.base := Nat.pos_of_ne_zero hr.base
  have hlimit := hr.stop
  have hmul : Word.mul? k p.stride = some (k * p.stride) :=
    Word.mul?_eq_some_iff.2 ⟨by omega, rfl⟩
  have hadd : Address.move? p.address (k * p.stride) = some (p.address + k * p.stride) :=
    Word.add?_eq_some_iff.2 ⟨by omega, rfl⟩
  simp only [step, if_neg (show p.address ≠ Address.null by rw [Address.null]; omega), hmul,
    Option.bind_some, hadd]

/-! ### Ways to an address -/

namespace Visit

variable {α : Type}

/-- The address of the element at an index of the last of some windows, each cut from the one before. -/
def addressInView (cuts : List (Nat × Nat)) (index : Nat) : Visit Nat :=
  (window cuts).bind fun last => addressInWindow last index

/-- The pointer to the first element of an array. -/
def pointer : Visit TypedPointer := onArray <| read fun node _ =>
  (TypedPointer.ofArray node).mapError .fault

end Visit

namespace Node

/-- The address of the element at an index of an array with this plan that is stored there: so many
strides from the start, behind the leading padding of the element. -/
def addressAt (plan : ArrayPlan) (p : Placement) (k : Nat) : Nat :=
  p.address + k * plan.stride + plan.element.pre

/-- Addresses of elements are strides apart. -/
theorem addressAt_add (plan : ArrayPlan) (p : Placement) (j k : Nat) :
    addressAt plan p (j + k) = addressAt plan p j + k * plan.stride := by
  rw [addressAt, addressAt, Nat.add_mul, ← Nat.add_assoc, Nat.add_right_comm]

/-- A slot within an array that is stored within its region. -/
theorem addressAt_le {plan : ArrayPlan} {p : Placement} {k : Nat}
    (hslot : k * plan.stride + plan.element.footprint ≤ plan.shape.size)
    (hinside : p.offset + plan.shape.size ≤ p.region.length) :
    addressAt plan p k ≤ p.region.base + p.region.length := by
  rw [Shape.footprint_eq] at hslot
  rw [addressAt, Placement.address]
  omega

/-- No element is in front of its region. -/
theorem base_le_addressAt (plan : ArrayPlan) (p : Placement) (k : Nat) :
    p.region.base ≤ addressAt plan p k := by
  rw [addressAt, Placement.address]
  omega

/-- Every way to ask an array, at the end of some steps, for the address of the element at an index,
and the answer to all of them. -/
structure Locates (n : Node) (steps : List PathStep) (store : Store) (length : Nat) (plan : ArrayPlan)
    (p : Placement) (k : Nat) : Prop where
  /-- The element itself, if it is there or can be made. -/
  element : ∀ e, ((Visit.element k Visit.node).along steps n store).result = .ok e →
    e.shape? = some plan.element ∧ addressOf (some e) = .ok (addressAt plan p k)
  /-- The array, whether the element is there or not; it is not made. -/
  computed : (Visit.elementAddress k).along steps n store = ⟨n, store, .ok (addressAt plan p k)⟩
  /-- The last of some windows, each cut from the one before, if the element is in it.  To get the
  element there is the same as to get it from the array. -/
  viewed : ∀ cuts last, ((Window.whole length).cuts cuts).2 = .ok last → last.start ≤ k →
    k < last.start + last.length →
      (∀ (α : Type) (v : Visit α), (Visit.inView cuts (k - last.start) v).along steps n store =
        (Visit.element k v).along steps n store) ∧
      (Visit.addressInView cuts (k - last.start)).along steps n store =
        ⟨n, store, .ok (addressAt plan p k)⟩
  /-- The pointer to the first element, moved on to this one; neither of them is made. -/
  stepped : p.region.Addressable → ∃ q r, Visit.pointer.along steps n store = ⟨n, store, .ok q⟩ ∧
    q.step k = .ok r ∧ r.address = addressAt plan p k

/-- Asking an array, at the end of some steps, for an element that is behind the last one. -/
structure Exceeds (n : Node) (steps : List PathStep) (store : Store) (length k : Nat) : Prop where
  element : ∀ (α : Type) (v : Visit α), (Visit.element k v).along steps n store =
    ⟨n, store, .error (.fault (.outOfRange k length))⟩
  computed : (Visit.elementAddress k).along steps n store =
    ⟨n, store, .error (.fault (.outOfRange k length))⟩

section array

variable {plan : ArrayPlan} {p : Placement} {head : ArrayHead} {template : Node}
  {alternatives : List (Nat × Node)} {staged : List Node} {elements : List (Option Node)}
  {store : Store} {k : Nat}

/-- An element that an array has, or makes, is where its plan puts it. -/
theorem sound_element {e : Node}
    (hn : (Node.array (.allocated plan p) head template alternatives staged elements).Sound)
    (hstore : store.shared.Coherent) (h : (Visit.element k Visit.node
      (.array (.allocated plan p) head template alternatives staged elements) store).result = .ok e) :
    e.Sound ∧ e.status = .allocated plan.element
      ⟨p.region, p.offset + k * plan.stride + plan.element.pre, .claimed⟩ := by
  have hmade : Materialized k (.array (.allocated plan p) head template alternatives staged elements)
      (materialize k (.array (.allocated plan p) head template alternatives staged elements)
        store.shared) := materialized_materialize hn hstore
  obtain ⟨d, hd, hforward⟩ := advances_materialize k _ store.shared [] _ rfl
  simp only [Visit.element, Visit.onArray, Visit.bind, Visit.change] at h
  generalize materialize k (.array (.allocated plan p) head template alternatives staged elements)
    store.shared = made at hmade hd h
  cases hd
  obtain ⟨shared, made, result⟩ := made
  cases result with
  | error => cases h
  | ok =>
    -- the array has the plan and the placement that it had
    cases hforward with
    | @array calls _ status _ _ _ _ staged' _ elements' known =>
      have self : ArraySound status { head with calls } template alternatives staged' elements' :=
        hmade.evolves.sound.self_of
      have hplan := known.plan plan rfl
      have hplace := known.placement p rfl
      obtain rfl : status = .allocated plan p := by
        cases status with
        | unallocated => cases hplan
        | allocatable => cases hplace
        | allocated =>
          cases hplan
          cases hplace
          rfl
      simp only [Except.mapError, element?] at h
      cases he : elements'[k]?.join with
      | none =>
        rw [he] at h
        cases h
      | some c =>
        rw [he] at h
        cases h
        obtain ⟨hshape, hplaced⟩ := (self.placed plan p rfl).2 k e (Option.join_eq_some_iff.1 he)
        exact ⟨hmade.evolves.sound.child he, status_eq_of hshape hplaced⟩

/-- A stored array tells the address of each of its indices, whether the element exists or not. -/
theorem elementAddress_of_lt (hk : k < head.length) :
    elementAddress k (.array (.allocated plan p) head template alternatives staged elements) =
      .ok (addressAt plan p k) := by
  simp only [elementAddress, if_pos hk, addressAt]

/-- The pointer to the first element of an array. -/
theorem ofArray_of_pos (hpos : 0 < head.length) : TypedPointer.ofArray
    (.array (.allocated plan p) head template alternatives staged elements) =
      .ok ⟨addressAt plan p 0, some plan.facade.typeName, plan.stride⟩ := by
  rw [TypedPointer.ofArray, addressOfArray, elementAddress_of_lt hpos]
  rfl

/-- It gets to the others in steps. -/
theorem step_ofArray
    (hn : (Node.array (.allocated plan p) head template alternatives staged elements).Sound)
    (hinside : p.offset + plan.shape.size ≤ p.region.length) (hregion : p.region.Addressable)
    (hk : k < head.length) : ∃ q r,
      TypedPointer.ofArray (.array (.allocated plan p) head template alternatives staged elements) =
        .ok q ∧ q.step k = .ok r ∧ r.address = addressAt plan p k := by
  have hadd := addressAt_add plan p 0 k
  rw [Nat.zero_add] at hadd
  have hstop : addressAt plan p 0 + k * plan.stride ≤ p.region.base + p.region.length :=
    hadd ▸ addressAt_le (hn.self_of.slot_le rfl hk) hinside
  exact ⟨_, _, ofArray_of_pos (by omega),
    TypedPointer.step_eq_ok hregion (base_le_addressAt plan p 0) hstop, hadd.symm⟩

/-- An operation on the element at an index of a window is one on the element of the array. -/
theorem inView_eq {n : Node} {cuts : List (Nat × Nat)} {last : Window} (store : Store)
    (hn : ∃ status head template alternatives staged elements,
      n = .array status head template alternatives staged elements)
    (hlast : ((Window.whole n.length).cuts cuts).2 = .ok last) (hstart : last.start ≤ k)
    (hstop : k < last.start + last.length) :
    (∀ (α : Type) (v : Visit α),
      Visit.inView cuts (k - last.start) v n store = Visit.element k v n store) ∧
      Visit.addressInView cuts (k - last.start) n store = Visit.elementAddress k n store := by
  obtain ⟨status, head, template, alternatives, staged, elements, rfl⟩ := hn
  -- counted from the start of the window, this is the index in the array
  have hindex : last.index (k - last.start) = .ok k := by
    rw [Window.index, if_pos (by omega), Nat.add_sub_cancel' hstart]
  simp only [Visit.inView, Visit.addressInView, Visit.window, Visit.bind, Visit.allElements,
    Visit.onArray, Visit.read, hlast, Visit.inWindow, Visit.addressInWindow, hindex]
  exact ⟨fun _ _ => trivial, trivial⟩

variable {n : Node} {steps : List PathStep} {route : List Nat}

/-- The ways to the address of an element agree, in an array that is stored within its region. -/
theorem locates (hn : n.Sound) (hroute : n.route? steps = some route)
    (hm : n.at? route =
      some (.array (.allocated plan p) head template alternatives staged elements))
    (hinside : p.offset + plan.shape.size ≤ p.region.length) (hstore : store.shared.Coherent)
    (hk : k < head.length) : n.Locates steps store head.length plan p k := by
  have hsound := hn.at hm
  have hcomputed : (Visit.elementAddress k).along steps n store =
      ⟨n, store, .ok (addressAt plan p k)⟩ := by
    refine Visit.along_eq_of_unchanged hn hroute hm ?_
    simp only [Visit.elementAddress, Visit.onArray, Visit.read, elementAddress_of_lt hk,
      Except.mapError]
  -- by the element itself, by its address, by a window and by a pointer
  refine ⟨fun e he => ?_, hcomputed, fun cuts last hlast hstart hstop => ?_, fun hregion => ?_⟩
  · rw [(Visit.reaches_along hn hroute hm store).result] at he
    obtain ⟨-, hstatus⟩ := sound_element hsound hstore he
    refine ⟨shape?_of_status hstatus, ?_⟩
    simp only [addressOf, address?, placement?, hstatus, Status.placement?, Option.map_some,
      Placement.address, addressAt, Nat.add_assoc]
  · obtain ⟨hget, haddress⟩ := inView_eq store ⟨_, _, _, _, _, _, rfl⟩ hlast hstart hstop
    exact ⟨fun α v => Visit.along_congr hn hroute hm (hget α v),
      (Visit.along_congr hn hroute hm haddress).trans hcomputed⟩
  · obtain ⟨q, r, hq, hr, haddress⟩ := step_ofArray hsound hinside hregion hk
    refine ⟨q, r, Visit.along_eq_of_unchanged hn hroute hm ?_, hr, haddress⟩
    simp only [Visit.pointer, Visit.onArray, Visit.read, hq, Except.mapError]

/-- An index behind the array is refused on every way. -/
theorem exceeds (hn : n.Sound) (hroute : n.route? steps = some route)
    (hm : n.at? route =
      some (.array (.allocated plan p) head template alternatives staged elements))
    (hk : head.length ≤ k) : n.Exceeds steps store head.length k := by
  constructor
  · intro α v
    refine Visit.along_eq_of_unchanged hn hroute hm ?_
    simp only [Visit.element, Visit.onArray, Visit.bind, Visit.change, materialize,
      if_neg (Nat.not_lt.2 hk), Outcome.fail, Except.mapError]
  · refine Visit.along_eq_of_unchanged hn hroute hm ?_
    simp only [Visit.elementAddress, Visit.onArray, Visit.read, elementAddress,
      if_neg (Nat.not_lt.2 hk), Except.mapError]

end array

end Node

namespace World

variable {w w' w'' : World} {i : Nat} {n : Node} {steps : List PathStep} {route : List Nat}
  {status : Status ArrayPlan} {head : ArrayHead} {template : Node} {alternatives : List (Nat × Node)}
  {staged : List Node} {elements : List (Option Node)}

/-- Whoever provides the storage, a tree that gets it as a whole is stored within the region. -/
theorem Roots.within (h : w.Sound) (hroots : w.Roots i w') : ∃ n s p, w'.trees[i]? = some n ∧
    n.status = .allocated s p ∧ p.offset + s.extent ≤ p.region.length := by
  cases hroots with
  | @allocate n hn ok =>
    obtain ⟨s, p, hhoused⟩ := housed_allocate (h.trees n (List.mem_of_getElem? hn)) h.coherent ok
    exact ⟨_, s, p, getElem?_call_nil hn (v := Visit.allocate) rfl, hhoused.status, hhoused.room⟩
  | @push n a hn ok =>
    obtain ⟨s, start, stop, hblock, -, hstatus, -⟩ :=
      a.pushed_of_ok (h.trees n (List.mem_of_getElem? hn)) h.coherent ok
    obtain ⟨-, -, -, hstop, hroom⟩ := Arena.eq_of_block? hblock
    rw [hstop, Shape.footprint_eq, ← Nat.add_assoc] at hroom
    refine ⟨_, s, _, ?_, hstatus, hroom⟩
    simp only [World.push, hn]
    exact List.getElem?_set_self (List.getElem?_eq_some_iff.1 hn).1

/-- And there it stays. -/
theorem Reachable.within (h : w.Reachable) (hroots : w.Roots i w') (hlater : w'.Later w'')
    (hn : w''.trees[i]? = some n) : n.Sound ∧ ∃ s p, n.status = .allocated s p ∧
      p.offset + s.extent ≤ p.region.length := by
  obtain ⟨m, s, p, hm, hstatus, hroom⟩ := hroots.within h.sound
  have hw' := (h.roots hroots).1
  obtain ⟨n', hn', hadvances⟩ := hw'.onward hlater i m hm
  cases hn.symm.trans hn'
  obtain ⟨d, hd, hforward⟩ := hadvances [] m rfl
  cases hd
  have hextends := hforward.status
  exact ⟨(hw'.later hlater).sound.trees n (List.mem_of_getElem? hn), s, p,
    status_eq_of (hextends.plan s (by rw [hstatus]; rfl))
      (hextends.placement p (by rw [hstatus]; rfl)), hroom⟩

/-- So is every array in it. -/
theorem Reachable.array_within {plan : ArrayPlan} {p : Placement} (h : w.Reachable)
    (hroots : w.Roots i w') (hlater : w'.Later w'') (hn : w''.trees[i]? = some n)
    (hm : n.at? route =
      some (.array (.allocated plan p) head template alternatives staged elements)) :
    n.Sound ∧ p.offset + plan.shape.size ≤ p.region.length := by
  obtain ⟨hsound, s, q, hs, hroom⟩ := h.within hroots hlater hn
  obtain ⟨t, place, hstatus, hregion, -, hstop⟩ := stored_at hsound hs hm
  cases hstatus
  have hextent : s.size ≤ s.extent := Nat.le_add_right _ _
  refine ⟨hsound, ?_⟩
  rw [hregion]
  omega

/-- An array anywhere in a tree that got storage as a whole, at any later time: all ways to the address
of an element agree, whether the element is there, can be made or cannot, and behind the last element
there is none. -/
theorem Reachable.located (h : w.Reachable) (hroots : w.Roots i w') (hlater : w'.Later w'')
    (hn : w''.trees[i]? = some n) (hroute : n.route? steps = some route)
    (hm : n.at? route = some (.array status head template alternatives staged elements)) :
    ∃ plan p, status = .allocated plan p ∧
      (∀ k < head.length, n.Locates steps w''.store head.length plan p k) ∧
      ∀ k, head.length ≤ k → n.Exceeds steps w''.store head.length k := by
  obtain ⟨hsound, s, q, hs, -⟩ := h.within hroots hlater hn
  have hstore := (((h.roots hroots).1).later hlater).sound.coherent
  -- what is inside a stored structure is stored
  obtain ⟨t, place, hstatus, -⟩ := stored_at hsound hs hm
  cases status with
  | unallocated => cases hstatus
  | allocatable => cases hstatus
  | allocated plan p =>
    obtain ⟨-, hinside⟩ := h.array_within hroots hlater hn hm
    exact ⟨plan, p, rfl, fun k hk => locates hsound hroute hm hinside hstore hk,
      fun k hk => exceeds hsound hroute hm hk⟩

/-- Four bytes with one byte in front of them and two behind. -/
def fenced : Leaf := .custom "Fenced" ⟨4, false, 1, 4, 2⟩

/-- The plan of an array of three of them. -/
def fencedPlan : ArrayPlan :=
  ⟨⟨4, false, 0, 24, 0⟩, 8, ⟨4, false, 1, 4, 2⟩, ⟨"Fenced", .named "Fenced"⟩, []⟩

/-- Three of them behind a byte, in an arena: the third one is made. -/
def pushedRow : Node :=
  .record (.allocated ⟨⟨4, false, 0, 28, 0⟩, [0, 4], [0, 3]⟩ ⟨⟨1, 64, 128⟩, 8, .claimed⟩)
    ⟨"Row", .msvcX64, false, 0⟩
    [⟨0, "tag", .leaf (.allocated ⟨1, false, 0, 1, 0⟩ ⟨⟨1, 64, 128⟩, 8, .claimed⟩) (.scalars .u8 1)⟩,
      ⟨1, "items", .array (.allocated fencedPlan ⟨⟨1, 64, 128⟩, 12, .claimed⟩) ⟨3, true, 2, none⟩
        (.ofLeaf fenced) [] []
        [none, none, some (.leaf (.allocated ⟨4, false, 1, 4, 2⟩ ⟨⟨1, 64, 128⟩, 29, .claimed⟩) fenced)]⟩]

/-- There is a world in which a lazy row was pushed, and later one of its elements was made. -/
theorem exists_pushedRow : ∃ w w' w'' : World, w.Reachable ∧ w.Roots 3 w' ∧ w'.Later w'' ∧
    w''.trees[3]? = some pushedRow := by
  have byte := (Reachable.start 0).leaf (.scalars .u8 1)
  have leaf := byte.leaf fenced
  have array := leaf.uniform 3 true 1 rfl
  have record := array.record ⟨"Row", .msvcX64, false, 0⟩
  have first := record.field 3 0 "tag" rfl
  have both := first.field 3 2 "items" rfl
  exact ⟨_, _, _, both, .push ⟨⟨1, 64, 128⟩, 5, [], []⟩ rfl rfl,
    .single (.call 3 [.index 1] (c := .element 2) trivial), rfl⟩

/-- The second of them is not there; it will be nine bytes behind the start of the array, which is
where a window on the last two elements has it, and where the pointer to the first one gets in one
step. -/
theorem Reachable.located_row : ∃ (w w' w'' : World) (q r : TypedPointer), w.Reachable ∧
    w.Roots 3 w' ∧ w'.Later w'' ∧ w''.trees[3]? = some pushedRow ∧
      (Visit.elementAddress 1).along [.index 1] pushedRow w''.store = ⟨pushedRow, w''.store, .ok 85⟩ ∧
      (Visit.addressInView [(1, 2)] 0).along [.index 1] pushedRow w''.store =
        ⟨pushedRow, w''.store, .ok 85⟩ ∧
      Visit.pointer.along [.index 1] pushedRow w''.store = ⟨pushedRow, w''.store, .ok q⟩ ∧
      q.step 1 = .ok r ∧ r.address = 85 := by
  obtain ⟨w, w', w'', hw, hroots, hlater, hn⟩ := exists_pushedRow
  obtain ⟨plan, p, hstatus, hlocates, -⟩ :=
    hw.located hroots hlater hn (show pushedRow.route? [.index 1] = some [1] from rfl) rfl
  cases hstatus
  have hsecond := hlocates 1 (by decide)
  -- numbers of four bytes, in a region that ends far from the last word
  obtain ⟨q, r, hq, hr, haddress⟩ := hsecond.stepped ⟨by decide, by decide⟩
  exact ⟨w, w', w'', q, r, hw, hroots, hlater, hn, hsecond.computed,
    (hsecond.viewed [(1, 2)] ⟨1, 2⟩ rfl (by decide) (by decide)).2, hq, hr, haddress⟩

end World

end NativeLayout
