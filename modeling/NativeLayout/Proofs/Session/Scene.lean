import NativeLayout.Proofs.Arena.Push
import NativeLayout.Proofs.Session.Access

namespace NativeLayout

/-!
# Stored structures with the memory they are in

* `Scene` — a structure with everything it uses.
* `Scene.Housed` — the structure is sound and stored within a region of the memory.
* `Grants`, `Grants.housed` — a structure that gets storage of its own, room in a region that has
  enough of it, or the next block of an arena, is housed.
* `Scene.Step`, `Scene.Housed.step` — one request, an access along some steps: it leaves the
  structure housed, and changes nothing but the cells that it writes to.
* `Scene.Housed.visited_eq_ok_iff` — when a request is answered.
-/

open Node

/-- A structure, with everything it uses. -/
structure Scene where
  node : Node
  store : Store

namespace Scene

/-- What the cell at an index of the leaf at a route holds. -/
def datum? (s : Scene) (route : List Nat) (index : Nat) : Option Datum :=
  s.node.datum? s.store.heap route index

/-- The structure is sound, and is stored with its trailing padding within a region. -/
structure Housed (shape : Shape) (place : Placement) (s : Scene) : Prop where
  sound : s.node.Sound
  coherent : s.store.shared.Coherent
  status : s.node.status = .allocated shape place
  room : place.offset + shape.extent ≤ place.region.length
  has : s.store.heap.Has place.region

end Scene

/-- An access to the structure at the end of some steps. -/
structure Request where
  steps : List PathStep
  access : Access
  deriving DecidableEq, Repr

namespace Scene

/-- What a request does, and its answer. -/
def visited (s : Scene) (c : Request) : Visited (List Datum) :=
  c.access.visit.along c.steps s.node s.store

/-- What is there after a request. -/
def after (s : Scene) (c : Request) : Scene := ⟨(s.visited c).node, (s.visited c).store⟩

/-- Whether what a request writes are values of the structure that it gets to. -/
def Typed (s : Scene) (c : Request) : Prop :=
  ∀ route m, (s.after c).node.route? c.steps = some route → (s.after c).node.at? route = some m →
    c.access.Typed m

/-- What a request writes to the cell at an index of the leaf at a route, if it succeeds. -/
def written? (s : Scene) (c : Request) (route : List Nat) (index : Nat) : Option Datum :=
  match (s.visited c).result with
  | .error _ => none
  | .ok _ =>
    if (s.after c).node.route? c.steps = some route then
      ((s.after c).node.at? route).bind fun m => c.access.written? m index
    else none

end Scene

/-! ### Getting storage -/

/-- What is there after a structure got storage. -/
inductive Grants (n : Node) (store : Store) : Scene → Prop where
  /-- Storage of its own. -/
  | allocate (ok : (Visit.allocate n store).result = .ok ()) :
      Grants n store ⟨(Visit.allocate n store).node, (Visit.allocate n store).store⟩
  /-- The bytes of a region that has enough of them. -/
  | claim (region : Region) (offset : Nat) (shape : Shape) (has : store.heap.Has region)
      (known : n.shape? = some shape) (room : offset + shape.footprint ≤ region.length)
      (ok : (Visit.claim region offset n store).result = .ok ()) :
      Grants n store ⟨(Visit.claim region offset n store).node,
        (Visit.claim region offset n store).store⟩
  /-- The next block of an arena. -/
  | push (a : Arena) (has : store.heap.Has a.region)
      (ok : (a.push n store.heap store.shared).outcome.result = .ok ()) :
      Grants n store ⟨(a.push n store.heap store.shared).outcome.state,
        ⟨(a.push n store.heap store.shared).heap, (a.push n store.heap store.shared).outcome.shared⟩⟩

section grants

variable {n : Node} {heap : Heap} {region : Region} {offset : Nat} {ownership : Ownership}
  {o : Outcome Node Unit} {shape : Shape}

/-- Storage in a region that has enough bytes. -/
theorem housed_of_claimed (h : Claimed region offset ownership n o) (hok : o.result = .ok ())
    (hshape : n.shape? = some shape) (hroom : offset + shape.footprint ≤ region.length)
    (hhas : heap.Has region) :
    Scene.Housed shape ⟨region, offset + shape.pre, ownership⟩ ⟨o.state, ⟨heap, o.shared⟩⟩ := by
  obtain ⟨s, hn, hstate⟩ := h.ok hok
  rw [shape?, hn] at hshape
  cases hshape
  refine ⟨h.sound, h.coherent, hstate, ?_, hhas⟩
  rw [Shape.footprint_eq] at hroom
  show offset + shape.pre + shape.extent ≤ region.length
  omega

/-- A success does not depend on how faults are told. -/
theorem ok_of_mapError {α β γ : Type} {f : α → β} {r : Except α γ} {c : γ}
    (h : r.mapError f = .ok c) : r = .ok c := by
  cases r with
  | ok =>
    cases h
    rfl
  | error => cases h

/-- A fault was a fault before it was told in other words. -/
theorem error_of_mapError {α β γ : Type} {f : α → β} {r : Except α γ} {e : β}
    (h : r.mapError f = .error e) : ∃ e', r = .error e' := by
  cases r with
  | ok => cases h
  | error e' => exact ⟨e', rfl⟩

variable {store : Store}

/-- A region of its own is as large as the structure, and the structure starts at its first byte. -/
theorem housed_allocate (hn : n.Sound) (hstore : store.shared.Coherent)
    (h : (Visit.allocate n store).result = .ok ()) : ∃ shape place, Scene.Housed shape place
      ⟨(Visit.allocate n store).node, (Visit.allocate n store).store⟩ := by
  have hok := ok_of_mapError h
  simp only [Visit.allocate, Node.allocate] at hok ⊢
  split at hok
  next shape hstatus =>
    have hshape : n.shape? = some shape := by rw [shape?, hstatus]; rfl
    split at hok
    next => cases hok
    next region heap hregion =>
      obtain ⟨hhas, hlength⟩ := Heap.has_of_allocate hregion
      have hclaimed : Claimed region 0 .root n
          (claimWithin n.depth region .root .allocate 0 n store.shared) :=
        claimed_claimWithin (Nat.le_refl _) hn hstore
      exact ⟨_, _, housed_of_claimed hclaimed hok hshape (by omega) hhas⟩
  next => cases hok

/-- An arena only grants blocks that end inside its region. -/
theorem housed_push {a : Arena} (hn : n.Sound) (hstore : store.shared.Coherent)
    (hhas : store.heap.Has a.region)
    (h : (a.push n store.heap store.shared).outcome.result = .ok ()) :
    ∃ shape place, Scene.Housed shape place ⟨(a.push n store.heap store.shared).outcome.state,
      ⟨(a.push n store.heap store.shared).heap,
        (a.push n store.heap store.shared).outcome.shared⟩⟩ := by
  have hresolved : Resolved n (n.resolve store.shared) := resolved_resolve hn hstore
  obtain ⟨shape, start, stop, hresult, hblock, hheap, houtcome, -⟩ := Arena.push_eq_of_ok h
  obtain ⟨-, -, -, hstop, hroom⟩ := Arena.eq_of_block? hblock
  rw [houtcome] at h
  rw [houtcome, hheap]
  have hclaimed : Claimed a.region start .claimed (n.resolve store.shared).state
      ((n.resolve store.shared).state.claim a.region start (n.resolve store.shared).shared) :=
    claimed_claimWithin (Nat.le_refl _) hresolved.sound hresolved.coherent
  -- clearing the block leaves every region as large as it was
  exact ⟨_, _, housed_of_claimed hclaimed h (hresolved.ok shape hresult) (hstop ▸ hroom)
    (Heap.has_modify.2 hhas)⟩

/-- A structure that got storage is housed. -/
theorem Grants.housed {s : Scene} (h : Grants n store s) (hn : n.Sound)
    (hstore : store.shared.Coherent) : ∃ shape place, s.Housed shape place := by
  cases h with
  | allocate ok => exact housed_allocate hn hstore ok
  | claim region offset shape has known room ok =>
    have hclaimed : Claimed region offset .claimed n (n.claim region offset store.shared) :=
      claimed_claimWithin (Nat.le_refl _) hn hstore
    exact ⟨_, _, housed_of_claimed hclaimed (ok_of_mapError ok) known room has⟩
  | push a has ok => exact housed_push hn hstore has ok

end grants

/-! ### One request -/

namespace Scene

/-- What is known of a request that succeeded: the structure that it got to is stored within the
region, only its bytes are read or written, and the answer is what its cells held. -/
structure Answered (place : Placement) (s : Scene) (c : Request) (data : List Datum)
    (route : List Nat) (m : Node) (t : Shape) (q : Placement) : Prop where
  way : (s.after c).node.route? c.steps = some route
  found : (s.after c).node.at? route = some m
  status : m.status = .allocated t q
  region : q.region = place.region
  has : s.store.heap.Has q.region
  inside : q.offset + t.size ≤ q.region.length
  writes : s.store.heap.SameOutside (s.after c).store.heap q.region q.offset (q.offset + t.size)
  reads : ∀ heap : Heap, heap.Has q.region →
    s.store.heap.SameInside heap q.region q.offset (q.offset + t.size) →
      (visited ⟨s.node, ⟨heap, s.store.shared⟩⟩ c).result = .ok data
  answer : data.map some =
    (c.access.reads m).map fun i => (s.after c).node.datum? s.store.heap route i

/-- What a request does to a structure that is housed. -/
structure Step (shape : Shape) (place : Placement) (s : Scene) (c : Request) : Prop where
  housed : (s.after c).Housed shape place
  grows : Grows s.node (s.after c).node
  answered : ∀ data, (s.visited c).result = .ok data →
    ∃ route m t q, s.Answered place c data route m t q
  /-- Only the cells that the request writes to change, also in any later tree. -/
  data : ∀ {m : Node}, m.Sound → m.status = .allocated shape place → Grows (s.after c).node m →
    ∀ route index, m.datum? (s.after c).store.heap route index =
      (s.written? c route index).or (m.datum? s.store.heap route index)

variable {shape : Shape} {place : Placement} {s : Scene} {c : Request}

/-- A request leaves the structure sound. -/
theorem Housed.safe_visited (h : s.Housed shape place) (c : Request) :
    Visited.Safe s.node (s.visited c) :=
  c.access.steady_visit.safe.along c.steps s.node s.store h.sound h.coherent

/-- The structure stays where it is. -/
theorem Housed.status_after (h : s.Housed shape place) (c : Request) :
    (s.after c).node.status = .allocated shape place := by
  have hkeeps := (h.safe_visited c).keeps
  have hshape : s.node.shape? = some shape := by rw [shape?, h.status]; rfl
  have hplace : s.node.placement? = some place := by rw [placement?, h.status]; rfl
  exact status_eq_of (hkeeps.shape shape hshape) (hkeeps.placement place hplace)

/-- As long as its region is there, the structure stays housed. -/
theorem Housed.after_of_has (h : s.Housed shape place)
    (hhas : (s.after c).store.heap.Has place.region) : (s.after c).Housed shape place :=
  ⟨(h.safe_visited c).sound, (h.safe_visited c).coherent, h.status_after c, h.room, hhas⟩

/-- A request that got to a structure and succeeded there.  It gets there whatever is in memory. -/
structure Lands (s : Scene) (c : Request) (data : List Datum) (route : List Nat) (m : Node)
    (shared : Shared) : Prop where
  way : (s.after c).node.route? c.steps = some route
  found : (s.after c).node.at? route = some m
  visited : ∀ heap, visited ⟨s.node, ⟨heap, s.store.shared⟩⟩ c =
    { c.access.visit m ⟨heap, shared⟩ with node := (s.after c).node }
  ok : (s.visited c).result = .ok data

section lands

variable {m : Node} {route : List Nat} {shared : Shared} {data : List Datum}

/-- The answer of a request is that of its access. -/
theorem Lands.result (h : s.Lands c data route m shared) :
    (c.access.visit m ⟨s.store.heap, shared⟩).result = .ok data := by
  have hok := h.ok
  have hvisited : s.visited c = _ := h.visited s.store.heap
  rwa [hvisited] at hok

/-- What a request leaves in memory is what its access does. -/
theorem Lands.store (h : s.Lands c data route m shared) :
    (s.after c).store = (c.access.visit m ⟨s.store.heap, shared⟩).store := by
  have hvisited : s.visited c = _ := h.visited s.store.heap
  rw [after, hvisited]

/-- A request that succeeded writes to the leaf it got to, and nowhere else. -/
theorem written?_of_ok (hok : (s.visited c).result = .ok data)
    (hway : (s.after c).node.route? c.steps = some route)
    (hfound : (s.after c).node.at? route = some m) (other : List Nat) (index : Nat) :
    s.written? c other index = if route = other then c.access.written? m index else none := by
  rw [written?, hok]
  simp only [hway, Option.some.injEq]
  by_cases hother : route = other
  · rw [if_pos hother, if_pos hother, ← hother, hfound, Option.bind_some]
  · rw [if_neg hother, if_neg hother]

/-- Where the structure is that a request got to, and what the access does to it. -/
theorem Housed.performed (hs : s.Housed shape place) (htyped : s.Typed c)
    (h : s.Lands c data route m shared) : ∃ t q, m.status = .allocated t q ∧
      q.region = place.region ∧ q.offset + t.size ≤ q.region.length ∧ m.Consistent ∧
        ∀ heap : Heap, heap.Has q.region → Access.Performed c.access m t q ⟨heap, shared⟩
          (c.access.visit m ⟨heap, shared⟩) := by
  have hsound : (s.after c).node.Sound := (hs.safe_visited c).sound
  obtain ⟨t, q, hm, hregion, -, hstop⟩ := stored_at hsound (hs.status_after c) h.found
  have hmself : m.Consistent := (hsound.at h.found).self_of
  have hfits := Access.fits_of_ok hm h.result
  refine ⟨t, q, hm, hregion, ?_, hmself, fun heap hheap => ?_⟩
  · -- the structure ends within its region, and the leaf within the structure
    have hroom := hs.room
    have hextent : shape.size ≤ shape.extent := Nat.le_add_right _ _
    rw [hregion]
    omega
  · exact Access.performed hmself hm hheap hfits (htyped route m h.way h.found)

/-- A request that succeeded is answered from the cells of the leaf it got to. -/
theorem Housed.answered (hs : s.Housed shape place) (htyped : s.Typed c)
    (h : s.Lands c data route m shared) : ∃ t q, s.Answered place c data route m t q := by
  obtain ⟨t, q, hm, hregion, hinside, hmself, hdone⟩ := hs.performed htyped h
  have hhas : s.store.heap.Has q.region := hregion ▸ hs.has
  have hperformed := hdone s.store.heap hhas
  have hanswer := (hperformed.answer data).1 h.result
  refine ⟨t, q, h.way, h.found, hm, hregion, hhas, hinside, ?_, fun heap hheap hsame => ?_, ?_⟩
  · rw [h.store]
    exact hperformed.touches
  · -- the cells hold the same data in the other memory
    rw [h.visited]
    refine ((hdone heap hheap).answer data).2 (hanswer.trans ?_)
    refine List.map_congr_left fun i _ => ?_
    exact (datum?_of_sameInside hmself hm hsame).symm
  · rw [hanswer]
    refine List.map_congr_left fun i _ => ?_
    exact (datum?_at h.found).symm

/-- Only the cells change that the request writes to, in any later tree. -/
theorem Housed.datum?_of_lands (hs : s.Housed shape place) (htyped : s.Typed c)
    (h : s.Lands c data route m shared) {n : Node} (hn : n.Sound)
    (hstatus : n.status = .allocated shape place) (hgrows : Grows (s.after c).node n)
    (other : List Nat) (index : Nat) : n.datum? (s.after c).store.heap other index =
      (s.written? c other index).or (n.datum? s.store.heap other index) := by
  obtain ⟨t, q, hm, hregion, -, -, hdone⟩ := hs.performed htyped h
  have hperformed := hdone s.store.heap (hregion ▸ hs.has)
  rw [h.store, written?_of_ok h.ok h.way h.found]
  -- the leaf that was written to, any other leaf, or no leaf at all
  by_cases hleaf : ∃ status kind, m = .leaf status kind
  · obtain ⟨status, kind, rfl⟩ := hleaf
    have hfound := hgrows route status kind h.found
    by_cases hother : route = other
    · rw [if_pos hother, ← hother, datum?_at hfound, datum?_at hfound]
      exact hperformed.after index
    · cases hm
      rw [if_neg hother, Option.none_or]
      exact datum?_of_sameOutside hn hstatus hother hfound hperformed.touches
  · -- whatever is no leaf is only looked at
    have hlook := Access.look_of_fits (Access.fits_of_ok hm h.result)
      fun status kind heq => hleaf ⟨status, kind, heq⟩
    have hnone : (if route = other then c.access.written? m index else none) = none := by
      rw [hlook]
      exact ite_self none
    rw [hnone, Option.none_or, hlook]
    rfl

end lands

/-- A request fails and changes nothing in memory, or gets to a structure and succeeds there. -/
theorem Housed.failed_or_lands (h : s.Housed shape place) (c : Request) :
    Grows s.node (s.after c).node ∧
      ((∃ e, (s.visited c).result = .error e ∧ (s.after c).store.heap = s.store.heap) ∨
        ∃ data route m shared, s.Lands c data route m shared) := by
  -- where a request gets to does not depend on the bytes in memory
  have harrives : Visit.Arrives c.access.visit c.steps s.node
      fun heap => visited ⟨s.node, ⟨heap, s.store.shared⟩⟩ c :=
    Visit.arrives_along c.access.steady_visit h.sound h.coherent
  -- either the way ends early, or it leads to a structure
  cases harrives with
  | @stopped node shared e grows visited =>
    have hstart : s.visited c = ⟨node, ⟨s.store.heap, shared⟩, .error e⟩ := visited s.store.heap
    rw [after, hstart]
    exact ⟨grows, .inl ⟨e, rfl, rfl⟩⟩
  | @there node route m shared grows way found visited =>
    have hstart : s.visited c = { c.access.visit m ⟨s.store.heap, shared⟩ with node } :=
      visited s.store.heap
    have hafter : s.after c = ⟨node, (c.access.visit m ⟨s.store.heap, shared⟩).store⟩ := by
      rw [after, hstart]
    have hnode : node = (s.after c).node := by rw [hafter]
    rw [hnode] at grows way found visited
    refine ⟨grows, ?_⟩
    cases hresult : (s.visited c).result with
    | error e =>
      -- the access itself failed, and changed nothing
      have hfailed : (c.access.visit m ⟨s.store.heap, shared⟩).result = .error e := by
        rwa [hstart] at hresult
      have hsame := c.access.steady_visit.failed m _ e hfailed
      refine .inl ⟨e, rfl, ?_⟩
      rw [hafter, hsame]
    | ok data => exact .inr ⟨data, route, m, shared, way, found, visited, hresult⟩

/-- A request that fails changes no byte. -/
theorem Housed.heap_of_error (h : s.Housed shape place) {e : SessionError}
    (he : (s.visited c).result = .error e) : (s.after c).store.heap = s.store.heap := by
  obtain ⟨-, ⟨_, -, hheap⟩ | ⟨data, route, m, shared, hlands⟩⟩ := h.failed_or_lands c
  · exact hheap
  · have hok := hlands.ok
    rw [he] at hok
    cases hok

/-- What a request does to a structure that is housed. -/
theorem Housed.step (h : s.Housed shape place) (htyped : s.Typed c) : s.Step shape place c := by
  -- a request that failed has changed no byte; for the other case it is known where it got to
  obtain ⟨hgrows, ⟨e, he, hheap⟩ | ⟨data, route, m, shared, hlands⟩⟩ := h.failed_or_lands c
  · refine ⟨h.after_of_has (by rw [hheap]; exact h.has), hgrows, fun data hok => ?_,
      fun {n} _ _ _ other index => ?_⟩
    · rw [he] at hok
      cases hok
    · have hnone : s.written? c other index = none := by rw [written?, he]
      rw [hheap, hnone, Option.none_or]
  · obtain ⟨t, q, -, hregion, -, -, hdone⟩ := h.performed htyped hlands
    have hhas : (s.after c).store.heap.Has place.region := by
      rw [hlands.store]
      exact (hdone s.store.heap (hregion ▸ h.has)).has _ h.has
    refine ⟨h.after_of_has hhas, hgrows, fun data' hok => ?_,
      fun hn hstatus hlater other index => ?_⟩
    · rw [hlands.ok] at hok
      cases hok
      exact ⟨route, m, h.answered htyped hlands⟩
    · exact h.datum?_of_lands htyped hlands hn hstatus hlater other index

/-- A request along steps that lead to a structure which its access fits is answered as soon as all
cells that it reads hold a datum. -/
theorem Housed.visited_eq_ok_iff {m : Node} {route : List Nat} (h : s.Housed shape place)
    (hway : s.node.route? c.steps = some route) (hfound : s.node.at? route = some m)
    (hfits : c.access.Fits m) (htyped : c.access.Typed m) (data : List Datum) :
    (s.visited c).result = .ok data ↔
      data.map some = (c.access.reads m).map fun i => s.datum? route i := by
  have hreaches := Visit.reaches_along (v := c.access.visit) h.sound hway hfound s.store
  obtain ⟨t, q, hm, hregion, -⟩ := stored_at h.sound h.status hfound
  have hmself : m.Consistent := (h.sound.at hfound).self_of
  have hperformed := Access.performed hmself hm (hregion ▸ h.has) hfits htyped
  have hcells : ∀ i, s.datum? route i = m.datum? s.store.heap [] i := fun i => datum?_at hfound
  rw [visited, hreaches.result, hperformed.answer]
  simp only [hcells]

end Scene

end NativeLayout
