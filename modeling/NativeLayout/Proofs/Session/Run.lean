import NativeLayout.Proofs.Session.Scene
import NativeLayout.Proofs.Session.World

namespace NativeLayout

/-!
# Runs of requests to a stored structure

* `Scene.afterAll`, `Scene.AllTyped` — requests one after the other.
* `Scene.lastWritten?` — what the last of them wrote to a cell that wrote to it at all.
* `Scene.Housed.datum?_afterAll` — a cell holds what was last written to it, or else what was there
  at the start.
* `Scene.Faithful`, `World.Reachable.faithful` — every request to a structure of a reachable world
  that got storage stays within the bytes of one leaf, answers what was last written there, and
  leaves the other cells alone, whatever requests came before.
-/

open Node

namespace Scene

/-- What is there after some requests. -/
def afterAll : List Request → Scene → Scene
  | [], s => s
  | c :: cs, s => afterAll cs (s.after c)

/-- Whether all that some requests write are values of the structures that they get to. -/
def AllTyped : List Request → Scene → Prop
  | [], _ => True
  | c :: cs, s => s.Typed c ∧ AllTyped cs (s.after c)

/-- What the last request wrote to a cell that wrote to it. -/
def lastWritten? (route : List Nat) (index : Nat) : List Request → Scene → Option Datum
  | [], _ => none
  | c :: cs, s => (lastWritten? route index cs (s.after c)).or (s.written? c route index)

variable {shape : Shape} {place : Placement} {s : Scene} {cs : List Request}

/-- After any number of requests the structure is where it was. -/
theorem Housed.afterAll (h : s.Housed shape place) (htyped : s.AllTyped cs) :
    (s.afterAll cs).Housed shape place := by
  induction cs generalizing s with
  | nil => exact h
  | cons c cs ih => exact ih (h.step htyped.1).housed htyped.2

/-- What is there once stays, after any number of requests. -/
theorem Housed.grows_afterAll (h : s.Housed shape place) (htyped : s.AllTyped cs) :
    Grows s.node (s.afterAll cs).node := by
  induction cs generalizing s with
  | nil => exact .refl s.node
  | cons c cs ih =>
    have hstep := h.step htyped.1
    exact hstep.grows.trans (ih hstep.housed htyped.2)

/-- A cell holds what was last written to it, or else what was there at the start. -/
theorem Housed.datum?_afterAll (h : s.Housed shape place) (htyped : s.AllTyped cs) {n : Node}
    (hn : n.Sound) (hstatus : n.status = .allocated shape place)
    (hgrows : Grows (s.afterAll cs).node n) (route : List Nat) (index : Nat) :
    n.datum? (s.afterAll cs).store.heap route index =
      (lastWritten? route index cs s).or (n.datum? s.store.heap route index) := by
  -- the invariant is that the structure stays housed; a step accounts for one request
  induction cs generalizing s with
  | nil => exact (Option.none_or).symm
  | cons c cs ih =>
    have hstep := h.step htyped.1
    -- the leaves of this moment are in the later tree as well, so the step says what they hold
    have hlater : Grows (s.after c).node n :=
      (hstep.housed.grows_afterAll htyped.2).trans hgrows
    have hfirst := hstep.data hn hstatus hlater route index
    have hrest := ih hstep.housed htyped.2 hgrows
    show n.datum? ((s.after c).afterAll cs).store.heap route index = _
    rw [hrest, hfirst, lastWritten?, Option.or_assoc]

/-- What holds of requests to a structure that is stored somewhere, after some other requests. -/
structure Faithful (place : Placement) (start : Scene) (cs : List Request) : Prop where
  /-- Every leaf is still there, at its route. -/
  leaves : Grows start.node (start.afterAll cs).node
  /-- A request that succeeds got to a structure within the region, and reads and writes only the
  bytes of that structure.  It answers what was last written to the cells that it reads, or else what
  was there at the start.  No cell changes but those that it writes to. -/
  answered : ∀ c data, (start.afterAll cs).Typed c →
    ((start.afterAll cs).visited c).result = .ok data →
      ∃ route m t q, (start.afterAll cs).Answered place c data route m t q ∧
        (data.map some = (c.access.reads m).map fun i => (lastWritten? route i cs start).or
          (((start.afterAll cs).after c).node.datum? start.store.heap route i)) ∧
        ∀ other i, ((start.afterAll cs).after c).datum? other i =
          (if route = other then c.access.written? m i else none).or
            (((start.afterAll cs).after c).node.datum? (start.afterAll cs).store.heap other i)
  /-- A request that fails changes no byte. -/
  failed : ∀ c e, ((start.afterAll cs).visited c).result = .error e →
    ((start.afterAll cs).after c).store.heap = (start.afterAll cs).store.heap
  /-- A request to a structure that its access fits is answered as soon as each cell that it reads
  holds a datum, as it does once one was written. -/
  answers : ∀ steps access route m, (start.afterAll cs).node.route? steps = some route →
    (start.afterAll cs).node.at? route = some m → access.Fits m → access.Typed m → ∀ data,
      ((start.afterAll cs).visited ⟨steps, access⟩).result = .ok data ↔
        data.map some = (access.reads m).map fun i => (lastWritten? route i cs start).or
          ((start.afterAll cs).node.datum? start.store.heap route i)

/-- What is stored is faithful to the requests, after any number of them. -/
theorem Housed.faithful_afterAll (h : s.Housed shape place) (htyped : s.AllTyped cs) :
    s.Faithful place cs := by
  have hhoused := h.afterAll htyped
  constructor
  · exact h.grows_afterAll htyped
  · intro c data hc hok
    -- one more request sees the cells as all the requests before it left them
    have hstep := hhoused.step hc
    have hholds := h.datum?_afterAll htyped hstep.housed.sound hstep.housed.status hstep.grows
    obtain ⟨route, m, t, q, hanswered⟩ := hstep.answered data hok
    refine ⟨route, m, t, q, hanswered, ?_, fun other i => ?_⟩
    · rw [hanswered.answer]
      exact List.map_congr_left fun i _ => hholds route i
    · have hdata := hstep.data hstep.housed.sound hstep.housed.status (.refl _) other i
      rw [written?_of_ok hok hanswered.way hanswered.found] at hdata
      exact hdata
  · exact fun c e he => hhoused.heap_of_error he
  · intro steps access route m hway hfound hfits hc data
    have hholds := h.datum?_afterAll htyped hhoused.sound hhoused.status (.refl _)
    rw [hhoused.visited_eq_ok_iff hway hfound hfits hc]
    have hcells : ∀ i, (s.afterAll cs).datum? route i = _ := fun i => hholds route i
    simp only [hcells]

end Scene

/-- Requests to a structure of a reachable world that got storage. -/
theorem World.Reachable.faithful {w : World} (h : w.Reachable) {n m : Node} {route : List Nat}
    {s : Scene} {cs : List Request} (hn : n ∈ w.trees) (hm : n.at? route = some m)
    (hgrants : Grants m w.store s) (htyped : s.AllTyped cs) :
    ∃ shape place, s.node.status = .allocated shape place ∧ s.Faithful place cs := by
  have hsound := (h.sound.trees n hn).at hm
  obtain ⟨shape, place, hhoused⟩ := hgrants.housed hsound h.sound.coherent
  exact ⟨shape, place, hhoused.status, hhoused.faithful_afterAll htyped⟩

/-- A record of a byte and a lazy array of two addresses: the second element is made for a write,
then the first one, and each holds what was written to it. -/
theorem World.Reachable.faithful_addresses : ∃ (w : World) (n : Node) (s : Scene) (place : Placement)
    (cs : List Request), w.Reachable ∧ n ∈ w.trees ∧ Grants n w.store s ∧ s.AllTyped cs ∧
      s.Faithful place cs ∧ (s.afterAll cs).datum? [1, 1] 0 = some (.address 4096) ∧
        (s.afterAll cs).datum? [1, 0] 0 = some (.address 8) := by
  have address := (Reachable.start 0).leaf (.pointer none)
  have array := address.uniform 2 true 0 rfl
  have byte := array.leaf (.scalars .u8 1)
  have record := byte.record ⟨"Pair", .msvcX64, false, 0⟩
  have first := record.field 3 2 "tag" rfl
  have both := first.field 3 1 "items" rfl
  have resolved := both.call 3 [] (c := .resolve) trivial
  -- the second element is asked for first
  let cs : List Request := [⟨[.index 1, .element 1], .putAddress 4096⟩,
    ⟨[.index 1, .element 0], .putAddress 8⟩, ⟨[.index 0], .getNumber 0⟩]
  let allocated (w : World) (n : Node) : Scene :=
    ⟨(Visit.allocate n w.store).node, (Visit.allocate n w.store).store⟩
  obtain ⟨w, hw, hrun⟩ : ∃ w : World, w.Reachable ∧ (w.trees[3]?.map fun n =>
      ((Visit.allocate n w.store).result, ((allocated w n).afterAll cs).datum? [1, 1] 0,
        ((allocated w n).afterAll cs).datum? [1, 0] 0)) =
          some (.ok (), some (.address 4096), some (.address 8)) :=
    ⟨_, resolved, by decide +kernel⟩
  obtain ⟨n, hn, hrun⟩ := Option.map_eq_some_iff.1 hrun
  obtain ⟨hok, hsecond, hfirst⟩ : _ ∧ _ ∧ _ := by simpa only [Prod.mk.injEq] using hrun
  have hn := List.mem_of_getElem? hn
  have hgrants : Grants n w.store (allocated w n) := .allocate hok
  have htyped : (allocated w n).AllTyped cs :=
    ⟨fun _ _ _ _ => (by decide : 4096 < Word.limit), fun _ _ _ _ => (by decide : 8 < Word.limit),
      fun _ _ _ _ => trivial, trivial⟩
  obtain ⟨shape, place, -, hfaithful⟩ := hw.faithful hn (at?_nil n) hgrants htyped
  exact ⟨w, n, allocated w n, place, cs, hw, hn, hgrants, htyped, hfaithful, hsecond, hfirst⟩

end NativeLayout
