import NativeLayout.Proofs.Arena.Discipline
import NativeLayout.Proofs.Lazy.Visits
import NativeLayout.Proofs.Relocation.Visits
import NativeLayout.Proofs.Session.Run

namespace NativeLayout

/-!
# A push leaves no traces and takes no bytes of others

* `Node.blank?` — what a leaf holds whose bytes are zero.
* `Arena.History.Takes`, `Arena.History.exists_takes` — the block that a push took, with what became of
  the memory and of the structure.
* `Relocation.stay`, `Relocation.carry` — bytes that stay where they are, and bytes of one region that
  go to another place.
* `Arena.History.Clean`, `Arena.History.Arises.clean` — whatever was done to an arena, a push clears its
  block and changes no other byte: the new structure looks the same whatever was there before, and so do
  the structures of earlier pushes.
-/

open Node

/-! ### Zero bytes -/

/-- What the cell at an index of a leaf holds if its bytes are zero. -/
def Leaf.blank? (kind : Leaf) (index : Nat) : Option Datum :=
  (kind.cell? index).bind fun c => kind.meaning? (List.replicate c.2 0)

/-- What the cell at an index of the leaf at a route holds if its bytes are zero. -/
def Node.blank? (route : List Nat) (index : Nat) (n : Node) : Option Datum :=
  match n.at? route with
  | some (.leaf _ kind) => kind.blank? index
  | _ => none

section zero

variable {heap : Heap} {s : Shape} {p : Placement}

/-- Reading zero bytes gives zeros. -/
theorem Heap.read_of_zero {region : Region} {offset count : Nat}
    (h : ∀ i, offset ≤ i → i < offset + count → heap.content region i = 0) :
    heap.read region offset count = List.replicate count 0 := by
  refine List.eq_replicate_iff.2 ⟨Content.length_read _ _ _, fun b hb => ?_⟩
  obtain ⟨i, hi, rfl⟩ := List.mem_map.1 hb
  exact h (offset + i) (Nat.le_add_right _ _) (Nat.add_lt_add_left (List.mem_range.1 hi) _)

/-- A leaf in zero bytes holds what zeros mean in its cells. -/
theorem Leaf.datum?_of_zero {kind : Leaf} (hkind : kind.shape? = .ok s)
    (hzero : ∀ i, p.offset ≤ i → i < p.offset + s.size → heap.content p.region i = 0) (index : Nat) :
    kind.datum? heap (.allocated s p) index = kind.blank? index := by
  rw [blank?]
  cases hc : kind.cell? index with
  | none => exact datum?_eq_none hc
  | some c =>
    have hinside : c.1 + c.2 ≤ s.size := cell_inside hkind hc
    have hread : heap.read p.region (p.offset + c.1) c.2 = List.replicate c.2 0 :=
      Heap.read_of_zero fun i hlower hupper => hzero i (by omega) (by omega)
    rw [datum?_eq rfl hc, hread, Option.bind_some]

/-- The leaves of a structure that is stored in zero bytes. -/
theorem Node.datum?_of_zero {n : Node} (hn : n.Sound) (hs : n.status = .allocated s p)
    (hzero : ∀ i, p.offset ≤ i → i < p.offset + s.size → heap.content p.region i = 0)
    (route : List Nat) (index : Nat) : n.datum? heap route index = n.blank? route index := by
  rw [datum?, blank?]
  cases hfound : n.at? route with
  | none => rfl
  | some m =>
    cases m with
    | record => rfl
    | array => rfl
    | leaf status kind =>
      obtain ⟨t, q, hstatus, hregion, hstart, hstop⟩ := stored_at hn hs hfound
      obtain rfl : status = .allocated t q := hstatus
      refine Leaf.datum?_of_zero ((hn.at hfound).self_of t rfl) (fun i hlower hupper => ?_) index
      rw [hregion]
      -- the bytes of a leaf are among those of the structure
      exact hzero i (by omega) (by omega)

end zero

/-! ### Bytes that stay, and bytes that go -/

namespace Relocation

/-- Bytes that stay where they are. -/
def stay (region : Region) (start size : Nat) (room : start + size ≤ region.length) : Relocation where
  move := id
  source := region
  start
  target := region
  landing := start
  size
  carries _ _ := rfl
  room
  space := room

/-- Bytes that go to another place. -/
def carry (source : Region) (start : Nat) (target : Region) (landing size : Nat)
    (room : start + size ≤ source.length) (space : landing + size ≤ target.length) : Relocation where
  move p := ⟨target, p.offset - start + landing, p.ownership⟩
  source
  start
  target
  landing
  size
  carries x ownership := by rw [Nat.add_sub_cancel_left, Nat.add_comm]
  room
  space

end Relocation

namespace Arena

/-- A structure that was pushed, with everything it uses. -/
def scene (a : Arena) (n : Node) (store : Store) : Scene :=
  let p := a.push n store.heap store.shared
  ⟨p.outcome.state, ⟨p.heap, p.outcome.shared⟩⟩

variable {a : Arena} {n : Node} {heap : Heap} {shared : Shared} {region : Region}

/-- A push makes no region, and takes none away. -/
theorem has_push : (a.push n heap shared).heap.Has region ↔ heap.Has region := by
  simp only [push]
  split
  next => rfl
  next =>
    split
    next => rfl
    next => exact Heap.has_modify

/-- No push changes a byte in front of the end of the used ones. -/
theorem content_push {i : Nat}
    (hi : region.number ≠ a.region.number ∨ i < a.used) :
    (a.push n heap shared).heap.content region i = heap.content region i := by
  simp only [push]
  split
  next => rfl
  next shape _ =>
    split
    next => rfl
    next start stop hblock =>
      obtain ⟨address, haddress, rfl, -, -⟩ := eq_of_block? hblock
      have hle : a.region.base + a.used ≤ address := Word.le_of_roundUp?_eq_some haddress
      exact Heap.sameOutside_fill region i (hi.imp_right fun hlt => .inl (by omega))

namespace History

variable {h : History} {n : Node} {store : Store} {b : Block}

/-- What a push that succeeded took. -/
structure Takes (h : History) (n : Node) (store : Store) (b : Block) : Prop where
  before : b.before = h.arena
  fitted : Fitted h.arena.region b
  after : (h.after (.push n store)).blocks = b :: h.blocks
  resolved : (n.resolve store.shared).result = .ok b.shape
  heap : (h.arena.push n store.heap store.shared).heap =
    store.heap.fill h.arena.region b.start b.shape.footprint
  outcome : (h.arena.push n store.heap store.shared).outcome =
    (n.resolve store.shared).state.claim h.arena.region b.start (n.resolve store.shared).shared
  status : (h.arena.push n store.heap store.shared).outcome.state.status = .allocated b.shape b.place

/-- A push that succeeded took a block, cleared it and stored the structure in it. -/
theorem exists_takes (hn : n.Sound) (hshared : store.shared.Coherent)
    (ok : (h.arena.push n store.heap store.shared).outcome.result = .ok ()) : ∃ b, h.Takes n store b := by
  obtain ⟨b, -, hbefore, hfitted, hstatus, harena, hafter⟩ := after_push hn hshared ok
  obtain ⟨shape, start, stop, hresult, hblock, hheap, houtcome, -⟩ := push_eq_of_ok ok
  obtain ⟨-, -, -, hstop, -⟩ := eq_of_block? hblock
  have hresolved := resolved_resolve hn hshared
  have hclaimed : Claimed h.arena.region start .claimed (n.resolve store.shared).state
      ((n.resolve store.shared).state.claim h.arena.region start (n.resolve store.shared).shared) :=
    claimed_claimWithin (Nat.le_refl _) hresolved.sound hresolved.coherent
  -- the structure is stored in the block that the push took
  obtain ⟨t, hallocatable, hstored⟩ := hclaimed.ok (houtcome ▸ ok)
  have hshape := hresolved.ok shape hresult
  rw [shape?, hallocatable] at hshape
  cases hshape
  rw [← houtcome, hstatus] at hstored
  obtain ⟨hbshape, hbplace⟩ := Status.allocated.inj hstored
  have hbstart : b.start = start := by
    rw [Block.start, hbplace, hbshape, Nat.add_sub_cancel]
  refine ⟨b, hbefore, hfitted, by rw [hafter], ?_, ?_, ?_, hstatus⟩
  · rw [hresult, hbshape]
  · rw [hheap, hstop, Nat.add_sub_cancel_left, hbstart, hbshape]
  · rw [houtcome, hbstart]

/-- What a push of a structure does to memory. -/
structure Clean (h : History) (n : Node) (store : Store) : Prop where
  /-- A push that succeeds puts a block on the others, at the first aligned address.  Every byte of it
  is zero afterwards, whatever was there before, and no other byte changes. -/
  cleared : (h.arena.push n store.heap store.shared).outcome.result = .ok () → ∃ b,
    (h.after (.push n store)).blocks = b :: h.blocks ∧ b.before = h.arena ∧ Fitted h.arena.region b ∧
      (h.arena.scene n store).node.status = .allocated b.shape b.place ∧
      (∀ i, b.start ≤ i → i < b.stop →
        (h.arena.scene n store).store.heap.content h.arena.region i = 0) ∧
      store.heap.SameOutside (h.arena.scene n store).store.heap h.arena.region b.start b.stop
  /-- So a cell of the new structure that was not written yet holds what zero bytes mean, also in an
  element that is made later. -/
  initial : (h.arena.push n store.heap store.shared).outcome.result = .ok () →
    store.heap.Has h.arena.region → ∀ cs, (h.arena.scene n store).AllTyped cs → ∀ route index,
      Scene.lastWritten? route index cs (h.arena.scene n store) = none →
        ((h.arena.scene n store).afterAll cs).datum? route index =
          ((h.arena.scene n store).afterAll cs).node.blank? route index
  /-- And all requests to the new structure get the answers that they get if it is pushed on another
  arena, whatever was done to that one and whatever is in memory there. -/
  same : (h.arena.push n store.heap store.shared).outcome.result = .ok () →
    store.heap.Has h.arena.region → ∀ (h' : History) (store' : Store), (Step.push n store').Possible →
      (h'.arena.push n store'.heap store'.shared).outcome.result = .ok () →
        store'.heap.Has h'.arena.region → ∀ cs,
          (h'.arena.scene n store').answers cs = (h.arena.scene n store).answers cs
  /-- All requests to a structure of an earlier push that is not popped get the answers that they get
  without this push, whether it succeeds or not. -/
  outstanding : store.heap.Has h.arena.region → ∀ b ∈ h.blocks, ∀ m : Node, m.Sound →
    m.status = .allocated b.shape b.place → ∀ cs,
      Scene.answers cs ⟨m, (h.arena.scene n store).store⟩ = Scene.answers cs ⟨m, store⟩
  /-- A push that fails leaves the arena as it is, and changes no byte but those behind the used ones. -/
  failed : ∀ fault, (h.arena.push n store.heap store.shared).outcome.result = .error fault →
    (h.arena.push n store.heap store.shared).arena = h.arena ∧ ∀ (region : Region) (i : Nat),
      region.number ≠ h.arena.region.number ∨ i < h.arena.used →
        (h.arena.scene n store).store.heap.content region i = store.heap.content region i

/-! ### The new block -/

/-- The new block is zero. -/
theorem Takes.zero (ht : h.Takes n store b) (i : Nat) (hlower : b.start ≤ i) (hupper : i < b.stop) :
    (h.arena.scene n store).store.heap.content h.arena.region i = 0 := by
  show (h.arena.push n store.heap store.shared).heap.content _ i = 0
  rw [ht.heap]
  exact Heap.content_fill_inside ⟨hlower, hupper⟩

/-- Clearing the block changes nothing else. -/
theorem Takes.sameOutside (ht : h.Takes n store b) :
    store.heap.SameOutside (h.arena.scene n store).store.heap h.arena.region b.start b.stop := by
  show store.heap.SameOutside (h.arena.push n store.heap store.shared).heap _ _ _
  rw [ht.heap]
  exact Heap.sameOutside_fill

/-- Where the structure of a block is stored. -/
theorem Fitted.place_eq {region : Region} (hb : Fitted region b) :
    b.place = ⟨region, b.start + b.shape.pre, b.place.ownership⟩ := by
  rw [← hb.value, ← hb.place]

/-- The structure of a block is stored in it. -/
theorem Fitted.holds {r : Relocation} {m : Node} (hb : Fitted r.source b) (hm : m.Sound)
    (hstatus : m.status = .allocated b.shape b.place) (hstart : r.start = b.start)
    (hsize : r.size = b.shape.footprint) : r.Holds m := by
  refine ⟨hm, b.shape, b.shape.pre, b.place.ownership, ?_, ?_⟩
  · rw [hstatus, hb.place_eq, hstart]
  · rw [hsize, Shape.footprint_eq, Shape.extent]
    omega

/-- A push leaves sound structures and coherent catalogs. -/
theorem sound_scene (a : Arena) (hn : n.Sound) (hshared : store.shared.Coherent) :
    (a.scene n store).node.Sound ∧ (a.scene n store).store.shared.Coherent :=
  have hsafe := Visit.safe_push a n store hn hshared
  ⟨hsafe.sound, hsafe.coherent⟩

/-! ### One structure on two arenas -/

section two

variable {h' : History} {store' : Store} {b' : Block}

/-- The bytes of a block, and those of a block of the same shape on another arena. -/
def between (hb : Fitted h.arena.region b) (hb' : Fitted h'.arena.region b')
    (hshape : b'.shape = b.shape) : Relocation :=
  .carry h.arena.region b.start h'.arena.region b'.start b.shape.footprint hb.stop_le
    (hshape ▸ hb'.stop_le)

/-- A structure takes blocks of one shape, whatever catalogs it was resolved with. -/
theorem Takes.shape_eq (ht : h.Takes n store b) (ht' : h'.Takes n store' b')
    (hshared : store.shared.Coherent) (hshared' : store'.shared.Coherent) : b'.shape = b.shape := by
  have hsame := n.oblivious_resolve store.shared store'.shared hshared hshared'
  have hresult := ht.resolved.symm.trans (hsame.result.trans ht'.resolved)
  exact (Except.ok.inj hresult).symm

/-- The structure is stored on one arena as on the other. -/
theorem Takes.carried (ht : h.Takes n store b) (ht' : h'.Takes n store' b') (hn : n.Sound)
    (hshared : store.shared.Coherent) (hshared' : store'.shared.Coherent)
    (hshape : b'.shape = b.shape) :
    Outcome.Carried (relocate (between ht.fitted ht'.fitted hshape).move)
      (h.arena.push n store.heap store.shared).outcome
      (h'.arena.push n store'.heap store'.shared).outcome := by
  have hresolved := resolved_resolve hn hshared
  have hsame := n.oblivious_resolve store.shared store'.shared hshared hshared'
  have hfits : 0 + b.shape.footprint ≤ (between ht.fitted ht'.fitted hshape).size :=
    Nat.le_of_eq (Nat.zero_add _)
  rw [ht.outcome, ht'.outcome, ← hsame.state]
  exact carried_claimWithin (Nat.le_refl _) hresolved.sound .claimed .claim 0 b.shape _ _
    (hresolved.ok b.shape ht.resolved) hfits hsame.left hsame.right

/-- Two arenas on which the structure was pushed are not told apart by it. -/
theorem Takes.answers_eq (ht : h.Takes n store b) (ht' : h'.Takes n store' b') (hn : n.Sound)
    (hshared : store.shared.Coherent) (hshared' : store'.shared.Coherent)
    (ok : (h.arena.push n store.heap store.shared).outcome.result = .ok ())
    (hhas : store.heap.Has h.arena.region) (hhas' : store'.heap.Has h'.arena.region)
    (cs : List Request) :
    (h'.arena.scene n store').answers cs = (h.arena.scene n store).answers cs := by
  have hshape := ht.shape_eq ht' hshared hshared'
  have hcarried := ht.carried ht' hn hshared hshared' hshape
  have hnode : (h'.arena.scene n store').node = (h.arena.scene n store).node.relocate _ :=
    hcarried.state () ok
  have hheld := ht.fitted.holds (r := between ht.fitted ht'.fitted hshape)
    (sound_scene h.arena hn hshared).1 ht.status rfl rfl
  have hstores : (between ht.fitted ht'.fitted hshape).Stores (h.arena.scene n store).store
      (h'.arena.scene n store').store := by
    refine ⟨hcarried.left, hcarried.right, has_push.2 hhas, has_push.2 hhas', fun i hi => ?_⟩
    -- both blocks are zero
    have hlt : i < b.shape.footprint := hi
    have hzero := ht.zero (b.start + i) (Nat.le_add_right _ _) (Nat.add_lt_add_left hlt _)
    have hzero' := ht'.zero (b'.start + i) (Nat.le_add_right _ _)
      (Nat.add_lt_add_left (hshape ▸ hlt) _)
    exact hzero'.trans hzero.symm
  have hanswers := Relocation.answers_eq hheld hstores cs
  rwa [← hnode] at hanswers

end two

/-! ### Cells that were not written -/

/-- A cell of the new structure that no request wrote to means what zero bytes mean. -/
theorem Takes.datum?_afterAll (ht : h.Takes n store b) (hn : n.Sound)
    (hshared : store.shared.Coherent)
    (ok : (h.arena.push n store.heap store.shared).outcome.result = .ok ())
    (hhas : store.heap.Has h.arena.region) {cs : List Request}
    (htyped : (h.arena.scene n store).AllTyped cs) {route : List Nat} {index : Nat}
    (hunwritten : Scene.lastWritten? route index cs (h.arena.scene n store) = none) :
    ((h.arena.scene n store).afterAll cs).datum? route index =
      ((h.arena.scene n store).afterAll cs).node.blank? route index := by
  obtain ⟨shape, place, hhoused⟩ : ∃ shape place, (h.arena.scene n store).Housed shape place :=
    housed_push hn hshared hhas ok
  obtain ⟨rfl, rfl⟩ := Status.allocated.inj (hhoused.status.symm.trans ht.status)
  have hafter := hhoused.afterAll htyped
  have hdata := hhoused.datum?_afterAll htyped hafter.sound hafter.status (.refl _) route index
  -- unwritten, a cell means what it meant at first, and all bytes of the block were zero
  rw [hunwritten, Option.none_or] at hdata
  refine hdata.trans (datum?_of_zero hafter.sound hafter.status (fun i hlower hupper => ?_) route index)
  rw [ht.fitted.place]
  have hvalue := ht.fitted.value
  have hextent : b.start + b.shape.pre + b.shape.extent = b.stop := by
    rw [Block.stop, Shape.footprint_eq, Nat.add_assoc]
  exact ht.zero i (by omega) (by rw [Shape.extent] at hextent; omega)

/-! ### Earlier pushes -/

/-- A structure of an earlier push answers as before, since its bytes are in front of the new block. -/
theorem answers_scene (harises : h.Arises) (hn : n.Sound) (hshared : store.shared.Coherent)
    (hhas : store.heap.Has h.arena.region) (hb : b ∈ h.blocks) {m : Node} (hm : m.Sound)
    (hstatus : m.status = .allocated b.shape b.place) (cs : List Request) :
    Scene.answers cs ⟨m, (h.arena.scene n store).store⟩ = Scene.answers cs ⟨m, store⟩ := by
  have ht := harises.traced
  have hfitted := fitted_of_stack ht.stack b hb
  -- the block ends where the used bytes end, or in front of that
  have hstop : b.stop ≤ h.arena.used := ht.used ▸ stop_le_top ht.stack b hb
  let r := Relocation.stay h.arena.region b.start b.shape.footprint hfitted.stop_le
  have hstores : r.Stores store (h.arena.scene n store).store := by
    refine ⟨hshared, (sound_scene h.arena hn hshared).2, hhas, has_push.2 hhas, fun i hi => ?_⟩
    have hlt : b.start + i < b.stop := Nat.add_lt_add_left hi _
    exact content_push (.inr (Nat.lt_of_lt_of_le hlt hstop))
  have hanswers := Relocation.answers_eq (hfitted.holds (r := r) hm hstatus rfl rfl) hstores cs
  rwa [show m.relocate r.move = m from m.relocate_id] at hanswers

/-- What every push does to memory, whatever was done to the arena before and whatever is in memory. -/
theorem Arises.clean (harises : h.Arises) (hpush : (Step.push n store).Possible) : h.Clean n store := by
  obtain ⟨w, hw, hn, rfl⟩ := hpush
  have hsound := hw.sound.trees n hn
  have hshared := hw.sound.coherent
  constructor
  · intro ok
    obtain ⟨b, ht⟩ := exists_takes hsound hshared ok
    exact ⟨b, ht.after, ht.before, ht.fitted, ht.status, ht.zero, ht.sameOutside⟩
  · intro ok hhas cs htyped route index hunwritten
    obtain ⟨b, ht⟩ := exists_takes hsound hshared ok
    exact ht.datum?_afterAll hsound hshared ok hhas htyped hunwritten
  · -- two arenas of any history give the new structure zero bytes, which is all that its answers depend on
    rintro ok hhas h' _ ⟨w', hw', -, rfl⟩ ok' hhas' cs
    obtain ⟨b, ht⟩ := exists_takes hsound hshared ok
    obtain ⟨b', ht'⟩ := exists_takes hsound hw'.sound.coherent ok'
    exact ht.answers_eq ht' hsound hshared hw'.sound.coherent ok hhas hhas' cs
  · exact fun hhas b hb m hm hstatus cs =>
      answers_scene harises hsound hshared hhas hb hm hstatus cs
  · exact fun fault error => ⟨arena_push_of_error error, fun region i hi => content_push hi⟩

/-- Memory that is full of other bytes. -/
def usedMemory : Heap := ⟨[⟨⟨1, 64, 64⟩, fun _ => 255⟩], 128⟩

/-- A number is pushed, and another one is pushed and popped.  Where that one was, a lazy array of two
numbers gets its bytes; both are zero whenever they are made, and the first number is what it was. -/
theorem Arises.clean_numbers : ∃ (h : History) (n m : Node) (store : Store), h.Arises ∧
    (Step.push n store).Possible ∧ h.Clean n store ∧
      (h.arena.push n store.heap store.shared).outcome.result = .ok () ∧
      store.heap.Has h.arena.region ∧ store.heap.content h.arena.region 4 = 255 ∧
      (h.arena.scene n store).answers [⟨[.element 1], .getNumber 0⟩, ⟨[.element 0], .getNumber 0⟩] =
        [.ok [.number 0], .ok [.number 0]] ∧
      h.blocks.map (fun b => (.allocated b.shape b.place : Status Shape)) = [m.status] ∧
      Scene.answers [⟨[], .getNumber 0⟩] ⟨m, (h.arena.scene n store).store⟩ =
        [.ok [.number 4294967295]] := by
  have number := (World.Reachable.start 0).leaf (.scalars .u32 1)
  have array := number.uniform 2 true 0 rfl
  have used := array.memory usedMemory
  have hnumber : (Step.push (.ofLeaf (.scalars .u32 1)) _).Possible :=
    ⟨_, used, List.mem_of_getElem? (i := 0) rfl, rfl⟩
  have empty := Arises.make (show Arena.make 64 (.startingAt 0) = .ok (_, _) from rfl)
  have popped := ((empty.step hnumber).step hnumber).step (c := .pop) trivial
  have harray : (Step.push (.newArray 2 true none (.ofLeaf (.scalars .u32 1)) []) _).Possible :=
    ⟨_, used, List.mem_of_getElem? (i := 1) rfl, rfl⟩
  -- the second number, which the pop left behind with a place in the same bytes
  let m : Node := .leaf (.allocated ⟨4, false, 0, 4, 0⟩ ⟨⟨1, 64, 64⟩, 0, .claimed⟩) (.scalars .u32 1)
  exact ⟨_, _, m, _, popped, harray, popped.clean harray, rfl, ⟨_, List.mem_cons_self, rfl⟩, rfl,
    by decide +kernel, by decide +kernel, by decide +kernel⟩

end History

end Arena

end NativeLayout
