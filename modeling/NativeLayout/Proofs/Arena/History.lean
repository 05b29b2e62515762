import Mathlib.Order.Bounds.Basic
import NativeLayout.Proofs.Arena.Push
import NativeLayout.Proofs.Session.World

namespace NativeLayout.Arena

/-!
# What happened to an arena

* `Block` — what a push took, with the arena in front of the push.
* `Step` — an operation on an arena, whether it succeeds or not.
* `History` — an arena with the blocks of the pushes that are not popped; `History.after` follows a
  step, and goes by nothing but its result.
* `History.Arises` — the histories that come about step by step, with any structures.
* `History.Traced` — the invariant: frames, bytes in use and safe points are those of the blocks.
* `Arises.traced` — it holds of every history.
-/

/-- What a push took. -/
structure Block where
  /-- How many pushes succeeded before. -/
  number : Nat
  /-- The arena in front of the push. -/
  before : Arena
  /-- The shape of the structure, and where it is stored. -/
  shape : Shape
  place : Placement
  deriving DecidableEq, Repr

namespace Block

/-- The offset of the first byte, leading padding included. -/
def start (b : Block) : Nat := b.place.offset - b.shape.pre

/-- The offset behind the last byte. -/
def stop (b : Block) : Nat := b.start + b.shape.footprint

/-- What the arena keeps of the push. -/
def frame (b : Block) : Frame := { previous := b.before.used, value := b.place.offset }

end Block

/-- The end of the newest block, or the start of the region if there is none. -/
def top : List Block → Nat
  | [] => 0
  | b :: _ => b.stop

/-- An operation on an arena. -/
inductive Step where
  | push (n : Node) (store : Store)
  | pop
  | popNode (n : Node)
  | setSafePoint
  | checkSafePoint
  | releaseSafePoint

/-- Whether a structure that is pushed comes about in some world; any structure may be popped. -/
def Step.Possible : Step → Prop
  | .push n store => ∃ w : World, w.Reachable ∧ n ∈ w.trees ∧ w.store = store
  | _ => True

/-- An arena, with the pushes that are not popped. -/
structure History where
  arena : Arena
  /-- The number of pushes that succeeded. -/
  pushes : Nat
  /-- The blocks that are not popped, newest first. -/
  blocks : List Block
  /-- The blocks that were there when each safe point was set, for the safe points that are not
  released, newest first. -/
  marks : List (List Block)
  deriving DecidableEq, Repr

namespace History

/-- The blocks that were there when the newest safe point was set, and none without a safe point. -/
def marked (h : History) : List Block := h.marks.headD []

/-- The history after a step. -/
def after (h : History) : Step → History
  | .push n store =>
    let p := h.arena.push n store.heap store.shared
    match p.outcome.result, p.outcome.state.status with
    | .ok _, .allocated shape place =>
      { h with
        arena := p.arena
        pushes := h.pushes + 1
        blocks := ⟨h.pushes, h.arena, shape, place⟩ :: h.blocks }
    -- a push that failed
    | _, _ => { h with arena := p.arena }
  | .pop =>
    match h.arena.pop with
    | .ok arena => { h with arena, blocks := h.blocks.tail }
    | .error _ => h
  | .popNode n =>
    match h.arena.popNode n with
    | .ok arena => { h with arena, blocks := h.blocks.tail }
    | .error _ => h
  | .setSafePoint => { h with arena := h.arena.setSafePoint, marks := h.blocks :: h.marks }
  | .checkSafePoint => h
  | .releaseSafePoint =>
    match h.arena.releaseSafePoint with
    | .ok (_, arena) => { h with arena, marks := h.marks.tail }
    | .error _ => h

/-- The histories that come about step by step. -/
inductive Arises : History → Prop where
  | make {capacity : Nat} {heap heap' : Heap} {arena : Arena}
      (ok : Arena.make capacity heap = .ok (arena, heap')) : Arises ⟨arena, 0, [], []⟩
  | step {h : History} (arises : Arises h) {c : Step} (possible : c.Possible) : Arises (h.after c)

/-! ### Blocks of a stack -/

/-- A block of a region, at the first aligned address behind what was in use. -/
structure Fitted (region : Region) (b : Block) : Prop where
  arena : b.before.region = region
  place : b.place.region = region
  value : b.place.offset = b.start + b.shape.pre
  least : IsLeast {m | b.shape.align ∣ m ∧ b.before.pointer ≤ m} (region.base + b.start)
  stop_le : b.stop ≤ region.length

/-- Each block was pushed on those behind it. -/
def Stack (region : Region) : List Block → Prop
  | [] => True
  | b :: blocks => Fitted region b ∧ b.before.used = top blocks ∧
      b.before.frames = blocks.map Block.frame ∧ Stack region blocks

/-- A safe point that was set while these blocks were there. -/
def pointAt (region : Region) (blocks : List Block) : SafePoint :=
  { pointer := region.base + top blocks, depth := blocks.length }

/-- The arena is in the state that its blocks and marks say. -/
structure Traced (h : History) : Prop where
  frames : h.arena.frames = h.blocks.map Block.frame
  used : h.arena.used = top h.blocks
  stack : Stack h.arena.region h.blocks
  points : h.arena.safePoints = h.marks.map (pointAt h.arena.region)
  /-- Of two pushes the later one has the higher number. -/
  numbers : (h.pushes :: h.blocks.map Block.number).Pairwise (· > ·)

variable {h : History} {region : Region}

/-- The depth of an arena is the number of pushes that are outstanding. -/
theorem Traced.depth (ht : h.Traced) : h.arena.depth = h.blocks.length := by
  rw [Arena.depth, ht.frames, List.length_map]

/-! ### Steps -/

/-- A new arena has no pushes and no safe points. -/
theorem traced_make {capacity : Nat} {heap heap' : Heap} {arena : Arena}
    (ok : Arena.make capacity heap = .ok (arena, heap')) : Traced ⟨arena, 0, [], []⟩ := by
  unfold Arena.make at ok
  cases hallocate : heap.allocate capacity baseAlign with
  | error e =>
    rw [hallocate] at ok
    cases ok
  | ok made =>
    rw [hallocate] at ok
    cases ok
    exact ⟨rfl, rfl, trivial, rfl, List.pairwise_singleton _ _⟩

/-- A push that succeeds puts a block on the others, in which the structure is stored. -/
theorem after_push {n : Node} {store : Store} (hn : n.Sound) (hshared : store.shared.Coherent)
    (ok : (h.arena.push n store.heap store.shared).outcome.result = .ok ()) :
    ∃ b : Block, b.number = h.pushes ∧ b.before = h.arena ∧ Fitted h.arena.region b ∧
      (h.arena.push n store.heap store.shared).outcome.state.status = .allocated b.shape b.place ∧
      (h.arena.push n store.heap store.shared).arena = h.arena.pushed b.start b.stop b.shape ∧
      h.after (.push n store) = ⟨(h.arena.push n store.heap store.shared).arena, h.pushes + 1,
        b :: h.blocks, h.marks⟩ := by
  obtain ⟨shape, start, stop, hblock, hpow, hstatus, harena⟩ := pushed_of_ok hn hshared ok
  obtain ⟨-, -, -, rfl, hroom⟩ := eq_of_block? hblock
  -- the block of the push, placed behind the padding in front of its value
  let b : Block := ⟨h.pushes, h.arena, shape, ⟨h.arena.region, start + shape.pre, .claimed⟩⟩
  have hstart : b.start = start := Nat.add_sub_cancel _ _
  have hstop : b.stop = start + shape.footprint := by rw [Block.stop, hstart]
  refine ⟨b, rfl, rfl, ?_, hstatus, ?_, ?_⟩
  · refine ⟨rfl, rfl, ?_, ?_, ?_⟩
    · rw [hstart]
    · rw [hstart]
      exact isLeast_of_block? hpow hblock
    · rw [hstop]
      exact hroom
  · rw [hstart, hstop]
    exact harena
  · simp only [after, ok, hstatus]
    rfl

/-- A push that fails changes nothing. -/
theorem after_push_of_error {n : Node} {store : Store} {fault : Fault}
    (error : (h.arena.push n store.heap store.shared).outcome.result = .error fault) :
    h.after (.push n store) = h := by
  simp only [after, error]
  rw [arena_push_of_error error]

/-- A push puts its block on the others, behind all of them. -/
theorem Traced.pushed (ht : h.Traced) {b : Block} (hnumber : b.number = h.pushes)
    (hbefore : b.before = h.arena) (hfitted : Fitted h.arena.region b) :
    Traced ⟨h.arena.pushed b.start b.stop b.shape, h.pushes + 1, b :: h.blocks, h.marks⟩ := by
  constructor
  · show { previous := h.arena.used, value := b.start + b.shape.pre } :: h.arena.frames = _
    rw [← hfitted.value, ← hbefore, List.map_cons, Block.frame, hbefore, ht.frames]
  · rfl
  · refine ⟨hfitted, ?_, ?_, ht.stack⟩
    · rw [hbefore, ht.used]
    · rw [hbefore, ht.frames]
  · exact ht.points
  · rw [List.map_cons, hnumber]
    refine List.pairwise_cons.2 ⟨fun m hm => ?_, ht.numbers⟩
    rcases List.mem_cons.1 hm with rfl | hm
    · exact Nat.lt_succ_self _
    · exact Nat.lt_succ_of_lt ((List.pairwise_cons.1 ht.numbers).1 m hm)

/-- A pop takes back the newest block, and with it what its push changed. -/
theorem Traced.pop_eq_ok (ht : h.Traced) {a : Arena} (ok : h.arena.pop = .ok a) :
    ∃ b blocks, h.blocks = b :: blocks ∧
      a = { h.arena with used := b.before.used, frames := b.before.frames } := by
  have hframes := ht.frames
  have hstack := ht.stack
  cases hblocks : h.blocks with
  | nil =>
    rw [hblocks] at hframes
    rw [Arena.pop, hframes] at ok
    cases ok
  | cons b blocks =>
    rw [hblocks] at hframes hstack
    rw [Arena.pop, hframes] at ok
    cases ok
    refine ⟨b, blocks, rfl, ?_⟩
    -- the block below is what the arena had before this push
    rw [hstack.2.2.1]
    rfl

/-- A pop takes the newest block away, and leaves the arena as that push found it. -/
theorem Traced.popped (ht : h.Traced) {a : Arena} (ok : h.arena.pop = .ok a) :
    Traced { h with arena := a, blocks := h.blocks.tail } := by
  obtain ⟨b, blocks, hblocks, rfl⟩ := ht.pop_eq_ok ok
  obtain ⟨-, hused, hframes, hstack⟩ : Stack h.arena.region (b :: blocks) := hblocks ▸ ht.stack
  have hnumbers := ht.numbers
  rw [hblocks] at hnumbers ⊢
  refine ⟨hframes, hused, hstack, ht.points, ?_⟩
  exact hnumbers.sublist (List.Sublist.cons_cons _ (List.sublist_cons_self _ _))

/-- Popping a structure, where it succeeds, is popping. -/
theorem pop_of_popNode {a a' : Arena} {n : Node} (ok : a.popNode n = .ok a') : a.pop = .ok a' := by
  unfold popNode at ok
  split at ok
  · exact ok
  · cases ok

/-- Releasing a safe point leaves the blocks as they are. -/
theorem Traced.released (ht : h.Traced) {point : SafePoint} {a : Arena}
    (ok : h.arena.releaseSafePoint = .ok (point, a)) :
    Traced { h with arena := a, marks := h.marks.tail } := by
  have hpoints := ht.points
  cases hmarks : h.marks with
  | nil =>
    rw [hmarks] at hpoints
    rw [releaseSafePoint, hpoints] at ok
    cases ok
  | cons mark marks =>
    rw [hmarks] at hpoints
    rw [releaseSafePoint, hpoints] at ok
    cases ok
    exact ⟨ht.frames, ht.used, ht.stack, rfl, ht.numbers⟩

/-- A step keeps the arena in the state that its blocks and marks say. -/
theorem Traced.after (ht : h.Traced) {c : Step} (possible : c.Possible) : (h.after c).Traced := by
  cases c with
  | push n store =>
    obtain ⟨w, hw, hn, rfl⟩ := possible
    cases hresult : (h.arena.push n w.store.heap w.store.shared).outcome.result with
    | error fault =>
      rw [after_push_of_error hresult]
      exact ht
    | ok =>
      obtain ⟨b, hnumber, hbefore, hfitted, -, harena, hafter⟩ :=
        after_push (hw.sound.trees n hn) hw.sound.coherent hresult
      rw [hafter, harena]
      exact ht.pushed hnumber hbefore hfitted
  | pop =>
    simp only [History.after]
    split
    next arena ok => exact ht.popped ok
    next => exact ht
  | popNode n =>
    simp only [History.after]
    split
    next arena ok => exact ht.popped (pop_of_popNode ok)
    next => exact ht
  | setSafePoint =>
    -- the mark is what the arena has noted: the end of the newest block and how many there are
    refine ⟨ht.frames, ht.used, ht.stack, ?_, ht.numbers⟩
    show h.arena.safePoint :: h.arena.safePoints = _
    rw [ht.points, safePoint, Arena.pointer, ht.used, ht.depth]
    rfl
  | checkSafePoint => exact ht
  | releaseSafePoint =>
    simp only [History.after]
    split
    next point arena ok => exact ht.released ok
    next => exact ht

/-- Every arena is in the state that its blocks and marks say, whatever was done to it. -/
theorem Arises.traced (harises : h.Arises) : h.Traced := by
  induction harises with
  | make ok => exact traced_make ok
  | step _ possible ih => exact ih.after possible

end History

end NativeLayout.Arena
