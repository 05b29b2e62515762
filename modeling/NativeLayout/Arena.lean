import NativeLayout.Node.Claim

namespace NativeLayout

/-!
# Arenas

An arena is a region that is used as a stack.  Structures are pushed one behind the other and
popped in the reverse order.

* `Arena.push`, `Arena.pop`, `Arena.popNode` — the stack; a pop undoes the push before it
  (`pop_pushed`).
* `Arena.setSafePoint`, `Arena.releaseSafePoint`, `Arena.isSafe` — safe points, and whether as many
  bytes are in use as at the newest one.
-/

/-- What is known of a push until it is popped. -/
structure Frame where
  /-- The bytes that were used before the push. -/
  previous : Nat
  /-- The offset of the pushed value. -/
  value : Nat
  deriving DecidableEq, Repr

/-- The state of an arena at some moment. -/
structure SafePoint where
  /-- The address behind the used bytes. -/
  pointer : Nat
  /-- The number of pushes. -/
  depth : Nat
  deriving DecidableEq, Repr

/-- A region that is used as a stack. -/
structure Arena where
  region : Region
  /-- The bytes in use, from the start of the region. -/
  used : Nat
  /-- The pushes that are not popped, newest first. -/
  frames : List Frame
  /-- The safe points that are not released, newest first. -/
  safePoints : List SafePoint
  deriving DecidableEq, Repr

namespace Arena

/-- The alignment of an arena's first byte. -/
def baseAlign : Nat := 16

/-- An arena of some bytes. -/
def make (capacity : Nat) (heap : Heap) : Except LayoutError (Arena × Heap) :=
  (heap.allocate capacity baseAlign).map fun (region, heap) =>
    ({ region, used := 0, frames := [], safePoints := [] }, heap)

/-- The size of the region. -/
def capacity (a : Arena) : Nat := a.region.length

/-- The bytes that are not used. -/
def remaining (a : Arena) : Nat := a.capacity - a.used

/-- The number of pushes that are not popped. -/
def depth (a : Arena) : Nat := a.frames.length

/-- The address behind the used bytes. -/
def pointer (a : Arena) : Nat := a.region.base + a.used

/-- The first offset behind the used bytes whose address is aligned. -/
def alignedOffset? (a : Arena) (align : Nat) : Option Nat :=
  (Word.roundUp? a.pointer align).map (· - a.region.base)

/-- The offsets of the block that a structure of some shape would get. -/
def block? (a : Arena) (shape : Shape) : Except Fault (Nat × Nat) :=
  match a.alignedOffset? shape.align with
  | none => .error (.layout .overflow)
  | some start =>
    match Word.add? start shape.footprint with
    | none => .error (.layout .overflow)
    | some stop =>
      if a.capacity < stop then .error (.capacity (stop - a.used) a.remaining)
      else .ok (start, stop)

/-- The arena with one more push. -/
def pushed (a : Arena) (start stop : Nat) (shape : Shape) : Arena :=
  { a with
    used := stop
    frames := { previous := a.used, value := start + shape.pre } :: a.frames }

/-- What a push leaves behind. -/
structure Push where
  outcome : Outcome Node Unit
  heap : Heap
  arena : Arena

/-- Resolves a structure and gives it the next block, which is cleared first. -/
def push (a : Arena) (n : Node) (heap : Heap) (shared : Shared) : Push :=
  let r := n.resolve shared
  match r.result with
  | .error fault => { outcome := .fail r.shared r.state fault, heap, arena := a }
  | .ok shape =>
    match a.block? shape with
    | .error fault => { outcome := .fail r.shared r.state fault, heap, arena := a }
    | .ok (start, stop) =>
      let heap := heap.fill a.region start (stop - start)
      let claimed := Node.claim a.region start r.state r.shared
      { outcome := claimed
        heap
        arena := match claimed.result with
          | .ok _ => a.pushed start stop shape
          | .error _ => a }

/-- Takes back the newest push. -/
def pop (a : Arena) : Except Fault Arena :=
  match a.frames with
  | [] => .error (.illegal .pop .nothingPushed)
  | frame :: frames => .ok { a with used := frame.previous, frames }

/-- Whether a structure is stored where the newest push put its value. -/
def isTop (a : Arena) (n : Node) : Bool :=
  match a.frames, n.placement? with
  | frame :: _, some placement =>
    placement.region.number = a.region.number ∧ placement.offset = frame.value
  | _, _ => false

/-- Takes back the newest push, if it is that of the given structure. -/
def popNode (a : Arena) (n : Node) : Except Fault Arena :=
  if a.isTop n then a.pop
  else .error (.illegal .popStructure (.notOnTop n.facade.typeName))

/-- The state of the arena as a safe point. -/
def safePoint (a : Arena) : SafePoint := { pointer := a.pointer, depth := a.depth }

/-- Sets a safe point. -/
def setSafePoint (a : Arena) : Arena :=
  { a with safePoints := a.safePoint :: a.safePoints }

/-- Whether the arena is as it was at the newest safe point, or empty if there is none. -/
def isSafe (a : Arena) : Bool :=
  match a.safePoints with
  | [] => a.pointer = a.region.base
  | point :: _ => a.pointer = point.pointer

/-- Forgets the newest safe point. -/
def releaseSafePoint (a : Arena) : Except Fault (SafePoint × Arena) :=
  match a.safePoints with
  | [] => .error (.illegal .releaseSafePoint .noSafePoint)
  | point :: safePoints => .ok (point, { a with safePoints })

/-! ### Taking back what was done last -/

@[simp] theorem pop_pushed (a : Arena) (start stop : Nat) (shape : Shape) :
    (a.pushed start stop shape).pop = .ok a := rfl

@[simp] theorem releaseSafePoint_setSafePoint (a : Arena) :
    a.setSafePoint.releaseSafePoint = .ok (a.safePoint, a) := rfl

end Arena

end NativeLayout
