import NativeLayout.LayoutError
import NativeLayout.Memory.Region

namespace NativeLayout

/-!
# Memory

Memory is made of regions, each with its bytes.  A region is made of zero bytes and is
never given back.  Where memory begins is up to whoever starts it; nothing else depends on it.

* `Heap.startingAt` — memory without regions.
* `Heap.allocate` — a new region at a multiple of an alignment.
* `Heap.read`, `Heap.write`, `Heap.fill` — bytes of a region; what is written is read again
  (`Content.read_write`), and other bytes stay (`Content.read_write_of_disjoint`).
* `Heap.addressText` — an address as a place in a region.
-/

/-- The bytes of a region, by offset. -/
abbrev Content := Nat → UInt8

namespace Content

/-- Some bytes from an offset on. -/
def read (c : Content) (offset count : Nat) : List UInt8 :=
  (List.range count).map fun i => c (offset + i)

/-- The content with other bytes from an offset on. -/
def write (c : Content) (offset : Nat) (bytes : Array UInt8) : Content := fun i =>
  if offset ≤ i then
    match bytes[i - offset]? with
    | some b => b
    | none => c i
  else c i

/-- The content with zero bytes from an offset on. -/
def fill (c : Content) (offset count : Nat) : Content := fun i =>
  if offset ≤ i ∧ i < offset + count then 0 else c i

/-! ### What is read after a change -/

@[simp] theorem length_read (c : Content) (offset count : Nat) :
    (c.read offset count).length = count := by
  simp [read]

theorem getElem?_read (c : Content) (offset count i : Nat) :
    (c.read offset count)[i]? = if i < count then some (c (offset + i)) else none := by
  by_cases hi : i < count <;> simp [read, hi]

/-- Bytes in front of a write and behind it stay as they are. -/
theorem write_outside (c : Content) {offset i : Nat} {bytes : Array UInt8}
    (h : i < offset ∨ offset + bytes.size ≤ i) : c.write offset bytes i = c i := by
  unfold write
  rcases h with h | h
  · rw [if_neg (by omega)]
  · rw [if_pos (by omega), Array.getElem?_eq_none (by omega)]

/-- What is written is read again. -/
theorem read_write (c : Content) (offset : Nat) (bytes : Array UInt8) :
    (c.write offset bytes).read offset bytes.size = bytes.toList := by
  apply List.ext_getElem?
  intro i
  rw [getElem?_read, Array.getElem?_toList]
  by_cases hi : i < bytes.size
  · rw [if_pos hi, write, if_pos (by omega), Nat.add_sub_cancel_left,
      Array.getElem?_eq_getElem hi]
  · rw [if_neg hi, Array.getElem?_eq_none (by omega)]

/-- A write does not change bytes that lie apart from it. -/
theorem read_write_of_disjoint (c : Content) {offset start count : Nat} {bytes : Array UInt8}
    (h : start + count ≤ offset ∨ offset + bytes.size ≤ start) :
    (c.write offset bytes).read start count = c.read start count := by
  apply List.ext_getElem?
  intro i
  rw [getElem?_read, getElem?_read]
  by_cases hi : i < count
  · rw [if_pos hi, if_pos hi, write_outside c (by omega)]
  · rw [if_neg hi, if_neg hi]

/-- Bytes in front of a cleared run and behind it stay as they are. -/
theorem fill_outside (c : Content) {offset count i : Nat}
    (h : i < offset ∨ offset + count ≤ i) : c.fill offset count i = c i := by
  unfold fill
  rw [if_neg (by omega)]

theorem fill_inside (c : Content) {offset count i : Nat}
    (h : offset ≤ i ∧ i < offset + count) : c.fill offset count i = 0 := by
  rw [fill, if_pos h]

end Content

/-- A region with its bytes. -/
structure Block where
  region : Region
  content : Content

/-- The regions made so far, newest first. -/
structure Heap where
  blocks : List Block
  /-- No region reaches beyond this address. -/
  top : Nat

namespace Heap

/-- Memory without regions; all its regions will lie behind an address. -/
def startingAt (address : Nat) : Heap := { blocks := [], top := address }

/-- The bytes between two regions, so that no address belongs to both. -/
def gap : Nat := 64

/-- The largest size of a region, in front of the room that its alignment takes. -/
def sizeLimit : Nat := Nat.pow 2 63

/-- A new region of zero bytes at a multiple of `align`.  Its size and alignment together
must not pass the size limit. -/
def allocate (h : Heap) (length align : Nat) : Except LayoutError (Region × Heap) :=
  if align.isPowerOfTwo then
    if max length 1 + align ≤ sizeLimit then
      let base := (h.top + gap + (align - 1)) / align * align
      let region : Region := { number := h.blocks.length + 1, base, length }
      .ok (region, { blocks := { region, content := fun _ => 0 } :: h.blocks, top := base + length })
    else .error .overflow
  else .error (.notPowerOfTwo align)

/-- The bytes of a region; a region that was never made has zero bytes. -/
def content (h : Heap) (region : Region) : Content :=
  match h.blocks.find? fun block => block.region.number = region.number with
  | some block => block.content
  | none => fun _ => 0

/-- The memory with the bytes of one region changed. -/
def modify (h : Heap) (region : Region) (f : Content → Content) : Heap :=
  { h with blocks := h.blocks.map fun block =>
      if block.region.number = region.number then { block with content := f block.content }
      else block }

/-- Bytes of a region. -/
def read (h : Heap) (region : Region) (offset count : Nat) : List UInt8 :=
  (h.content region).read offset count

/-- The memory with other bytes in a region. -/
def write (h : Heap) (region : Region) (offset : Nat) (bytes : List UInt8) : Heap :=
  let stored := bytes.toArray
  h.modify region fun c => c.write offset stored

/-- The memory with zero bytes in a region. -/
def fill (h : Heap) (region : Region) (offset count : Nat) : Heap :=
  h.modify region fun c => c.fill offset count

/-- The region that holds an address. -/
def locate? (h : Heap) (address : Nat) : Option Region :=
  (h.blocks.find? fun block => block.region.holds address).map (·.region)

/-- An address as a place in a region, or as a number. -/
def addressText (h : Heap) (address : Nat) : String :=
  match h.locate? address with
  | some region => region.offsetText (address - region.base)
  | none => Address.text address

end Heap

end NativeLayout
