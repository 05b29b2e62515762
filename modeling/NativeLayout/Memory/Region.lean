import NativeLayout.Address

namespace NativeLayout

/-!
# Regions

* `Region` — a stretch of memory, told apart from all others by its number.
* `Region.holds` — the addresses of a region, with the one behind its last byte.
-/

/-- A stretch of memory. -/
structure Region where
  /-- Regions are numbered from 1 in the order they are made. -/
  number : Nat
  /-- The address of the first byte. -/
  base : Nat
  /-- The number of bytes. -/
  length : Nat
  deriving DecidableEq, Repr

namespace Region

/-- Whether an address is in the region or just behind it. -/
def holds (r : Region) (address : Nat) : Bool :=
  r.base ≤ address && address ≤ r.base + r.length

/-- An offset into the region as a reader sees it. -/
def offsetText (r : Region) (offset : Nat) : String := s!"r{r.number}+{offset}"

/-- The region in one line. -/
def describe (r : Region) : String :=
  s!"Buffer \x7b id: RegionId({r.number}), base: {r.offsetText 0}, len: {r.length} \x7d"

end Region

end NativeLayout
