import NativeLayout.Fault
import NativeLayout.Memory.Region
import NativeLayout.Shape

namespace NativeLayout

/-!
# The way to storage

* `Placement` — where a structure is stored.
* `Status` — the stage of a structure, with what is known from that stage on.
-/

/-- Who provided the storage of a structure. -/
inductive Ownership where
  /-- The structure itself. -/
  | root
  /-- A record, an array or an arena around it. -/
  | claimed
  deriving DecidableEq, Repr

/-- How the text of a structure names it. -/
def Ownership.name : Ownership → String
  | .root => "Root"
  | .claimed => "Claimed"

/-- Where a structure is stored. -/
structure Placement where
  region : Region
  /-- The offset of its first byte in the region. -/
  offset : Nat
  ownership : Ownership
  deriving DecidableEq, Repr

/-- The address of the first byte. -/
def Placement.address (p : Placement) : Nat := p.region.base + p.offset

/-- The stage of a structure.  Its plan is known once it is resolved, its placement once it
has storage. -/
inductive Status (α : Type) where
  | unallocated
  | allocatable (plan : α)
  | allocated (plan : α) (placement : Placement)
  deriving DecidableEq, Repr

namespace Status

variable {α β : Type}

/-- The stage alone. -/
def stage : Status α → Stage
  | .unallocated => .unallocated
  | .allocatable _ => .allocatable
  | .allocated .. => .allocated

/-- What is known since the structure is resolved. -/
def plan? : Status α → Option α
  | .unallocated => none
  | .allocatable plan => some plan
  | .allocated plan _ => some plan

/-- Where the structure is stored. -/
def placement? : Status α → Option Placement
  | .allocated _ placement => some placement
  | _ => none

/-- The status with less known about the structure. -/
def map (f : α → β) : Status α → Status β
  | .unallocated => .unallocated
  | .allocatable plan => .allocatable (f plan)
  | .allocated plan placement => .allocated (f plan) placement

/-- The status once the structure is stored; only an allocatable one gets storage. -/
def place (placement : Placement) : Status α → Status α
  | .allocatable plan => .allocated plan placement
  | s => s

/-- How far a structure is does not depend on what its plan is made of. -/
@[simp] theorem stage_map (f : α → β) (s : Status α) : (s.map f).stage = s.stage := by
  cases s <;> rfl

/-- The plan of a status that is translated is the translated plan. -/
@[simp] theorem plan?_map (f : α → β) (s : Status α) : (s.map f).plan? = s.plan?.map f := by
  cases s <;> rfl

/-- A place is not translated. -/
@[simp] theorem placement?_map (f : α → β) (s : Status α) :
    (s.map f).placement? = s.placement? := by
  cases s <;> rfl

/-- A plan is known from the moment a structure is resolved. -/
theorem plan?_isSome_iff {s : Status α} : s.plan?.isSome ↔ s.stage ≠ .unallocated := by
  cases s <;> simp [plan?, stage]

/-- A place is known from the moment a structure is stored. -/
theorem placement?_isSome_iff {s : Status α} : s.placement?.isSome ↔ s.stage = .allocated := by
  cases s <;> simp [placement?, stage]

end Status

end NativeLayout
