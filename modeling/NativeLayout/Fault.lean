import NativeLayout.LayoutError

namespace NativeLayout

/-!
# Why an operation on a structure fails

* `Stage` — how far a structure is on its way to storage.
* `Fault` — the causes, with their wording in `Fault.message`.
-/

/-- How far a structure is on its way to storage. -/
inductive Stage where
  /-- Its shape is not known. -/
  | unallocated
  /-- Its shape is known, but it has no storage. -/
  | allocatable
  /-- It has storage. -/
  | allocated
  deriving DecidableEq, Repr

/-- The name of a stage. -/
def Stage.name : Stage → String
  | .unallocated => "unallocated"
  | .allocatable => "allocatable"
  | .allocated => "allocated"

/-- An operation that not every stage allows. -/
inductive Operation where
  | registerField | allocate | claim | placeFields | buildElement
  | getElement | addressElement | collectDefinitions | takeAddress
  | readScalar | writeScalar | readText | writeText | readEnum | writeEnum
  | readPointer | writePointer
  | pop | popStructure | releaseSafePoint
  deriving DecidableEq, Repr

/-- How an error names the operation. -/
def Operation.name : Operation → String
  | .registerField => "register field"
  | .allocate => "allocate"
  | .claim => "claim buffer"
  | .placeFields => "place fields"
  | .buildElement => "build element"
  | .getElement => "get element"
  | .addressElement => "address element"
  | .collectDefinitions => "collect definitions"
  | .takeAddress => "take address"
  | .readScalar => "read scalar"
  | .writeScalar => "write scalar"
  | .readText => "read string"
  | .writeText => "write string"
  | .readEnum => "read enum"
  | .writeEnum => "write enum"
  | .readPointer => "read pointer"
  | .writePointer => "write pointer"
  | .pop => "pop"
  | .popStructure => "pop structure"
  | .releaseSafePoint => "release safe point"

/-- What stands against an operation. -/
inductive Obstacle where
  /-- The structure is at the wrong stage. -/
  | atStage (stage : Stage)
  /-- The record already has a layout. -/
  | hasLayout (typeName : String)
  /-- The child already has storage. -/
  | hasStorage (field : String)
  /-- Nothing is pushed. -/
  | nothingPushed
  /-- Another structure was pushed last. -/
  | notOnTop (typeName : String)
  /-- No safe point is set. -/
  | noSafePoint
  deriving DecidableEq, Repr

/-- The wording of an obstacle. -/
def Obstacle.text : Obstacle → String
  | .atStage stage => "structure is " ++ stage.name
  | .hasLayout typeName => s!"layout of `{typeName}` is already generated"
  | .hasStorage field => s!"child `{field}` already has storage"
  | .nothingPushed => "arena has no outstanding pushes"
  | .notOnTop typeName => s!"`{typeName}` is not the most recent arena push"
  | .noSafePoint => "no safe point is active"

/-- Why an operation on a structure, an array, an arena or a pointer fails. -/
inductive Fault where
  /-- There is no layout. -/
  | layout (cause : LayoutError)
  /-- The operation is not allowed now. -/
  | illegal (operation : Operation) (obstacle : Obstacle)
  /-- There are fewer bytes than asked for. -/
  | capacity (requested available : Nat)
  /-- An index behind the last element. -/
  | outOfRange (index length : Nat)
  /-- A structure or a value of another type. -/
  | typeMismatch (expected found : String)
  deriving DecidableEq, Repr

/-- The wording of each cause. -/
def Fault.message : Fault → String
  | .layout cause => cause.message
  | .illegal operation obstacle => s!"cannot {operation.name}: {obstacle.text}"
  | .capacity requested available =>
    s!"capacity exceeded: requested {requested} bytes, {available} available"
  | .outOfRange index length => s!"index {index} out of range for length {length}"
  | .typeMismatch expected found => s!"type mismatch: expected `{expected}`, found `{found}`"

/-- A layout failure as a fault. -/
def Fault.ofLayout {α : Type} : Except LayoutError α → Except Fault α
  | .ok a => .ok a
  | .error e => .error (.layout e)

end NativeLayout
