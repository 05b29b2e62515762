import NativeLayout.Memory.Bytes
import NativeLayout.Memory.Heap
import NativeLayout.Node.Leaf
import NativeLayout.Node.Status
import NativeLayout.Text.Utf8

namespace NativeLayout.Leaf

/-!
# What leaves hold

The value of a leaf is in the bytes of its placement; a leaf without storage has none.

* `readScalar`, `readScalars`, `writeScalar`, `writeScalars` — numbers.
* `readText`, `writeText` — texts.
* `readEnum`, `writeEnum` — names.
* `readPointer`, `writePointer` — addresses.
-/

/-- Where a leaf is stored, for an operation that needs to know. -/
def storage (operation : Operation) (status : Status Shape) : Except Fault Placement :=
  match status.placement? with
  | some placement => .ok placement
  | none => .error (.illegal operation (.atStage status.stage))

/-- Where the number at an index is stored. -/
def slot (operation : Operation) (status : Status Shape) (count index : Nat) :
    Except Fault Placement :=
  match storage operation status with
  | .error fault => .error fault
  | .ok placement =>
    if index < count then .ok placement else .error (.outOfRange index count)

/-! ### Numbers -/

/-- The number at an index of stored numbers. -/
def loadScalar (heap : Heap) (type : ScalarType) (p : Placement) (index : Nat) : Int :=
  type.decode (heap.read p.region (p.offset + index * type.width) type.width)

/-- The number at an index. -/
def readScalar (heap : Heap) (status : Status Shape) (type : ScalarType) (count index : Nat) :
    Except Fault Int :=
  (slot .readScalar status count index).map fun p => loadScalar heap type p index

/-- All numbers. -/
def readScalars (heap : Heap) (status : Status Shape) (type : ScalarType) (count : Nat) :
    Except Fault (List Int) :=
  if count = 0 then .ok []
  else
    (storage .readScalar status).map fun p => (List.range count).map (loadScalar heap type p)

/-- The memory with another number at an index. -/
def writeScalar (heap : Heap) (status : Status Shape) (type : ScalarType) (count index : Nat)
    (value : Int) : Except Fault Heap :=
  (slot .writeScalar status count index).map fun p =>
    heap.write p.region (p.offset + index * type.width) (type.encode value)

/-- The memory with other numbers from the first one on. -/
def writeScalars (heap : Heap) (status : Status Shape) (type : ScalarType) (count : Nat)
    (values : List Int) : Except Fault Heap :=
  if count < values.length then .error (.outOfRange (values.length - 1) count)
  else if values = [] then .ok heap
  else
    (storage .writeScalar status).map fun p =>
      heap.write p.region p.offset (values.flatMap type.encode)

/-! ### Texts -/

/-- The text in front of the first zero byte. -/
def readText (heap : Heap) (status : Status Shape) (capacity : Nat) : Except Fault String :=
  (storage .readText status).map fun p =>
    String.ofList (Text.decode (Text.untilZero (heap.read p.region p.offset capacity)))

/-- The bytes of a text in a leaf: at most as many as leave room for a zero byte, and zero
bytes behind them. -/
def textBytes (capacity : Nat) (text : String) : List UInt8 :=
  let bytes := Text.fitting (capacity - 1) text.toList
  bytes ++ List.replicate (capacity - bytes.length) 0

/-- The memory with another text. -/
def writeText (heap : Heap) (status : Status Shape) (capacity : Nat) (text : String) :
    Except Fault Heap :=
  (storage .writeText status).map fun p =>
    heap.write p.region p.offset (textBytes capacity text)

/-! ### Names -/

/-- The number that stands for a name. -/
def loadEnum (heap : Heap) (p : Placement) : Int := loadScalar heap .i32 p 0

/-- The name. -/
def readEnum (heap : Heap) (status : Status Shape) (type : EnumType) : Except Fault String :=
  match storage .readEnum status with
  | .error fault => .error fault
  | .ok p =>
    match type.nameOf? (loadEnum heap p) with
    | some name => .ok name
    | none => .error (.typeMismatch type.name s!"discriminant {loadEnum heap p}")

/-- The memory with the number of another name. -/
def writeEnum (heap : Heap) (status : Status Shape) (number : Int) : Except Fault Heap :=
  (storage .writeEnum status).map fun p =>
    heap.write p.region p.offset (ScalarType.i32.encode number)

/-! ### Addresses -/

/-- The address. -/
def readPointer (heap : Heap) (status : Status Shape) : Except Fault Nat :=
  (storage .readPointer status).map fun p =>
    Bytes.toNat (heap.read p.region p.offset ScalarType.address.width)

/-- The memory with another address. -/
def writePointer (heap : Heap) (status : Status Shape) (address : Nat) : Except Fault Heap :=
  (storage .writePointer status).map fun p =>
    heap.write p.region p.offset (Bytes.ofNat ScalarType.address.width address)

end NativeLayout.Leaf
