import NativeLayout.Shape

namespace NativeLayout

/-!
# Scalar types

The types a machine stores directly, with their width and their spellings.

* `ScalarType.width` — the size in bytes, which is also the alignment.
* `ScalarType.run?` — the shape of a number of values side by side.
* `ScalarType.ofName?` — reads the short names a user types.
-/

/-- A type that is stored directly. -/
inductive ScalarType where
  | i8 | u8 | i16 | u16 | i32 | u32 | i64 | u64 | f32 | f64
  /-- A truth value in one byte. -/
  | bool
  /-- A character in one byte. -/
  | char
  /-- An address. -/
  | address
  deriving DecidableEq, Repr

namespace ScalarType

/-- Every scalar type. -/
def all : List ScalarType :=
  [i8, u8, i16, u16, i32, u32, i64, u64, f32, f64, bool, char, address]

/-- Size in bytes, and alignment. -/
def width : ScalarType → Nat
  | i8 | u8 | bool | char => 1
  | i16 | u16 => 2
  | i32 | u32 | f32 => 4
  | i64 | u64 | f64 | address => 8

/-- The shape of `count` values side by side. -/
def run? (t : ScalarType) (count : Nat) : Except LayoutError Shape :=
  if count = 0 then .error (.missingLength .scalars)
  else
    match Word.mul? t.width count with
    | none => .error .overflow
    | some size => Shape.plain? size t.width

/-- The spelling in C declarations. -/
def cName : ScalarType → String
  | i8 => "int8_t"
  | u8 => "uint8_t"
  | i16 => "int16_t"
  | u16 => "uint16_t"
  | i32 => "int32_t"
  | u32 => "uint32_t"
  | i64 => "int64_t"
  | u64 => "uint64_t"
  | f32 => "float"
  | f64 => "double"
  | bool => "_Bool"
  | char => "char"
  | address => "void*"

/-- The spelling in Rust declarations. -/
def rustName : ScalarType → String
  | i8 => "i8"
  | u8 => "u8"
  | i16 => "i16"
  | u16 => "u16"
  | i32 => "i32"
  | u32 => "u32"
  | i64 => "i64"
  | u64 => "u64"
  | f32 => "f32"
  | f64 => "f64"
  | bool => "bool"
  | char => "core::ffi::c_char"
  | address => "*mut core::ffi::c_void"

/-- The spelling in stored documents. -/
def tag : ScalarType → String
  | i8 => "I8"
  | u8 => "U8"
  | i16 => "I16"
  | u16 => "U16"
  | i32 => "I32"
  | u32 => "U32"
  | i64 => "I64"
  | u64 => "U64"
  | f32 => "F32"
  | f64 => "F64"
  | bool => "Bool"
  | char => "Char"
  | address => "Pointer"

/-- The names a user may type. -/
def names : ScalarType → List String
  | i8 => ["i8", "int8_t", "schar"]
  | u8 => ["u8", "uint8_t", "byte"]
  | i16 => ["i16", "int16_t", "short"]
  | u16 => ["u16", "uint16_t"]
  | i32 => ["i32", "int32_t", "int"]
  | u32 => ["u32", "uint32_t"]
  | i64 => ["i64", "int64_t", "long"]
  | u64 => ["u64", "uint64_t"]
  | f32 => ["f32", "float"]
  | f64 => ["f64", "double"]
  | bool => ["bool"]
  | char => ["char"]
  | address => ["ptr", "pointer"]

/-- The scalar type a user means by `name`. -/
def ofName? (name : String) : Option ScalarType :=
  all.find? fun t => t.names.contains name

/-- The scalar type stored as `tag`. -/
def ofTag? (tag : String) : Option ScalarType :=
  all.find? fun t => t.tag = tag

/-! ### Widths, names and tags -/

/-- No scalar type is missing in the list. -/
theorem mem_all (t : ScalarType) : t ∈ all := by
  cases t <;> decide

/-- Every scalar takes bytes. -/
theorem width_pos (t : ScalarType) : 0 < t.width := by
  cases t <;> decide

/-- Every scalar can be aligned to its width. -/
theorem width_isPowerOfTwo (t : ScalarType) : t.width.isPowerOfTwo := by
  cases t <;> decide

/-- Each of the names of a scalar type means this type. -/
theorem ofName?_of_mem_names {t : ScalarType} {name : String} (h : name ∈ t.names) :
    ofName? name = some t := by
  have hall : ∀ t ∈ all, ∀ name ∈ t.names, ofName? name = some t := by decide
  exact hall t t.mem_all name h

/-- No name stands for two scalar types. -/
theorem ofName?_eq_some_iff {t : ScalarType} {name : String} :
    ofName? name = some t ↔ name ∈ t.names := by
  constructor
  · intro h
    simpa using List.find?_some h
  · exact ofName?_of_mem_names

/-- A scalar type is found by its tag. -/
theorem ofTag?_tag (t : ScalarType) : ofTag? t.tag = some t := by
  cases t <;> decide

/-- What is found by a tag has this tag. -/
theorem tag_of_ofTag? {text : String} {t : ScalarType} (h : ofTag? text = some t) :
    t.tag = text := by
  simpa using List.find?_some h

end ScalarType

end NativeLayout
