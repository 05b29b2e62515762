import NativeLayout.ScalarType

namespace NativeLayout

/-!
# Member types and record definitions

What a declaration says about a record: its name and the type of each member.

* `MemberType` — scalars, named records, pointers and arrays of these.
* `MemberType.base`, `MemberType.dimensions` — the innermost type of an array and its lengths;
  `MemberType.arrayOf` puts them together again (`arrayOf_base_dimensions`).
* `MemberType.display` — the type as a reader sees it.
* `RecordDef` — a record's name and members, in layout order.
-/

/-- How the type of a member is spelled. -/
inductive MemberType where
  | scalar (type : ScalarType)
  | named (name : String)
  /-- A pointer, to a named type if one is given. -/
  | pointer (pointee : Option String)
  | array (element : MemberType) (length : Nat)
  deriving DecidableEq, Repr

namespace MemberType

/-- `count` values of a type: the type itself for one value, else an array. -/
def repeated (t : MemberType) (count : Nat) : MemberType :=
  if count = 1 then t else .array t count

/-- The innermost type that is no array. -/
def base : MemberType → MemberType
  | .array element _ => element.base
  | t => t

/-- The array lengths, outermost first. -/
def dimensions : MemberType → List Nat
  | .array element length => length :: element.dimensions
  | _ => []

/-- `t` in an array for every length, the first length outermost. -/
def arrayOf (t : MemberType) (lengths : List Nat) : MemberType :=
  lengths.foldr (fun length element => .array element length) t

/-- The type as a reader sees it. -/
def display : MemberType → String
  | .scalar type => type.cName
  | .named name => name
  | .pointer (some name) => name ++ "*"
  | .pointer none => "void*"
  | .array element length => element.display ++ s!"[{length}]"

/-! ### Splitting an array type -/

/-- A type is its base with its dimensions around it. -/
theorem arrayOf_base_dimensions (t : MemberType) : t.base.arrayOf t.dimensions = t := by
  induction t with
  | array element length ih => simpa [base, dimensions, arrayOf] using ih
  | _ => rfl

/-- New dimensions are the outermost ones. -/
theorem dimensions_arrayOf (t : MemberType) (lengths : List Nat) :
    (t.arrayOf lengths).dimensions = lengths ++ t.dimensions := by
  induction lengths with
  | nil => rfl
  | cons n ns ih => simpa [arrayOf, dimensions] using ih

theorem base_arrayOf (t : MemberType) (lengths : List Nat) :
    (t.arrayOf lengths).base = t.base := by
  induction lengths with
  | nil => rfl
  | cons n ns ih => simpa [arrayOf, base] using ih

end MemberType

/-- One member of a record. -/
structure Member where
  name : String
  type : MemberType
  deriving DecidableEq, Repr

/-- A record with its members in layout order. -/
structure RecordDef where
  name : String
  members : List Member
  deriving DecidableEq, Repr

end NativeLayout
