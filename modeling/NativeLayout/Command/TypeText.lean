import NativeLayout.Command.CommandError
import NativeLayout.MemberType
import NativeLayout.Text.Blank
import NativeLayout.Text.Number

namespace NativeLayout.Command

/-!
# Field types as a user types them

A field type is the name of a scalar with array lengths in brackets (`i32`, `double[4]`,
`char[2][8]`), or any text in front of a `*`.

* `readType` — reads a field type.
* `shapeOfType` — the shape of a field with that type.
-/

/-- Reads array lengths in brackets.  The first argument holds what stands behind a bracket
that is still open, last character first. -/
def readLengths? : Option (List Char) → List Char → Option (List Nat)
  | none, [] => some []
  | none, c :: rest => if c = '[' then readLengths? (some []) rest else none
  | some _, [] => none
  | some inside, c :: rest =>
    if c = ']' then
      match Text.readWord? (Text.trimChars inside.reverse) with
      | some length => (readLengths? none rest).map (length :: ·)
      | none => none
    else readLengths? (some (c :: inside)) rest

/-- What stands in front of the star of a pointer type: nothing and `void` are no type. -/
def readPointee (cs : List Char) : MemberType :=
  let name := String.ofList (Text.trimChars cs)
  .pointer (if name = "" ∨ name = "void" then none else some name)

/-- The type of a scalar field; an address is a pointer without a type behind it. -/
def scalarMember : ScalarType → MemberType
  | .address => .pointer none
  | type => .scalar type

/-- Reads a scalar name with array lengths behind it. -/
def readArray? (cs : List Char) : Option MemberType :=
  match readLengths? none (cs.dropWhile (· ≠ '[')) with
  | none => none
  | some lengths =>
    match ScalarType.ofName? (String.ofList (Text.trimChars (cs.takeWhile (· ≠ '[')))) with
    | none => none
    | some type => some ((scalarMember type).arrayOf lengths)

/-- Reads a field type. -/
def readType (text : String) : Except CommandError MemberType :=
  let cs := Text.trimChars text.toList
  if cs.getLast? = some '*' then .ok (readPointee cs.dropLast)
  else
    match readArray? cs with
    | some type => .ok type
    | none => .error (.unknownType (String.ofList cs))

/-- The shape of a field with a type a user can type. -/
def shapeOfType (type : MemberType) : Except CommandError Shape :=
  let scalar? : Except CommandError ScalarType :=
    match type.base with
    | .scalar scalar => .ok scalar
    | .pointer _ => .ok .address
    | .named name => .error (.unknownType name)
    | .array .. => .error (.unknownType type.display)
  match scalar? with
  | .error e => .error e
  | .ok scalar =>
    match type.dimensions.foldlM Word.mul? 1 with
    | none => .error (.layout .overflow)
    | some count => ofLayout (scalar.run? count)

end NativeLayout.Command
