namespace NativeLayout

/-!
# Documents

The values that a stored layout is written as: trees of truth values, numbers, texts, lists
and objects.

* `Document.member?` — the value of an object's member.
* `Document.word?` — a number that is a word.
-/

/-- A tree of values. -/
inductive Document where
  | null
  | bool (value : Bool)
  | integer (value : Int)
  /-- A number that is not written as an integer. -/
  | fraction (text : String)
  | text (value : String)
  | list (items : List Document)
  | object (members : List (String × Document))
  deriving Inhabited, Repr

namespace Document

/-- The value of the member with that name, if there is exactly one. -/
def member? (members : List (String × Document)) (name : String) : Option Document :=
  match members.filter fun m => m.1 = name with
  | [(_, value)] => some value
  | _ => none

/-- Numbers are written in decimal. -/
def ofNat (n : Nat) : Document := .integer n

end Document

end NativeLayout
