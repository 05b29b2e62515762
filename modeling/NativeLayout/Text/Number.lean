import NativeLayout.Word

namespace NativeLayout.Text

/-!
# Numbers in texts

* `readWord?` — a length as a user types it.
* `padLeft` — a text moved to the right edge of a column.
-/

/-- The value of decimal digits, most significant first. -/
def decimal (digits : List Char) : Nat :=
  digits.foldl (fun value c => 10 * value + (c.toNat - '0'.toNat)) 0

/-- The word written as a number: one or more decimal digits behind an optional `+`. -/
def readWord? (cs : List Char) : Option Nat :=
  let digits := if cs.head? = some '+' then cs.tail else cs
  if digits ≠ [] ∧ digits.all Char.isDigit ∧ decimal digits < Word.limit then
    some (decimal digits)
  else none

/-- The text with blanks in front until it has `width` characters. -/
def padLeft (width : Nat) (text : String) : String :=
  String.ofList (List.replicate (width - text.length) ' ') ++ text

end NativeLayout.Text
