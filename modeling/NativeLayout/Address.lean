import NativeLayout.Word

namespace NativeLayout

/-!
# Addresses

* `Address.text` — an address as a reader sees it.
* `Address.move?` — an address some bytes further on.
-/

namespace Address

/-- The address that points nowhere. -/
def null : Nat := 0

/-- An address as a reader sees it. -/
def text (address : Nat) : String :=
  if address = null then "NULL" else "0x" ++ String.ofList (Nat.toDigits 16 address)

/-- The address `bytes` further on, if it is a word. -/
def move? (address bytes : Nat) : Option Nat := Word.add? address bytes

end Address

end NativeLayout
