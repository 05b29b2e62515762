import NativeLayout.Text.Hidden

namespace NativeLayout.Text

/-!
# Quoted texts

* `quoted` — a text between quotes, with everything that cannot be seen spelled out.
* `quotedList` — a list of quoted texts.
-/

/-- A character as its number. -/
def spelled (c : Char) : List Char :=
  "\\u\x7b".toList ++ Nat.toDigits 16 c.toNat ++ ['\x7d']

/-- A character between quotes. -/
def quotedChar (c : Char) : List Char :=
  if c = '\x00' then ['\\', '0']
  else if c = '\t' then ['\\', 't']
  else if c = '\r' then ['\\', 'r']
  else if c = '\n' then ['\\', 'n']
  else if c = '"' ∨ c = '\\' then ['\\', c]
  else if isHidden c then spelled c
  else [c]

/-- The text between quotes. -/
def quoted (text : String) : String :=
  "\"" ++ String.ofList (text.toList.flatMap quotedChar) ++ "\""

/-- The texts between quotes and all of them between brackets. -/
def quotedList (texts : List String) : String :=
  "[" ++ ", ".intercalate (texts.map quoted) ++ "]"

end NativeLayout.Text
