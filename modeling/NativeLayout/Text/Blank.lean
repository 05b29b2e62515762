namespace NativeLayout.Text

/-!
# Blanks and letter case

The blanks that may surround a text that a user types, and the folding of its letters.

* `isBlank` — the characters with the Unicode property `White_Space`.
* `trim` — a text without the blanks around it.
* `lowercase` — a text with its letters `A` to `Z` in lower case.
-/

/-- Whether a character has the Unicode property `White_Space`. -/
def isBlank (c : Char) : Bool :=
  let n := c.toNat
  (0x09 ≤ n && n ≤ 0x0D) || n == 0x20 || n == 0x85 || n == 0xA0 || n == 0x1680 ||
    (0x2000 ≤ n && n ≤ 0x200A) || n == 0x2028 || n == 0x2029 || n == 0x202F ||
    n == 0x205F || n == 0x3000

/-- The characters without the blanks around them. -/
def trimChars (cs : List Char) : List Char :=
  ((cs.dropWhile isBlank).reverse.dropWhile isBlank).reverse

/-- The text without the blanks around it. -/
def trim (text : String) : String :=
  String.ofList (trimChars text.toList)

/-- The text with its letters `A` to `Z` in lower case. -/
def lowercase (text : String) : String :=
  String.ofList (text.toList.map Char.toLower)

/-- The word a user typed, blanks and letter case aside. -/
def word (text : String) : String :=
  lowercase (trim text)

end NativeLayout.Text
