namespace NativeLayout.Text

/-!
# Texts as bytes

* `fitting` — the bytes of as many characters as there is room for.
* `decode` — the characters of some bytes, with a replacement for each ill-formed part.
* `untilZero` — the bytes in front of the first zero byte.
-/

/-- The bytes of the longest run of leading characters that needs at most `room` bytes. -/
def fitting (room : Nat) : List Char → List UInt8
  | [] => []
  | c :: rest =>
    let bytes := String.utf8EncodeChar c
    if bytes.length ≤ room then bytes ++ fitting (room - bytes.length) rest else []

/-- The bytes in front of the first zero byte. -/
def untilZero (bytes : List UInt8) : List UInt8 :=
  bytes.takeWhile (· ≠ 0)

/-- What stands for bytes that are no character. -/
def replacement : Char := '\uFFFD'

/-- A character of which some bytes are read: the value so far, the bytes still needed, and
the bounds of the next one. -/
structure Partial where
  value : Nat
  needed : Nat
  low : Nat
  high : Nat
  deriving DecidableEq, Repr

/-- What a byte means at the start of a character: a whole character, a first part, or
neither. -/
def lead (b : Nat) : List Char × Option Partial :=
  if b < 0x80 then ([Char.ofNat b], none)
  else if 0xC2 ≤ b ∧ b ≤ 0xDF then ([], some ⟨b - 0xC0, 1, 0x80, 0xBF⟩)
  else if 0xE0 ≤ b ∧ b ≤ 0xEF then
    ([], some ⟨b - 0xE0, 2, if b = 0xE0 then 0xA0 else 0x80, if b = 0xED then 0x9F else 0xBF⟩)
  else if 0xF0 ≤ b ∧ b ≤ 0xF4 then
    ([], some ⟨b - 0xF0, 3, if b = 0xF0 then 0x90 else 0x80, if b = 0xF4 then 0x8F else 0xBF⟩)
  else ([replacement], none)

/-- What a byte means behind the first part of a character. -/
def extend (p : Partial) (b : Nat) : List Char × Option Partial :=
  if p.low ≤ b ∧ b ≤ p.high then
    let value := 64 * p.value + (b - 0x80)
    if p.needed = 1 then ([Char.ofNat value], none)
    else ([], some ⟨value, p.needed - 1, 0x80, 0xBF⟩)
  else
    let next := lead b
    (replacement :: next.1, next.2)

/-- The characters of some bytes, behind the first part of a character if there is one. -/
def decodeFrom : Option Partial → List UInt8 → List Char
  | none, [] => []
  | some _, [] => [replacement]
  | pending, b :: rest =>
    let next := match pending with
      | none => lead b.toNat
      | some p => extend p b.toNat
    next.1 ++ decodeFrom next.2 rest

/-- The characters of some bytes. -/
def decode (bytes : List UInt8) : List Char := decodeFrom none bytes

end NativeLayout.Text
