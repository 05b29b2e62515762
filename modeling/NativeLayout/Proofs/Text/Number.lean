import Mathlib.Data.List.Induction
import Mathlib.Data.Nat.Digits.Defs
import NativeLayout.Text.Number

namespace NativeLayout.Text

/-!
# What a number in a text stands for

* `place` — the value of decimal digits by their places, as `Nat.ofDigits` has it.
* `decimal_eq_place` — the reader, which goes from the first digit to the last, finds that value.
* `WritesWord` — the texts that are a word: digits behind an optional `+`, with a value that fits.
* `readWord?_eq_some_iff` — these texts are read, with that value, and no others are.
* `writesWord_toDigits` — the digits that a word is printed with are among them.
-/

/-- The value of decimal digits, most significant first, by their places. -/
def place (digits : List Char) : Nat :=
  Nat.ofDigits 10 (digits.reverse.map fun c => c.toNat - '0'.toNat)

/-- A digit at the end, as the reader takes it. -/
theorem decimal_append (digits : List Char) (c : Char) :
    decimal (digits ++ [c]) = 10 * decimal digits + (c.toNat - '0'.toNat) := by
  simp [decimal, List.foldl_append]

/-- A digit at the end, as places count it. -/
theorem place_append (digits : List Char) (c : Char) :
    place (digits ++ [c]) = 10 * place digits + (c.toNat - '0'.toNat) := by
  simp [place, Nat.ofDigits_cons, Nat.add_comm]

/-- The number that is read is the one that the digits mean. -/
theorem decimal_eq_place (digits : List Char) : decimal digits = place digits := by
  -- the reader adds a digit behind those it has, so the induction is from the last digit
  induction digits using List.reverseRecOn with
  | nil => rfl
  | append_singleton digits c ih => rw [decimal_append, place_append, ih]

/-- The text writes the word `n`: one or more decimal digits of that value behind an optional
`+`. -/
def WritesWord (cs : List Char) (n : Nat) : Prop :=
  ∃ sign digits, cs = sign ++ digits ∧ (sign = [] ∨ sign = ['+']) ∧ digits ≠ [] ∧
    (∀ c ∈ digits, c.isDigit) ∧ place digits = n ∧ n < Word.limit

/-! ### The sign -/

/-- The text behind its sign. -/
def unsigned (cs : List Char) : List Char :=
  if cs.head? = some '+' then cs.tail else cs

/-- A text is a plus sign or nothing, and the rest. -/
theorem exists_sign (cs : List Char) :
    ∃ sign, (sign = [] ∨ sign = ['+']) ∧ cs = sign ++ unsigned cs := by
  unfold unsigned
  split
  next hsign =>
    obtain ⟨rest, rfl⟩ := List.head?_eq_some_iff.1 hsign
    exact ⟨['+'], .inr rfl, rfl⟩
  next => exact ⟨[], .inl rfl, rfl⟩

/-- The sign is not read as a digit. -/
theorem unsigned_append {sign digits : List Char} (hsign : sign = [] ∨ sign = ['+'])
    (hall : ∀ c ∈ digits, c.isDigit) : unsigned (sign ++ digits) = digits := by
  rcases hsign with rfl | rfl
  · -- digits have no sign of their own
    have hhead : digits.head? ≠ some '+' := by
      intro h
      have hdigit : Char.isDigit '+' := hall '+' (List.mem_of_head? h)
      exact absurd hdigit (by decide)
    exact if_neg hhead
  · rfl

/-- Exactly the texts that write a word are read as one. -/
theorem readWord?_eq_some_iff {cs : List Char} {n : Nat} :
    readWord? cs = some n ↔ WritesWord cs n := by
  have hread : readWord? cs = some n ↔
      (unsigned cs ≠ [] ∧ (unsigned cs).all Char.isDigit ∧ decimal (unsigned cs) < Word.limit) ∧
        decimal (unsigned cs) = n := by
    simp [readWord?, unsigned]
  -- the fold over the digits is their value by places
  rw [hread, decimal_eq_place, List.all_eq_true]
  constructor
  · rintro ⟨⟨hne, hall, hfit⟩, rfl⟩
    obtain ⟨sign, hsign, hcs⟩ := exists_sign cs
    exact ⟨sign, unsigned cs, hcs, hsign, hne, hall, rfl, hfit⟩
  · rintro ⟨sign, digits, rfl, hsign, hne, hall, rfl, hfit⟩
    rw [unsigned_append hsign hall]
    exact ⟨⟨hne, hall, hfit⟩, rfl⟩

/-! ### Printed words -/

/-- Numbers are printed with digits only. -/
theorem isDigit_of_mem_toDigits {n : Nat} {c : Char} (h : c ∈ Nat.toDigits 10 n) : c.isDigit :=
  Nat.isDigit_of_mem_toDigits (by decide) (by decide) h

/-- A word is read back as it is printed. -/
theorem writesWord_toDigits {n : Nat} (h : n < Word.limit) : WritesWord (Nat.toDigits 10 n) n := by
  have hplace : place (Nat.toDigits 10 n) = n := by
    rw [← decimal_eq_place]
    exact Nat.ofDigitChars_ten_toDigits
  exact ⟨[], _, rfl, .inl rfl, Nat.toDigits_ne_nil, fun _ hc => isDigit_of_mem_toDigits hc, hplace, h⟩

end NativeLayout.Text
