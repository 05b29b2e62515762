import Mathlib.Data.List.DropRight
import NativeLayout.Text.Blank

namespace NativeLayout.Text

/-!
# Texts without the blanks around them

* `trimLeft` — a text without the blanks in front of it.
* `trimChars_concat` — a last character that is no blank ends the trimmed text.
* `trimChars_eq_dropWhile_iff` — when there is no blank behind a text.
* `trimChars_eq_self`, `trim_trim` — a text without blanks at its ends stays as it is.
* `solid` — the number of characters that are no blanks, which trimming keeps (`solid_trimChars`).
-/

/-- Trimming at the end is Mathlib's `List.rdropWhile`, so its lemmas apply. -/
theorem trimChars_eq (cs : List Char) :
    trimChars cs = (cs.dropWhile isBlank).rdropWhile isBlank := rfl

/-- A character that is no blank stops the trimming at the front, at the latest. -/
theorem dropWhile_concat {c : Char} (h : isBlank c = false) (cs : List Char) :
    (cs ++ [c]).dropWhile isBlank = cs.dropWhile isBlank ++ [c] := by
  rw [List.dropWhile_append]
  cases cs.dropWhile isBlank <;> simp [h]

/-- A last character that is no blank stops the trimming at the end. -/
theorem trimChars_concat {c : Char} (h : isBlank c = false) (cs : List Char) :
    trimChars (cs ++ [c]) = cs.dropWhile isBlank ++ [c] := by
  rw [trimChars_eq, dropWhile_concat h, List.rdropWhile_concat_neg]
  simp [h]

/-- Trimming at the front first makes no difference. -/
theorem trimChars_dropWhile (cs : List Char) : trimChars (cs.dropWhile isBlank) = trimChars cs := by
  rw [trimChars_eq, List.dropWhile_idempotent, trimChars_eq]

/-- Nothing is taken off the end of a text that has no blank there. -/
theorem trimChars_eq_dropWhile_iff {cs : List Char} (hne : trimChars cs ≠ []) :
    trimChars cs = cs.dropWhile isBlank ↔ ∀ c, cs.getLast? = some c → isBlank c = false := by
  have hleft : cs.dropWhile isBlank ≠ [] := by
    intro hnil
    rw [trimChars_eq, hnil] at hne
    exact hne rfl
  have hlast : cs.getLast? = some ((cs.dropWhile isBlank).getLast hleft) := by
    rw [List.IsSuffix.getLast (List.dropWhile_suffix isBlank) hleft, List.getLast?_eq_getLast_of_ne_nil]
  rw [trimChars_eq, List.rdropWhile_eq_self_iff, hlast]
  simp [hleft]

/-- A text that neither begins nor ends with a blank stays as it is. -/
theorem trimChars_eq_self {cs : List Char} (hhead : ∀ c, cs.head? = some c → isBlank c = false)
    (hlast : ∀ c, cs.getLast? = some c → isBlank c = false) : trimChars cs = cs := by
  have hleft : cs.dropWhile isBlank = cs := by
    cases cs with
    | nil => rfl
    | cons c cs => exact List.dropWhile_cons_of_neg (by simp [hhead c rfl])
  rw [trimChars_eq, hleft, List.rdropWhile_eq_self_iff]
  intro hne
  simp [hlast _ (List.getLast?_eq_getLast_of_ne_nil hne)]

/-- A trimmed text does not begin with a blank. -/
theorem isBlank_of_head?_trimChars {cs : List Char} {c : Char} (h : (trimChars cs).head? = some c) :
    isBlank c = false := by
  -- what is taken off the end leaves the first character alone
  obtain ⟨rest, hrest⟩ := List.rdropWhile_prefix isBlank (cs.dropWhile isBlank)
  obtain ⟨others, hothers⟩ := List.head?_eq_some_iff.1 h
  rw [trimChars_eq] at hothers
  have hnot := List.head?_dropWhile_not isBlank cs
  rwa [← hrest, hothers] at hnot

/-- A trimmed text does not end with a blank. -/
theorem isBlank_of_getLast?_trimChars {cs : List Char} {c : Char}
    (h : (trimChars cs).getLast? = some c) : isBlank c = false := by
  obtain ⟨front, hfront⟩ := List.getLast?_eq_some_iff.1 h
  have hne : (cs.dropWhile isBlank).rdropWhile isBlank ≠ [] := by
    rw [← trimChars_eq, hfront]
    simp
  have hnot := List.rdropWhile_last_not isBlank (cs.dropWhile isBlank) hne
  rw [List.getLast?_eq_getLast_of_ne_nil (trimChars_eq cs ▸ hne)] at h
  simpa [← trimChars_eq, Option.some.inj h] using hnot

/-- Trimming once is enough. -/
theorem trim_trim (text : String) : trim (trim text) = trim text := by
  rw [trim, trim, String.toList_ofList, trimChars_eq_self]
  · exact fun _ => isBlank_of_head?_trimChars
  · exact fun _ => isBlank_of_getLast?_trimChars

/-- No digit is a blank, so a text of digits is trimmed already. -/
theorem isBlank_of_isDigit {c : Char} (h : c.isDigit) : isBlank c = false := by
  have hrange : 48 ≤ c.toNat ∧ c.toNat ≤ 57 := Char.isDigit_iff_toNat.1 h
  simp only [isBlank, Bool.or_eq_false_iff, Bool.and_eq_false_imp, beq_eq_false_iff_ne,
    decide_eq_true_eq, decide_eq_false_iff_not]
  omega

/-- The number of characters that are no blanks. -/
def solid (cs : List Char) : Nat := cs.countP fun c => !isBlank c

/-- The characters that are no blanks are counted part by part. -/
theorem solid_append (cs ds : List Char) : solid (cs ++ ds) = solid cs + solid ds :=
  List.countP_append

/-- Reading a text backwards does not change their number. -/
theorem solid_reverse (cs : List Char) : solid cs.reverse = solid cs :=
  List.countP_reverse

/-- Taking blanks off the front does not change their number. -/
theorem solid_dropWhile (cs : List Char) : solid (cs.dropWhile isBlank) = solid cs := by
  induction cs with
  | nil => rfl
  | cons c cs ih =>
    rw [List.dropWhile_cons]
    split
    next hblank => simpa [solid, hblank] using ih
    next => rfl

/-- Trimming keeps every character that is no blank. -/
theorem solid_trimChars (cs : List Char) : solid (trimChars cs) = solid cs := by
  rw [trimChars, solid_reverse, solid_dropWhile, solid_reverse, solid_dropWhile]

/-! ### Texts that end in a star -/

/-- The text without the blanks in front of it. -/
def trimLeft (text : String) : String := String.ofList (text.toList.dropWhile isBlank)

/-- What `trim` takes off the front may be taken off before. -/
theorem trim_trimLeft (text : String) : trim (trimLeft text) = trim text := by
  rw [trim, trimLeft, String.toList_ofList, trimChars_dropWhile, trim]

/-- A star at the end protects the blanks in front of it. -/
theorem trim_append_star (text : String) : trim (text ++ "*") = trimLeft text ++ "*" := by
  have hlist : (text ++ "*").toList = text.toList ++ ['*'] := by simp
  rw [trim, hlist, trimChars_concat (by decide), String.ofList_append, trimLeft]

end NativeLayout.Text
