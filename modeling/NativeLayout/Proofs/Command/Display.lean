import NativeLayout.Proofs.Command.Pointers
import NativeLayout.Proofs.Source.Items

namespace NativeLayout.Command

/-!
# Printed field types

A type is printed from the inside, the C spelling of the innermost type first and then the lengths up to
the outermost one.  A field type is read with the outermost length first.

* `display_arrayOf` — where the lengths of an array type are printed.
* `readType_cName_lengths` — which C spellings of a scalar are read with lengths behind them.
* `Legible` — the types that are printed with a spelling that is read.
* `readType_display` — what a printed type is read as: the type with its lengths the other way round if
  it is legible, and nothing at all if it is not.
-/

open Source

variable {text : String} {type : MemberType} {scalar : ScalarType} {lengths : List Nat}

/-! ### Lengths in print -/

/-- Lengths are printed one behind the other. -/
theorem lengthsText_append (ms ns : List Nat) :
    lengthsText (ms ++ ns) = lengthsText ms ++ lengthsText ns := by
  rw [lengthsText, List.map_append, String.join_append, lengthsText, lengthsText]

/-- A printed length is its digits in brackets. -/
theorem toList_lengthsText (lengths : List Nat) :
    (lengthsText lengths).toList = (lengths.map (Nat.toDigits 10)).flatMap bracketed := by
  induction lengths with
  | nil => rfl
  | cons n ns ih =>
    have hfirst : (lengthsText [n]).toList = bracketed (Nat.toDigits 10 n) := by
      simp [lengthsText, bracketed, toString]
    rw [← List.singleton_append, lengthsText_append, String.toList_append, hfirst, ih]
    rfl

/-- Lengths are printed from the innermost on, behind the innermost type. -/
theorem display_arrayOf (t : MemberType) (lengths : List Nat) :
    (t.arrayOf lengths).display = t.display ++ lengthsText lengths.reverse := by
  -- on the lengths, the outermost first: it is printed last
  induction lengths with
  | nil => simp [MemberType.arrayOf, lengthsText]
  | cons n ns ih =>
    have hlast : lengthsText [n] = s!"[{n}]" := by simp [lengthsText]
    rw [List.reverse_cons, lengthsText_append, ← String.append_assoc, ← ih, hlast]
    rfl

/-- A single scalar is printed with its C spelling. -/
theorem display_scalarMember (scalar : ScalarType) : (scalarMember scalar).display = scalar.cName := by
  cases scalar <;> rfl

/-! ### Reading print -/

/-- A printed array of scalars, as a scalar name with lengths behind it. -/
def printed (scalar : ScalarType) (lengths : List Nat) : ArrayText where
  name := scalar.cName.toList
  inside := lengths.map (Nat.toDigits 10)

/-- A printed array of scalars has the form that is read. -/
theorem toList_printed (scalar : ScalarType) (lengths : List Nat) :
    (scalar.cName ++ lengthsText lengths).toList = (printed scalar lengths).chars := by
  rw [String.toList_append, toList_lengthsText, ArrayText.chars, printed]

/-- Digits in print are a length, if it is a word. -/
theorem writesLength_toDigits {n : Nat} (h : n < Word.limit) : WritesLength (Nat.toDigits 10 n) n := by
  have hsolid : ∀ c ∈ Nat.toDigits 10 n, Text.isBlank c = false := fun c hc =>
    Text.isBlank_of_isDigit (Text.isDigit_of_mem_toDigits hc)
  have htrim : Text.trimChars (Nat.toDigits 10 n) = Nat.toDigits 10 n :=
    Text.trimChars_eq_self (fun c hc => hsolid c (List.mem_of_head? hc))
      fun c hc => hsolid c (List.mem_of_getLast? hc)
  refine ⟨fun hclose => ?_, ?_⟩
  · exact absurd (Text.isDigit_of_mem_toDigits hclose) (by decide)
  · rw [htrim]
    exact Text.writesWord_toDigits h

/-- Lengths are read as they are printed. -/
theorem forall₂_writesLength_toDigits (h : ∀ n ∈ lengths, n < Word.limit) :
    List.Forall₂ WritesLength (lengths.map (Nat.toDigits 10)) lengths := by
  rw [List.forall₂_map_left_iff, List.forall₂_same]
  exact fun n hn => writesLength_toDigits (h n hn)

/-- No blank is printed. -/
theorem trimChars_printed (scalar : ScalarType) (lengths : List Nat) :
    Text.trimChars (printed scalar lengths).chars = (printed scalar lengths).chars := by
  have hall : scalar.cName.toList.all (fun c => !Text.isBlank c) = true := by cases scalar <;> decide
  have hname : ∀ c ∈ scalar.cName.toList, Text.isBlank c = false := by simpa using hall
  have hfirst : ∀ c, (printed scalar lengths).chars.head? = some c → Text.isBlank c = false := by
    intro c hc
    have hne : scalar.cName.toList ≠ [] := by cases scalar <;> decide
    rw [ArrayText.chars, printed, List.head?_append_of_ne_nil _ hne] at hc
    exact hname c (List.mem_of_head? hc)
  have hlast : ∀ c, (printed scalar lengths).chars.getLast? = some c → Text.isBlank c = false := by
    intro c hc
    rw [ArrayText.chars, printed, List.getLast?_append] at hc
    -- the last character is that of the name, or a closing bracket
    by_cases hlengths : lengths.map (Nat.toDigits 10) = []
    · rw [hlengths] at hc
      exact hname c (List.mem_of_getLast? hc)
    · rw [getLast?_brackets hlengths] at hc
      obtain rfl := Option.some.inj hc
      decide
  exact Text.trimChars_eq_self hfirst hlast

/-- Only the spelling of a single address ends in a star. -/
theorem printed_ne_append_star (h : scalar = .address → lengths ≠ []) (q : String) :
    scalar.cName ++ lengthsText lengths ≠ q ++ "*" := by
  refine ne_append_star ?_ q
  rw [toList_printed, ArrayText.chars, printed, List.getLast?_append]
  by_cases hlengths : lengths = []
  · subst hlengths
    have hscalar : scalar ≠ .address := fun he => h he rfl
    revert hscalar
    cases scalar <;> decide
  · rw [getLast?_brackets (by simpa using hlengths)]
    simp

/-- Of the C spellings, that of a truth value and that of an address are no scalar names. -/
theorem ofName?_cName (scalar : ScalarType) :
    ScalarType.ofName? scalar.cName =
      if scalar = .bool ∨ scalar = .address then none else some scalar := by
  cases scalar <;> decide

/-- What is printed for an array of scalars is read, unless the C spelling is no scalar name. -/
theorem readArray?_printed (hfit : ∀ n ∈ lengths, n < Word.limit) :
    readArray? (printed scalar lengths).chars =
      if scalar = .bool ∨ scalar = .address then none
      else some ((scalarMember scalar).arrayOf lengths) := by
  have hbracket : '[' ∉ scalar.cName.toList := by cases scalar <;> decide
  have htrim : String.ofList (Text.trimChars scalar.cName.toList) = scalar.cName := by
    cases scalar <;> decide
  have hinside : List.Forall₂ WritesLength (printed scalar lengths).inside lengths :=
    forall₂_writesLength_toDigits hfit
  rw [readArray?_chars hbracket hinside, ArrayText.scalarName, printed, htrim, ofName?_cName]
  split <;> rfl

/-- With lengths behind it, the C spelling of a scalar is read if it is a scalar name. -/
theorem readType_cName_lengths (hfit : ∀ n ∈ lengths, n < Word.limit)
    (hstar : scalar = .address → lengths ≠ []) :
    readType (scalar.cName ++ lengthsText lengths) =
      if scalar = .bool ∨ scalar = .address then
        .error (.unknownType (scalar.cName ++ lengthsText lengths))
      else .ok ((scalarMember scalar).arrayOf lengths) := by
  have htrim : Text.trim (scalar.cName ++ lengthsText lengths) =
      scalar.cName ++ lengthsText lengths := by
    rw [Text.trim, toList_printed, trimChars_printed, ← toList_printed, String.ofList_toList]
  -- it is no pointer, as a star stands only behind an address without lengths
  have hnot : ∀ q, Text.trim (scalar.cName ++ lengthsText lengths) ≠ q ++ "*" := by
    rw [htrim]
    exact printed_ne_append_star hstar
  rw [readType_not_star hnot, htrim, toList_printed, trimChars_printed, readArray?_printed hfit]
  by_cases hscalar : scalar = .bool ∨ scalar = .address
  · rw [if_pos hscalar, if_pos hscalar]
  · rw [if_neg hscalar, if_neg hscalar]

/-! ### Types that are read back -/

/-- The innermost type is printed with a spelling that is read.  A pointer is read as a field type, but
not as the innermost type of an array. -/
def Legible (type : MemberType) : Prop :=
  (∃ pointee, type = .pointer pointee) ∨ ∃ scalar, type.base = .scalar scalar ∧ scalar ≠ .bool

/-- Of the arrays of scalars, those of truth values and those of addresses are not legible. -/
theorem legible_arrayOf_iff : Legible ((scalarMember scalar).arrayOf lengths) ↔
    scalar ≠ .bool ∧ (scalar = .address → lengths = []) := by
  unfold Legible
  rw [MemberType.base_arrayOf]
  cases lengths with
  | nil => cases scalar <;> simp [scalarMember, MemberType.arrayOf, MemberType.base]
  | cons n ns => cases scalar <;> simp [scalarMember, MemberType.arrayOf, MemberType.base]

/-- A pointer is read back, since its name was trimmed when it was read. -/
theorem readType_display_pointer {pointee : Option String}
    (h : ∀ name ∈ pointee, name ≠ "" ∧ name ≠ "void" ∧ Text.trim name = name) :
    readType (MemberType.pointer pointee).display = .ok (.pointer pointee) := by
  cases pointee with
  | none => exact readType_append_star "void"
  | some name =>
    obtain ⟨hne, hvoid, htrim⟩ := h name rfl
    rw [MemberType.display, readType_append_star, htrim, if_neg (by simp [hne, hvoid])]

/-- A printed array of scalars has its lengths the other way round, which leaves it legible or not. -/
theorem readType_display_arrayOf (hfit : ∀ n ∈ lengths, n < Word.limit) :
    (Legible ((scalarMember scalar).arrayOf lengths) →
      readType ((scalarMember scalar).arrayOf lengths).display =
        .ok ((scalarMember scalar).arrayOf lengths.reverse)) ∧
    (¬ Legible ((scalarMember scalar).arrayOf lengths) →
      readType ((scalarMember scalar).arrayOf lengths).display =
        .error (.unknownType ((scalarMember scalar).arrayOf lengths).display)) := by
  have hreverse : ∀ n ∈ lengths.reverse, n < Word.limit := fun n hn => hfit n (List.mem_reverse.1 hn)
  rw [legible_arrayOf_iff, display_arrayOf, display_scalarMember]
  by_cases hsingle : scalar = .address ∧ lengths = []
  · -- a single address is printed as a pointer
    obtain ⟨rfl, rfl⟩ := hsingle
    refine ⟨fun _ => readType_append_star "void", fun h => ?_⟩
    exact absurd ⟨by decide, fun _ => rfl⟩ h
  · have hstar : scalar = .address → lengths.reverse ≠ [] := fun haddress hnil =>
      hsingle ⟨haddress, List.reverse_eq_nil_iff.1 hnil⟩
    -- what is printed is a scalar name with the lengths behind it, and is read as such
    rw [readType_cName_lengths hreverse hstar]
    constructor
    · rintro ⟨hbool, haddress⟩
      exact if_neg fun h => h.elim hbool fun h => hsingle ⟨h, haddress h⟩
    · intro h
      refine if_pos ?_
      by_contra hscalar
      exact h ⟨fun hbool => hscalar (.inl hbool), fun haddress => absurd (.inr haddress) hscalar⟩

/-- The lengths of an array type stand around a type without any. -/
theorem arrayOf_base_eq_iff (t : MemberType) (lengths : List Nat) :
    t.base.arrayOf lengths = t ↔ lengths = t.dimensions := by
  have hbase : t.base.dimensions = [] := by
    induction t with
    | array element length ih => exact ih
    | _ => rfl
  constructor
  · intro h
    have hlengths := congrArg MemberType.dimensions h
    rwa [MemberType.dimensions_arrayOf, hbase, List.append_nil] at hlengths
  · rintro rfl
    exact t.arrayOf_base_dimensions

/-- A type that was read and is printed again is read back exactly if it is legible and its lengths are
the same from both ends.  Any other legible type is read with its lengths the other way round, and a type
that is not legible is refused. -/
theorem readType_display (h : readType text = .ok type) :
    (readType type.display = .ok type ↔ Legible type ∧ type.dimensions.reverse = type.dimensions) ∧
    (Legible type → readType type.display = .ok (type.base.arrayOf type.dimensions.reverse)) ∧
    (¬ Legible type → readType type.display = .error (.unknownType type.display)) := by
  have hread : (Legible type →
      readType type.display = .ok (type.base.arrayOf type.dimensions.reverse)) ∧
      (¬ Legible type → readType type.display = .error (.unknownType type.display)) := by
    -- what was read is a pointer, or a scalar with lengths around it
    rcases readType_eq_ok h with ⟨pointee, rfl, hname⟩ | ⟨scalar, lengths, rfl, hfit⟩
    · exact ⟨fun _ => readType_display_pointer hname, fun hnot => absurd (.inl ⟨pointee, rfl⟩) hnot⟩
    · rw [base_scalarMember_arrayOf, dimensions_scalarMember_arrayOf]
      exact readType_display_arrayOf hfit
  refine ⟨?_, hread⟩
  by_cases hlegible : Legible type
  · rw [hread.1 hlegible, Except.ok.injEq, arrayOf_base_eq_iff]
    exact ⟨fun hsame => ⟨hlegible, hsame⟩, And.right⟩
  · rw [hread.2 hlegible]
    exact iff_of_false (fun he => nomatch he) fun he => hlegible he.1

/-- Two rows of eight characters are printed as eight rows of two, truth values under a name that is no
scalar name, and addresses side by side with a star that is not at the end. -/
theorem readType_display_rows :
    (readType "char[2][8]" = .ok (.array (.array (.scalar .char) 8) 2) ∧
      readType "char[8][2]" = .ok (.array (.array (.scalar .char) 2) 8) ∧
      readType (MemberType.array (.array (.scalar .char) 8) 2).display ≠
        .ok (.array (.array (.scalar .char) 8) 2)) ∧
    (readType "bool" = .ok (.scalar .bool) ∧
      readType (MemberType.scalar .bool).display = .error (.unknownType "_Bool")) ∧
    (readType "ptr[3]" = .ok (.array (.pointer none) 3) ∧
      readType (MemberType.array (.pointer none) 3).display = .error (.unknownType "void*[3]")) ∧
    readType "long[4][4]" = .ok (.array (.array (.scalar .i64) 4) 4) ∧
    readType (MemberType.array (.array (.scalar .i64) 4) 4).display =
      .ok (.array (.array (.scalar .i64) 4) 4) := by
  have hrows : readType "char[2][8]" = .ok (.array (.array (.scalar .char) 8) 2) := by decide
  have hbool : readType "bool" = .ok (.scalar .bool) := by decide
  have haddresses : readType "ptr[3]" = .ok (.array (.pointer none) 3) := by decide
  have hsquare : readType "long[4][4]" = .ok (.array (.array (.scalar .i64) 4) 4) := by decide
  refine ⟨⟨hrows, ?_, ?_⟩, ⟨hbool, ?_⟩, ⟨haddresses, ?_⟩, hsquare, ?_⟩
  · exact (readType_display hrows).2.1 (.inr ⟨.char, rfl, by decide⟩)
  · -- read back it is itself only if its lengths are a palindrome
    exact fun h => absurd ((readType_display hrows).1.1 h).2 (by decide)
  · refine (readType_display hbool).2.2 ?_
    rintro (⟨_, h⟩ | ⟨_, h, hne⟩)
    · cases h
    · cases h
      exact hne rfl
  · refine (readType_display haddresses).2.2 ?_
    rintro (⟨_, h⟩ | ⟨_, h, -⟩)
    · cases h
    · cases h
  · exact (readType_display hsquare).1.2 ⟨.inr ⟨.i64, rfl, by decide⟩, rfl⟩

end NativeLayout.Command
