import Mathlib.Data.List.Forall2
import Mathlib.Data.List.TakeWhile
import NativeLayout.Command.TypeText
import NativeLayout.Proofs.Text.Blank
import NativeLayout.Proofs.Text.Number

namespace NativeLayout.Command

/-!
# The grammar of field types

A field type is read by a scanner that goes through the text once.  Here is the grammar it decides:
a text in front of a star is a pointer type, and any other field type is a scalar name with lengths
in brackets directly behind one another.

* `readLengths?_eq_some_iff` — the brackets that are read, and the lengths in them.
* `ArrayText` — a scalar name with brackets behind it; `ArrayText.Writes` says which scalar and which
  lengths it writes.
* `readArray?_eq_some_iff` — exactly the texts that write a scalar and lengths are read.
* `readType_eq_ok` — the types that are read: pointers to anything, and arrays of scalars.
* `readType_eq` — what any text is read as, and when it is refused.
-/

/-- The two names of an address mean a pointer, any other scalar name means its scalar. -/
theorem scalarMember_of_ofName? {name : String} {scalar : ScalarType}
    (h : ScalarType.ofName? name = some scalar) :
    scalarMember scalar =
      if name = "ptr" ∨ name = "pointer" then .pointer none else .scalar scalar := by
  have hname := ScalarType.ofName?_eq_some_iff.1 h
  split
  next hptr =>
    have haddress : ScalarType.ofName? name = some .address :=
      ScalarType.ofName?_of_mem_names (by simpa [ScalarType.names] using hptr)
    rw [h] at haddress
    rw [Option.some.inj haddress, scalarMember]
  next hptr =>
    -- an address has no other names than these two
    have hscalar : scalar ≠ .address := by
      rintro rfl
      exact hptr (by simpa [ScalarType.names] using hname)
    rw [scalarMember]
    exact hscalar

/-- Around a scalar or an address all lengths are those that were added. -/
theorem base_scalarMember_arrayOf (scalar : ScalarType) (lengths : List Nat) :
    ((scalarMember scalar).arrayOf lengths).base = scalarMember scalar := by
  rw [MemberType.base_arrayOf]
  cases scalar <;> rfl

/-- The lengths are in the type as they were added. -/
theorem dimensions_scalarMember_arrayOf (scalar : ScalarType) (lengths : List Nat) :
    ((scalarMember scalar).arrayOf lengths).dimensions = lengths := by
  rw [MemberType.dimensions_arrayOf]
  cases scalar <;> exact List.append_nil lengths

/-! ### Lengths in brackets -/

/-- A length in its brackets. -/
def bracketed (inside : List Char) : List Char := '[' :: inside ++ [']']

/-- Behind lengths there is a closing bracket, so no star. -/
theorem getLast?_brackets {ds : List (List Char)} (h : ds ≠ []) :
    (ds.flatMap bracketed).getLast? = some ']' := by
  have hclose : bracketed (ds.getLast h) = ('[' :: ds.getLast h) ++ [']'] := rfl
  rw [← List.dropLast_concat_getLast h, List.flatMap_append, List.flatMap_singleton, hclose,
    ← List.append_assoc, List.getLast?_concat]

/-- What stands between two brackets is the length `n`, blanks aside. -/
def WritesLength (inside : List Char) (n : Nat) : Prop :=
  ']' ∉ inside ∧ Text.WritesWord (Text.trimChars inside) n

variable {before inside rest cs : List Char} {lengths : List Nat} {type : MemberType}

/-- Lengths that are read are words. -/
theorem lt_limit_of_writesLength {ds : List (List Char)} (h : List.Forall₂ WritesLength ds lengths) :
    ∀ n ∈ lengths, n < Word.limit := by
  induction h with
  | nil => simp
  | cons hd _ ih =>
    obtain ⟨-, sign, digits, -, -, -, -, -, hfit⟩ := hd
    exact List.forall_mem_cons.2 ⟨hfit, ih⟩

/-- Behind an open bracket, what stands up to the first closing bracket is a length. -/
theorem readLengths?_open (h : ']' ∉ inside) :
    readLengths? (some before) (inside ++ ']' :: rest) =
      (Text.readWord? (Text.trimChars (before.reverse ++ inside))).bind fun n =>
        (readLengths? none rest).map (n :: ·) := by
  -- the scanner has put some of the characters before the bracket aside
  induction inside generalizing before with
  | nil =>
    rw [List.nil_append, List.append_nil, readLengths?, if_pos rfl]
    cases Text.readWord? (Text.trimChars before.reverse) <;> rfl
  | cons c inside ih =>
    obtain ⟨hc, hrest⟩ := List.ne_and_not_mem_of_not_mem_cons h
    rw [List.cons_append, readLengths?, if_neg (Ne.symm hc), ih hrest, List.reverse_cons,
      List.append_assoc, List.singleton_append]

/-- A bracket that stays open is refused. -/
theorem readLengths?_open_eq_none (h : ']' ∉ cs) : readLengths? (some before) cs = none := by
  induction cs generalizing before with
  | nil => rfl
  | cons c cs ih =>
    obtain ⟨hc, hrest⟩ := List.ne_and_not_mem_of_not_mem_cons h
    rw [readLengths?, if_neg (Ne.symm hc), ih hrest]

/-- The scanner reads a length and goes on behind its bracket. -/
theorem readLengths?_bracketed (h : ']' ∉ inside) :
    readLengths? none (bracketed inside ++ rest) =
      (Text.readWord? (Text.trimChars inside)).bind fun n =>
        (readLengths? none rest).map (n :: ·) := by
  have htext : bracketed inside ++ rest = '[' :: (inside ++ ']' :: rest) := by simp [bracketed]
  rw [htext, readLengths?, if_pos rfl, readLengths?_open h, List.reverse_nil, List.nil_append]

/-- What is read is nothing, or it starts with a length in brackets. -/
theorem readLengths?_cases (h : readLengths? none cs = some lengths) :
    (cs = [] ∧ lengths = []) ∨ ∃ inside rest n ns, cs = bracketed inside ++ rest ∧ lengths = n :: ns ∧
      WritesLength inside n ∧ readLengths? none rest = some ns := by
  cases cs with
  | nil => exact .inl ⟨rfl, (Option.some.inj h).symm⟩
  | cons c cs =>
    right
    have hopen : c = '[' := by
      by_contra hopen
      rw [readLengths?, if_neg hopen] at h
      cases h
    subst hopen
    have hclose : ']' ∈ cs := by
      by_contra hclose
      rw [readLengths?, if_pos rfl, readLengths?_open_eq_none hclose] at h
      cases h
    -- the first closing bracket ends the length
    obtain ⟨inside, rest, rfl, hinside⟩ := List.eq_append_cons_of_mem hclose
    have htext : '[' :: (inside ++ ']' :: rest) = bracketed inside ++ rest := by simp [bracketed]
    rw [htext, readLengths?_bracketed hinside] at h
    obtain ⟨n, hn, h⟩ := Option.bind_eq_some_iff.1 h
    obtain ⟨ns, hns, rfl⟩ := Option.map_eq_some_iff.1 h
    exact ⟨inside, rest, n, ns, htext, rfl, ⟨hinside, Text.readWord?_eq_some_iff.1 hn⟩, hns⟩

/-- Exactly lengths in brackets that directly follow one another are read. -/
theorem readLengths?_eq_some_iff :
    readLengths? none cs = some lengths ↔
      ∃ ds, cs = ds.flatMap bracketed ∧ List.Forall₂ WritesLength ds lengths := by
  constructor
  · intro h
    -- every bracket takes one length off those that were read
    induction lengths generalizing cs with
    | nil =>
      obtain ⟨rfl, -⟩ | ⟨_, _, _, _, -, hcons, -⟩ := readLengths?_cases h
      · exact ⟨[], rfl, .nil⟩
      · cases hcons
    | cons n ns ih =>
      obtain ⟨-, hnil⟩ | ⟨inside, rest, m, ms, rfl, heq, hm, hms⟩ := readLengths?_cases h
      · cases hnil
      · obtain ⟨rfl, rfl⟩ := List.cons.inj heq
        obtain ⟨ds, rfl, hds⟩ := ih hms
        exact ⟨inside :: ds, rfl, .cons hm hds⟩
  · rintro ⟨ds, rfl, hds⟩
    induction hds with
    | nil => rfl
    | cons hd _ ih =>
      obtain ⟨hinside, hn⟩ := hd
      rw [List.flatMap_cons, readLengths?_bracketed hinside, Text.readWord?_eq_some_iff.2 hn, ih]
      rfl

/-! ### A scalar name with lengths behind it -/

/-- A scalar name and what stands between the brackets behind it. -/
structure ArrayText where
  name : List Char
  inside : List (List Char)

namespace ArrayText

/-- The characters of the text. -/
def chars (s : ArrayText) : List Char := s.name ++ s.inside.flatMap bracketed

/-- The text. -/
def text (s : ArrayText) : String := String.ofList s.chars

/-- The name without the blanks around it. -/
def scalarName (s : ArrayText) : String := String.ofList (Text.trimChars s.name)

/-- The name is that of a scalar type, and the lengths stand in the brackets. -/
structure Writes (s : ArrayText) (scalar : ScalarType) (lengths : List Nat) : Prop where
  not_bracket : '[' ∉ s.name
  name : ScalarType.ofName? s.scalarName = some scalar
  lengths : List.Forall₂ WritesLength s.inside lengths

variable {s : ArrayText}

/-- The name ends where the first bracket opens. -/
theorem takeWhile_chars (h : '[' ∉ s.name) :
    s.chars.takeWhile (· ≠ '[') = s.name ∧
      s.chars.dropWhile (· ≠ '[') = s.inside.flatMap bracketed := by
  have hname : ∀ c ∈ s.name, decide (c ≠ '[') = true := by
    intro c hc
    simpa using ne_of_mem_of_not_mem hc h
  rw [chars, List.takeWhile_append_of_pos hname, List.dropWhile_append_of_pos hname]
  cases s.inside with
  | nil => simp
  | cons first others => simp [bracketed]

end ArrayText

/-- Where the lengths are read, the name decides. -/
theorem readArray?_chars {s : ArrayText} (hname : '[' ∉ s.name)
    (hlengths : List.Forall₂ WritesLength s.inside lengths) :
    readArray? s.chars = (ScalarType.ofName? s.scalarName).map fun scalar =>
      (scalarMember scalar).arrayOf lengths := by
  obtain ⟨hfront, hbrackets⟩ := ArrayText.takeWhile_chars hname
  have hread : readLengths? none (s.inside.flatMap bracketed) = some lengths :=
    readLengths?_eq_some_iff.2 ⟨_, rfl, hlengths⟩
  rw [readArray?, hfront, hbrackets, hread, ArrayText.scalarName]
  cases ScalarType.ofName? (String.ofList (Text.trimChars s.name)) <;> rfl

/-- Exactly a scalar name with lengths in brackets behind it is read. -/
theorem readArray?_eq_some_iff :
    readArray? cs = some type ↔ ∃ s : ArrayText, ∃ scalar lengths, s.chars = cs ∧
      s.Writes scalar lengths ∧ type = (scalarMember scalar).arrayOf lengths := by
  constructor
  · intro h
    unfold readArray? at h
    split at h
    next => cases h
    next lengths hlengths =>
      split at h
      next => cases h
      next scalar hscalar =>
        -- the name is what the scanner cut off, and the brackets are what it went on with
        obtain ⟨ds, hds, hlengths⟩ := readLengths?_eq_some_iff.1 hlengths
        refine ⟨⟨cs.takeWhile (· ≠ '['), ds⟩, scalar, lengths, ?_, ⟨?_, hscalar, hlengths⟩, ?_⟩
        · rw [ArrayText.chars, ← hds, List.takeWhile_append_dropWhile]
        · intro hmem
          simpa using List.mem_takeWhile_imp hmem
        · exact (Option.some.inj h).symm
  · rintro ⟨s, scalar, lengths, rfl, hs, rfl⟩
    rw [readArray?_chars hs.not_bracket hs.lengths, hs.name, Option.map_some]

/-! ### Any text -/

/-- A text that ends otherwise is not one with a star at its end. -/
theorem ne_append_star {text : String} (h : text.toList.getLast? ≠ some '*') (q : String) :
    text ≠ q ++ "*" := by
  rintro rfl
  exact h (by simp)

/-- A star at the end decides, whatever is in front of it. -/
theorem readType_star {text q : String} (h : Text.trim text = q ++ "*") :
    readType text = .ok (.pointer (
      if Text.trim q = "" ∨ Text.trim q = "void" then none else some (Text.trim q))) := by
  have hcs : Text.trimChars text.toList = q.toList ++ ['*'] := by
    simpa [Text.trim] using congrArg String.toList h
  simp [readType, hcs, readPointee, Text.trim]

/-- Without a star, a text is read as an array of scalars or refused. -/
theorem readType_not_star {text : String} (h : ∀ q, Text.trim text ≠ q ++ "*") :
    readType text =
      match readArray? (Text.trimChars text.toList) with
      | some type => .ok type
      | none => .error (.unknownType (Text.trim text)) := by
  have hlast : (Text.trimChars text.toList).getLast? ≠ some '*' := by
    intro hlast
    obtain ⟨q, hq⟩ := List.getLast?_eq_some_iff.1 hlast
    apply h (String.ofList q)
    rw [Text.trim, hq, String.ofList_append]
  simp only [readType, if_neg hlast]
  rfl

/-- What is read is a pointer, with the name in front of the star if that is a name, or an array. -/
theorem readType_eq_ok {text : String} (h : readType text = .ok type) :
    (∃ pointee : Option String, type = .pointer pointee ∧
      ∀ name ∈ pointee, name ≠ "" ∧ name ≠ "void" ∧ Text.trim name = name) ∨
    ∃ scalar lengths, type = (scalarMember scalar).arrayOf lengths ∧ ∀ n ∈ lengths, n < Word.limit := by
  -- the star at the end of the text decides between the two forms
  by_cases hstar : ∃ q, Text.trim text = q ++ "*"
  · obtain ⟨q, hq⟩ := hstar
    rw [readType_star hq] at h
    refine .inl ⟨_, (Except.ok.inj h).symm, fun name hname => ?_⟩
    split at hname
    next => cases hname
    next hnamed =>
      obtain rfl := Option.some.inj hname
      exact ⟨fun he => hnamed (.inl he), fun he => hnamed (.inr he), Text.trim_trim q⟩
  · rw [readType_not_star fun q hq => hstar ⟨q, hq⟩] at h
    split at h
    next read hread =>
      obtain ⟨s, scalar, lengths, -, hs, rfl⟩ := readArray?_eq_some_iff.1 hread
      exact .inr ⟨scalar, lengths, (Except.ok.inj h).symm, lt_limit_of_writesLength hs.lengths⟩
    next => cases h

/-- A text in front of a star is a pointer to what the text names, or to anything if it is empty or
`void`.  Any other text is read if it is a scalar name with lengths in brackets behind it, as an array
with these lengths, and is refused as it stands if it is none. -/
theorem readType_eq (text : String) :
    (∀ q, Text.trim text = q ++ "*" →
      readType text = .ok (.pointer (
        if Text.trim q = "" ∨ Text.trim q = "void" then none else some (Text.trim q)))) ∧
    ((∀ q, Text.trim text ≠ q ++ "*") →
      (∀ (s : ArrayText) (scalar : ScalarType) (lengths : List Nat), s.text = Text.trim text →
        s.Writes scalar lengths → ∃ type, readType text = .ok type ∧
          type.base = (if s.scalarName = "ptr" ∨ s.scalarName = "pointer" then .pointer none
            else .scalar scalar) ∧
          type.dimensions = lengths) ∧
      ((∀ (s : ArrayText) (scalar : ScalarType) (lengths : List Nat), s.text = Text.trim text →
        ¬ s.Writes scalar lengths) → readType text = .error (.unknownType (Text.trim text)))) := by
  refine ⟨fun q hq => readType_star hq, fun hstar => ⟨?_, ?_⟩⟩
  · intro s scalar lengths htext hs
    have hread : readArray? (Text.trimChars text.toList) =
        some ((scalarMember scalar).arrayOf lengths) :=
      readArray?_eq_some_iff.2 ⟨s, scalar, lengths, String.ofList_injective htext, hs, rfl⟩
    rw [readType_not_star hstar, hread, ← scalarMember_of_ofName? hs.name]
    -- the innermost type is no array, so the lengths that were wrapped around it are all there are
    refine ⟨_, rfl, ?_, ?_⟩
    · rw [MemberType.base_arrayOf]
      cases scalar <;> rfl
    · rw [MemberType.dimensions_arrayOf]
      cases scalar <;> exact List.append_nil _
  · intro hnone
    rw [readType_not_star hstar]
    cases hread : readArray? (Text.trimChars text.toList) with
    | none => rfl
    | some type =>
      obtain ⟨s, scalar, lengths, hcs, hs, -⟩ := readArray?_eq_some_iff.1 hread
      exact absurd hs (hnone s scalar lengths (congrArg String.ofList hcs))

/-- Blanks and a sign between brackets are read, a character behind the last bracket is not. -/
theorem readType_eq_char : Text.trim " Node * " = "Node " ++ "*" ∧
    readType " Node * " = .ok (.pointer (some "Node")) ∧
    (∀ q, Text.trim " char [ +2 ][8]" ≠ q ++ "*") ∧
    (∃ s : ArrayText, s.text = Text.trim " char [ +2 ][8]" ∧ s.Writes .char [2, 8]) ∧
    (∃ type, readType " char [ +2 ][8]" = .ok type ∧ type.base = .scalar .char ∧
      type.dimensions = [2, 8]) ∧
    (∀ q, Text.trim "i32[1]2" ≠ q ++ "*") ∧
    (∀ (s : ArrayText) (scalar : ScalarType) (lengths : List Nat), s.text = Text.trim "i32[1]2" →
      ¬ s.Writes scalar lengths) ∧
    readType "i32[1]2" = .error (.unknownType "i32[1]2") := by
  have hstar : Text.trim " Node * " = "Node " ++ "*" := by decide
  have hchar : ∀ q, Text.trim " char [ +2 ][8]" ≠ q ++ "*" := ne_append_star (by decide)
  have hone : ∀ q, Text.trim "i32[1]2" ≠ q ++ "*" := ne_append_star (by decide)
  have htwo : WritesLength [' ', '+', '2', ' '] 2 :=
    ⟨by decide, ['+'], ['2'], by decide, .inr rfl, by decide, by simp [Char.isDigit], rfl, by decide⟩
  have height : WritesLength ['8'] 8 :=
    ⟨by decide, [], ['8'], by decide, .inl rfl, by decide, by simp [Char.isDigit], rfl, by decide⟩
  let grid : ArrayText := ⟨['c', 'h', 'a', 'r', ' '], [[' ', '+', '2', ' '], ['8']]⟩
  have hgrid : grid.text = Text.trim " char [ +2 ][8]" := by decide
  have hwrites : grid.Writes .char [2, 8] :=
    ⟨by decide, by decide, .cons htwo (.cons height .nil)⟩
  -- any text that the grammar allows is read, and this one is not
  have hnone : ∀ (s : ArrayText) (scalar : ScalarType) (lengths : List Nat),
      s.text = Text.trim "i32[1]2" → ¬ s.Writes scalar lengths := by
    intro s scalar lengths htext hs
    have hread := readArray?_eq_some_iff.2 ⟨s, scalar, lengths, rfl, hs, rfl⟩
    have hrefused : readArray? (Text.trimChars "i32[1]2".toList) = none := by decide
    rw [String.ofList_injective htext, hrefused] at hread
    cases hread
  refine ⟨hstar, (readType_eq " Node * ").1 _ hstar, hchar, ⟨grid, hgrid, hwrites⟩, ?_, hone, hnone,
    ((readType_eq "i32[1]2").2 hone).2 hnone⟩
  exact ((readType_eq " char [ +2 ][8]").2 hchar).1 grid .char [2, 8] hgrid hwrites

end NativeLayout.Command
