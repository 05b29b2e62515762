import NativeLayout.Proofs.Command.TypeText
import NativeLayout.Proofs.Text.Blank
import NativeLayout.Source.CDeclaration
import NativeLayout.Source.RustDeclaration

namespace NativeLayout.Command

/-!
# Pointers to pointers

One star is taken off a field type, and what stands in front of it is the name of what is pointed to,
stars and all.  A declaration takes such a name for a scalar or, failing that, for a record.

* `readType_append_star` — what a text with a star behind it is read as.
* `NamesRecord` — the names that a declaration takes for a record.
* `pointer_to_pointer` — how a pointer to a pointer is declared: as a pointer to a record with a star in
  its name.  In C that is the pointer with one star more only behind the name of a record, in Rust it
  never is.
-/

open Source

/-! ### Names with a star -/

/-- A text with a star behind it is a pointer to what the text names. -/
theorem readType_append_star (text : String) :
    readType (text ++ "*") = .ok (.pointer (
      if Text.trim text = "" ∨ Text.trim text = "void" then none else some (Text.trim text))) := by
  rw [readType_star (Text.trim_append_star text), Text.trim_trimLeft]

/-- With another star behind it, what is named ends in a star. -/
theorem readType_append_stars (text : String) :
    readType (text ++ "*" ++ "*") = .ok (.pointer (some (Text.trim (text ++ "*")))) := by
  have hname : ¬ (Text.trim (text ++ "*") = "" ∨ Text.trim (text ++ "*") = "void") := by
    rw [Text.trim_append_star]
    rintro (h | h)
    · exact ne_append_star (by decide) _ h.symm
    · exact ne_append_star (by decide) _ h.symm
  rw [readType_append_star, if_neg hname]

/-- No scalar type has a star in its name. -/
theorem ofName?_append_star (text : String) : ScalarType.ofName? (text ++ "*") = none := by
  rw [Option.eq_none_iff_forall_ne_some]
  intro scalar hscalar
  have hnames : ∀ name ∈ scalar.names, name.toList.getLast? ≠ some '*' := by
    cases scalar <;> decide
  have hmem := ScalarType.ofName?_eq_some_iff.1 hscalar
  exact ne_append_star (hnames _ hmem) text rfl

/-! ### The declarations -/

/-- In front of a star, the name is taken for that of a record. -/
def NamesRecord (name : String) : Prop :=
  name ≠ "" ∧ name ≠ "void" ∧ ScalarType.ofName? name = none

/-- In C a pointer to anything but a scalar is one to a record of that name. -/
theorem c_typeName_record {name : String} (h : ScalarType.ofName? name = none) :
    CDeclaration.typeName (.pointer (some name)) = "struct " ++ name ++ "*" := by
  simp only [CDeclaration.typeName, h]
  rfl

/-- In Rust it is a raw pointer to a type of that name. -/
theorem rust_typeName_record {name : String} (h : ScalarType.ofName? name = none) :
    RustDeclaration.typeName (.pointer (some name)) = "*mut " ++ name := by
  simp only [RustDeclaration.typeName, h]

/-- A pointer to what is no record is spelled with the spelling of a scalar: in C it begins with it, in
Rust it ends with it. -/
theorem typeName_of_not_namesRecord {name : String} (h : ¬ NamesRecord name) :
    ∃ scalar : ScalarType,
      (∃ rest, CDeclaration.typeName (.pointer (if name = "" ∨ name = "void" then none
        else some name)) = scalar.cName ++ rest) ∧
      ∃ front, RustDeclaration.typeName (.pointer (if name = "" ∨ name = "void" then none
        else some name)) = front ++ scalar.rustName := by
  split
  next => exact ⟨.address, ⟨"", rfl⟩, "", rfl⟩
  next hname =>
    obtain ⟨scalar, hscalar⟩ : ∃ scalar, ScalarType.ofName? name = some scalar := by
      rw [← Option.ne_none_iff_exists']
      intro hnone
      exact h ⟨fun he => hname (.inl he), fun he => hname (.inr he), hnone⟩
    refine ⟨scalar, ⟨"*", ?_⟩, "*mut ", ?_⟩
    · simp only [CDeclaration.typeName, hscalar]
    · simp only [RustDeclaration.typeName, hscalar]

/-- No C spelling of a scalar starts like a record. -/
theorem struct_ne_cName (scalar : ScalarType) (text rest : String) :
    "struct " ++ text ≠ scalar.cName ++ rest := by
  intro h
  have hhead := congrArg (fun s => s.toList.head?) h
  cases scalar <;> simp [ScalarType.cName] at hhead

/-- No Rust spelling of a scalar ends in a star. -/
theorem rustName_ne_append_star (scalar : ScalarType) (front text : String) :
    front ++ scalar.rustName ≠ text ++ "*" := by
  apply ne_append_star
  cases scalar <;> simp [ScalarType.rustName]

/-- A spelling that grows by `*mut ` in front does not only grow by a star behind. -/
theorem mut_append_trim_ne (text : String) :
    "*mut " ++ Text.trim text ≠ Text.trimLeft text ++ "*" := by
  intro h
  -- both sides hold what is no blank in the text, with four characters more and with one more
  have hlist : ['*', 'm', 'u', 't', ' '] ++ Text.trimChars text.toList =
      text.toList.dropWhile Text.isBlank ++ ['*'] := by
    simpa [Text.trim, Text.trimLeft] using congrArg String.toList h
  have hcount := congrArg Text.solid hlist
  rw [Text.solid_append, Text.solid_append, Text.solid_trimChars, Text.solid_dropWhile] at hcount
  have hmut : Text.solid ['*', 'm', 'u', 't', ' '] = 4 := by decide
  have hstar : Text.solid ['*'] = 1 := by decide
  omega

/-- No blank in front of the star. -/
theorem trimLeft_eq_trim_iff {text : String} (h : Text.trim text ≠ "") :
    Text.trimLeft text = Text.trim text ↔
      ∀ c, text.toList.getLast? = some c → Text.isBlank c = false := by
  have hne : Text.trimChars text.toList ≠ [] := by
    intro hnil
    exact h (congrArg String.ofList hnil)
  rw [← Text.trimChars_eq_dropWhile_iff hne, Text.trim, Text.trimLeft, String.ofList_inj, eq_comm]

/-- A pointer to a pointer is declared as a pointer to a record with the whole text in front of the last
star as its name.  In C that is the spelling of the text with a star behind it if the text names a
record, with no blank in front of its own star, and only then.  In Rust it is never that of the text with
`*mut ` in front of it. -/
theorem pointer_to_pointer (text : String) :
    ∃ one two, readType (text ++ "*") = .ok one ∧ readType (text ++ "*" ++ "*") = .ok two ∧
      (∀ field, CDeclaration.itemLine (.member ⟨field, two⟩) =
        "    struct " ++ Text.trim (text ++ "*") ++ "* " ++ field ++ ";") ∧
      (∀ field, RustDeclaration.itemLine (.member ⟨field, two⟩) =
        "    pub " ++ RustDeclaration.identifier field ++ ": *mut " ++ Text.trim (text ++ "*") ++
          ",") ∧
      (CDeclaration.typeName two = CDeclaration.typeName one ++ "*" ↔
        NamesRecord (Text.trim text) ∧
          ∀ c, text.toList.getLast? = some c → Text.isBlank c = false) ∧
      RustDeclaration.typeName two ≠ "*mut " ++ RustDeclaration.typeName one := by
  have hstar : ScalarType.ofName? (Text.trim (text ++ "*")) = none := by
    rw [Text.trim_append_star]
    exact ofName?_append_star _
  have hc := c_typeName_record hstar
  have hrust := rust_typeName_record hstar
  refine ⟨_, _, readType_append_star text, readType_append_stars text, ?_, ?_, ?_, ?_⟩
  · intro field
    show "    " ++ (CDeclaration.typeName (.pointer _) ++ " " ++ field ++ "") ++ ";" = _
    rw [hc]
    simp [← String.toList_inj]
  · intro field
    show "    pub " ++ RustDeclaration.identifier field ++ ": " ++ RustDeclaration.typeName _ ++ "," = _
    rw [hrust]
    simp [← String.toList_inj]
  · rw [hc, Text.trim_append_star]
    by_cases hrecord : NamesRecord (Text.trim text)
    · obtain ⟨hne, hvoid, hnone⟩ := hrecord
      rw [if_neg (by simp [hne, hvoid]), c_typeName_record hnone, ← trimLeft_eq_trim_iff hne]
      simp [NamesRecord, hne, hvoid, hnone, String.append_assoc]
    · -- the pointer to a scalar is spelled without `struct`, and the one to it with it
      obtain ⟨scalar, ⟨rest, hspelled⟩, -⟩ := typeName_of_not_namesRecord hrecord
      have hne := struct_ne_cName scalar (Text.trimLeft text ++ "*" ++ "*") (rest ++ "*")
      simp only [hspelled, String.append_assoc] at hne ⊢
      exact iff_of_false hne fun h => hrecord h.1
  · rw [hrust, Text.trim_append_star]
    -- the star of the text stays behind the name, where Rust has it in front
    by_cases hrecord : NamesRecord (Text.trim text)
    · obtain ⟨hne, hvoid, hnone⟩ := hrecord
      rw [if_neg (by simp [hne, hvoid]), rust_typeName_record hnone]
      intro h
      exact mut_append_trim_ne text (by simpa using h.symm)
    · obtain ⟨scalar, -, front, hspelled⟩ := typeName_of_not_namesRecord hrecord
      rw [hspelled, ← String.append_assoc, ← String.append_assoc]
      exact (rustName_ne_append_star scalar _ _).symm

end NativeLayout.Command
