import NativeLayout.Command.Declare
import NativeLayout.Proofs.Command.Display
import NativeLayout.Proofs.Command.Shapes
import NativeLayout.Proofs.Source.Names

namespace NativeLayout.Command

/-!
# Fields of a declared record

A field argument is read to a member and a shape.  The members go into the declaration, and the layout
is computed from the shapes.

* `readField_eq_ok_iff` — what an argument is read to: the name in front of its first colon, the type
  behind it, and the shape of that type.
* `declareRecord_eq_ok` — a record that is declared has a member for every argument, each once and in
  the order of the arguments.
* `DeclaresArray` — an array of scalars with its lengths in the order of the argument: in C behind the
  name, in Rust around the scalar from the last length to the first.
* `declareRecord_arrays` — so every argument with such a type is declared.
-/

open Source

/-! ### Field arguments -/

/-- A computation that succeeds succeeded step by step. -/
theorem bind_eq_ok_iff {α β ε : Type} {x : Except ε α} {f : α → Except ε β} {b : β} :
    x >>= f = .ok b ↔ ∃ a, x = .ok a ∧ f a = .ok b := by
  cases x with
  | error e => exact iff_of_false (fun h => nomatch h) fun ⟨_, h, _⟩ => nomatch h
  | ok a => exact ⟨fun h => ⟨a, rfl, h⟩, fun ⟨_, ha, h⟩ => by rwa [Except.ok.inj ha]⟩

/-- Where all items are read, each of them was. -/
theorem forall₂_of_mapM {α β ε : Type} {f : α → Except ε β} {xs : List α} {ys : List β}
    (h : xs.mapM f = .ok ys) : List.Forall₂ (fun x y => f x = .ok y) xs ys := by
  induction xs generalizing ys with
  | nil =>
    cases h
    exact .nil
  | cons x xs ih =>
    rw [List.mapM_cons, bind_eq_ok_iff] at h
    obtain ⟨y, hy, h⟩ := h
    obtain ⟨rest, hrest, h⟩ := bind_eq_ok_iff.1 h
    cases h
    exact .cons hy (ih hrest)

/-- The first colon of an argument stands between name and type. -/
theorem readField_eq_ok_iff {field typeText : String} (h : ':' ∉ field.toList) {m : Member} {s : Shape} :
    readField (field ++ ":" ++ typeText) = .ok (m, s) ↔
      m.name = Text.trim field ∧ readType typeText = .ok m.type ∧ shapeOfType m.type = .ok s := by
  have hname : ∀ c ∈ field.toList, decide (c ≠ ':') = true := by
    intro c hc
    simpa using ne_of_mem_of_not_mem hc h
  have hchars : (field ++ ":" ++ typeText).toList = field.toList ++ ':' :: typeText.toList := by simp
  have hfront : (field ++ ":" ++ typeText).toList.takeWhile (· ≠ ':') = field.toList := by
    rw [hchars, List.takeWhile_append_of_pos hname]
    simp
  have hbehind : (field ++ ":" ++ typeText).toList.dropWhile (· ≠ ':') = ':' :: typeText.toList := by
    rw [hchars, List.dropWhile_append_of_pos hname]
    simp
  -- the argument taken apart, the rest is three results in a row
  have hread : readField (field ++ ":" ++ typeText) =
      readType typeText >>= fun type => shapeOfType type >>= fun shape =>
        .ok (⟨Text.trim field, type⟩, shape) := by
    unfold readField
    simp only [hfront, hbehind, String.ofList_toList]
    rfl
  rw [hread, bind_eq_ok_iff]
  constructor
  · rintro ⟨type, htype, h⟩
    obtain ⟨shape, hshape, h⟩ := bind_eq_ok_iff.1 h
    cases h
    exact ⟨rfl, htype, hshape⟩
  · obtain ⟨name, type⟩ := m
    rintro ⟨rfl, htype, hshape⟩
    exact ⟨type, htype, bind_eq_ok_iff.2 ⟨s, hshape, rfl⟩⟩

/-! ### Declarations -/

variable {language : Language} {name : String} {options : Options} {texts : List String} {out : String}

/-- A success is the same however faults are told. -/
theorem ofSource_eq_ok_iff {α : Type} {r : Except SourceError α} {a : α} :
    ofSource r = .ok a ↔ r = .ok a := by
  cases r <;> simp [ofSource]

/-- A record that is declared has a member for every argument, and its layout is that of their shapes. -/
theorem declareRecord_eq_ok (h : declareRecord language name options texts = .ok out) :
    ∃ fields layout items, List.Forall₂ (fun text field => readField text = .ok field) texts fields ∧
      options.abi.layout options.packed RecordLayout.anonymous (fields.map (·.2)) = .ok layout ∧
      Complete ⟨name, fields.map (·.1)⟩ layout items ∧
      out = language.prelude ++ declaration language ⟨name, fields.map (·.1)⟩ layout items := by
  unfold declareRecord at h
  split at h
  next => cases h
  next hne =>
    obtain ⟨fields, hfields, h⟩ := bind_eq_ok_iff.1 h
    obtain ⟨layout, hlayout, h⟩ := bind_eq_ok_iff.1 h
    obtain ⟨declared, hdeclared, h⟩ := bind_eq_ok_iff.1 h
    cases h
    rw [ofLayout_eq_ok_iff] at hlayout
    -- a member and an offset for each argument, so no member is left out
    have hlength : (fields.map (·.1)).length = layout.offsets.length := by
      have hshapes := (RecordLayout.length_of_compute options.abi.cap_isPowerOfTwo hlayout).1
      rw [hshapes, List.length_map, List.length_map]
    obtain ⟨items, hitems, hrender⟩ :=
      render_of_compute (d := ⟨name, fields.map (·.1)⟩) language hlayout hlength
    rw [ofSource_eq_ok_iff, hrender] at hdeclared
    exact ⟨fields, layout, items, forall₂_of_mapM hfields, hlayout, hitems,
      by rw [Except.ok.inj hdeclared]⟩

/-! ### Arrays of scalars -/

variable {s : ArrayText} {scalar : ScalarType} {lengths : List Nat}

/-- No scalar name ends in a star, and no lengths do. -/
theorem ArrayText.Writes.ne_append_star (h : s.Writes scalar lengths) (q : String) :
    s.text ≠ q ++ "*" := by
  intro heq
  have hchars : s.chars = q.toList ++ ['*'] := by
    simpa [ArrayText.text] using congrArg String.toList heq
  by_cases hinside : s.inside = []
  · have hname : s.name = q.toList ++ ['*'] := by
      rw [← hchars, ArrayText.chars, hinside, List.flatMap_nil, List.append_nil]
    have hscalar := h.name
    rw [ArrayText.scalarName, hname, Text.trimChars_concat (by decide), String.ofList_append] at hscalar
    have hnone := ofName?_append_star (String.ofList (q.toList.dropWhile Text.isBlank))
    exact absurd (hscalar.symm.trans hnone) (by simp)
  · -- behind lengths the last character is a closing bracket
    have hlast := congrArg List.getLast? hchars
    rw [ArrayText.chars, List.getLast?_append, getLast?_brackets hinside] at hlast
    simp at hlast

/-- A text that writes an array of scalars is read as that array. -/
theorem readType_of_writes {typeText : String} (htext : s.text = Text.trim typeText)
    (h : s.Writes scalar lengths) :
    readType typeText = .ok ((scalarMember scalar).arrayOf lengths) := by
  have hchars : s.chars = Text.trimChars typeText.toList := String.ofList_injective htext
  have hstar : ∀ q, Text.trim typeText ≠ q ++ "*" := fun q => htext ▸ h.ne_append_star q
  rw [readType_not_star hstar, ← hchars, readArray?_chars h.not_bracket h.lengths, h.name]
  rfl

/-- A type inside brackets for every length, the first length in the outermost ones. -/
def nested (element : String) (lengths : List Nat) : String :=
  lengths.foldr (fun n inside => s!"[{inside}; {n}]") element

/-- In Rust the lengths are nested around the innermost type, the outermost one outside. -/
theorem rust_typeName_arrayOf (t : MemberType) (lengths : List Nat) :
    RustDeclaration.typeName (t.arrayOf lengths) = nested (RustDeclaration.typeName t) lengths := by
  induction lengths with
  | nil => rfl
  | cons n ns ih =>
    rw [nested, List.foldr_cons, ← nested, ← ih]
    rfl

/-- The member is declared as an array of scalars with these lengths, and its field has the shape of all
these scalars side by side. -/
structure DeclaresArray (name : String) (scalar : ScalarType) (lengths : List Nat) (m : Member)
    (shape : Shape) : Prop where
  c : itemLine .c (.member m) =
    "    " ++ scalar.cName ++ " " ++ name ++ lengthsText lengths ++ ";"
  rust : itemLine .rust (.member m) =
    "    pub " ++ RustDeclaration.identifier name ++ ": " ++ nested scalar.rustName lengths ++ ","
  size : shape.size = lengths.prod * scalar.width
  align : shape.align = scalar.width
  plain : shape.packed = false ∧ shape.pre = 0 ∧ shape.post = 0

/-- An array of scalars is declared with its lengths in both languages, and takes the bytes of all
scalars. -/
theorem declaresArray_of_type {m : Member} {shape : Shape}
    (htype : m.type = (scalarMember scalar).arrayOf lengths) (hshape : shapeOfType m.type = .ok shape) :
    DeclaresArray m.name scalar lengths m shape := by
  have hbase : m.type.base = scalarMember scalar := by
    rw [htype, base_scalarMember_arrayOf]
  have hdimensions : m.type.dimensions = lengths := by
    rw [htype, dimensions_scalarMember_arrayOf]
  have hscalar : m.type.scalar? = some scalar := by
    rw [← m.type.scalar?_base, hbase]
    cases scalar <;> rfl
  have hc : CDeclaration.typeName (scalarMember scalar) = scalar.cName := by cases scalar <;> rfl
  have hrust : RustDeclaration.typeName (scalarMember scalar) = scalar.rustName := by
    cases scalar <;> rfl
  obtain ⟨found, hfound, -, -, rfl⟩ := shapeOfType_eq_ok_iff.1 hshape
  obtain rfl : scalar = found := Option.some.inj (hscalar.symm.trans hfound)
  refine ⟨?_, ?_, ?_, rfl, rfl, rfl, rfl⟩
  · -- C has the lengths behind the name
    rw [itemLine_eq, beforeName, behindName, hbase, hc, hdimensions, ← String.append_assoc]
    rfl
  · -- Rust has them in the type, the first one outermost
    have hspelling := rust_typeName_arrayOf (scalarMember scalar) lengths
    rw [← htype, hrust] at hspelling
    rw [itemLine_eq, beforeName, behindName, hspelling, ← String.append_assoc, ← String.append_assoc]
    rfl
  · rw [ScalarType.run, hdimensions, Nat.mul_comm]

/-- A record that is declared has a member for every argument.  Where the type of an argument is a scalar
name with lengths behind it, the member has these lengths in the order of the argument in both languages,
and its field has the size of all scalars together and the alignment of one. -/
theorem declareRecord_arrays (h : declareRecord language name options texts = .ok out) :
    ∃ (members : List Member) (shapes : List Shape) (layout : RecordLayout) (items : List Item),
      members.length = texts.length ∧ shapes.length = texts.length ∧
      options.abi.layout options.packed RecordLayout.anonymous shapes = .ok layout ∧
      Complete ⟨name, members⟩ layout items ∧
      out = language.prelude ++ declaration language ⟨name, members⟩ layout items ∧
      ∀ (i : Nat) (field typeText : String) (s : ArrayText) (scalar : ScalarType) (lengths : List Nat),
        texts[i]? = some (field ++ ":" ++ typeText) → ':' ∉ field.toList →
        s.text = Text.trim typeText → s.Writes scalar lengths →
        ∃ m shape, members[i]? = some m ∧ shapes[i]? = some shape ∧
          DeclaresArray (Text.trim field) scalar lengths m shape := by
  obtain ⟨fields, layout, items, hfields, hlayout, hitems, hout⟩ := declareRecord_eq_ok h
  have hlength : fields.length = texts.length := hfields.length_eq.symm
  refine ⟨_, _, layout, items, ?_, ?_, hlayout, hitems, hout, ?_⟩
  · rw [List.length_map, hlength]
  · rw [List.length_map, hlength]
  intro i field typeText s scalar lengths hi hcolon htext hwrites
  have hread : List.Forall₂ (fun field text => readField text = .ok field) fields texts := hfields.flip
  -- the member of the argument, which its text alone decides
  obtain ⟨⟨m, shape⟩, hfield, hread⟩ := forall₂_getElem? hread hi
  obtain ⟨hname, htype, hshape⟩ := (readField_eq_ok_iff hcolon).1 hread
  rw [readType_of_writes htext hwrites, Except.ok.injEq] at htype
  refine ⟨m, shape, by simp [hfield], by simp [hfield], ?_⟩
  rw [← hname]
  exact declaresArray_of_type htype.symm hshape

/-- A record with a character and two rows of three numbers. -/
def rowsDeclaration : String :=
  Language.c.prelude ++ Text.ofLines
    ["#pragma pack(push, 2)", "typedef struct S \x7b", "    char tag;", "    uint8_t _pad0[1];",
      "    int16_t grid[2][3];", "\x7d S;", "#pragma pack(pop)",
      "_Static_assert(sizeof(S) == 14, \"S must be 14 bytes\");"]

/-- Two rows of three numbers behind a character. -/
theorem declareRecord_arrays_rows :
    declareRecord .c "S" ⟨.msvcX64, false⟩ ["tag:char", "grid : i16[2][3]"] = .ok rowsDeclaration ∧
    (∃ s : ArrayText, s.text = Text.trim " i16[2][3]" ∧ s.Writes .i16 [2, 3]) ∧
    ∃ (members : List Member) (shapes : List Shape) (layout : RecordLayout) (items : List Item)
      (m : Member) (shape : Shape), Complete ⟨"S", members⟩ layout items ∧
      Abi.layout .msvcX64 false RecordLayout.anonymous shapes = .ok layout ∧
      members[1]? = some m ∧ shapes[1]? = some shape ∧
      itemLine .c (.member m) = "    int16_t grid[2][3];" ∧
      itemLine .rust (.member m) = "    pub grid: [[i16; 3]; 2]," ∧
      shape.size = 12 ∧ shape.align = 2 := by
  let rows : ArrayText := ⟨['i', '1', '6'], [2, 3].map (Nat.toDigits 10)⟩
  have htext : rows.text = Text.trim " i16[2][3]" := by decide
  have hwrites : rows.Writes .i16 [2, 3] :=
    ⟨by decide, by decide, forall₂_writesLength_toDigits (by decide)⟩
  have hdeclared : declareRecord .c "S" ⟨.msvcX64, false⟩ ["tag:char", "grid : i16[2][3]"] =
      .ok rowsDeclaration := by
    decide +kernel
  obtain ⟨members, shapes, layout, items, -, -, hlayout, hitems, -, harrays⟩ :=
    declareRecord_arrays hdeclared
  obtain ⟨m, shape, hm, hshape, harray⟩ :=
    harrays 1 "grid " " i16[2][3]" rows .i16 [2, 3] (by decide) (by decide) htext hwrites
  have hname : Text.trim "grid " = "grid" := by decide
  rw [hname] at harray
  exact ⟨hdeclared, ⟨rows, htext, hwrites⟩, members, shapes, layout, items, m, shape, hitems, hlayout,
    hm, hshape, harray.c.trans (by decide), harray.rust.trans (by decide), harray.size, harray.align⟩

end NativeLayout.Command
