import Mathlib.Data.List.Nodup
import NativeLayout.Proofs.Source.Items

namespace NativeLayout.Source

/-!
# The names in a declaration

Padding is declared under names of its own, next to names that a user chose, and in Rust a reserved
word is declared under another name.

* `declaredName`, `itemLine_eq` — the name that an item is declared under, and where it stands.
* `paddingName_injective`, `identifier_eq_iff`, `memberName_eq_paddingName_iff` — which names meet.
* `perm_map_declaredName` — the names are those of the members and those of the padding.
* `nodup_declaredNames_iff` — for members with different names, all declared names are different unless
  a member has the name of padding that is there, or has a reserved word as its name that another
  member has with the mark already.
-/

/-! ### Declared names -/

/-- The name that a member is declared under. -/
def memberName : Language → String → String
  | .c => id
  | .rust => RustDeclaration.identifier

/-- The name that an item is declared under. -/
def declaredName (language : Language) : Item → String
  | .member m => memberName language m.name
  | .padding number _ => paddingName number

/-- What stands in front of the name. -/
def beforeName : Language → Item → String
  | .c, .member m => "    " ++ CDeclaration.typeName m.type.base ++ " "
  | .c, .padding _ _ => "    uint8_t "
  | .rust, .member _ => "    pub "
  | .rust, .padding _ _ => "    "

/-- What stands behind the name. -/
def behindName : Language → Item → String
  | .c, .member m => lengthsText m.type.dimensions ++ ";"
  | .c, .padding _ bytes => s!"[{bytes}];"
  | .rust, .member m => ": " ++ RustDeclaration.typeName m.type ++ ","
  | .rust, .padding _ bytes => s!": [u8; {bytes}],"

/-- A line has the name of the item between two parts that do not depend on it. -/
theorem itemLine_eq (language : Language) (item : Item) :
    itemLine language item =
      beforeName language item ++ declaredName language item ++ behindName language item := by
  cases language <;> cases item <;>
    simp [itemLine, beforeName, behindName, declaredName, memberName, CDeclaration.itemLine,
      CDeclaration.declarator, lengthsText, RustDeclaration.itemLine, toString, ← String.toList_inj]

/-! ### Names that meet -/

/-- A padding member is called by its number. -/
theorem toList_paddingName (number : Nat) :
    (paddingName number).toList = "_pad".toList ++ Nat.toDigits 10 number := by
  simp [paddingName, toString]

/-- So no two padding members have the same name. -/
theorem paddingName_injective : Function.Injective paddingName := by
  intro a b h
  have hdigits : Nat.toDigits 10 a = Nat.toDigits 10 b := by
    simpa [toList_paddingName] using congrArg String.toList h
  rw [← Nat.ofDigitChars_ten_toDigits (n := a), hdigits, Nat.ofDigitChars_ten_toDigits]

/-- A name with a mark is no reserved word. -/
theorem mark_notMem_keywords (name : String) : "r#" ++ name ∉ RustDeclaration.keywords := by
  have hmark : ∀ word ∈ RustDeclaration.keywords, word.toList.take 2 ≠ ['r', '#'] := by decide
  intro h
  exact hmark _ h (by simp)

/-- In Rust a name that is a keyword is marked. -/
theorem identifier_of_mem {name : String} (h : name ∈ RustDeclaration.keywords) :
    RustDeclaration.identifier name = "r#" ++ name := by
  rw [RustDeclaration.identifier, if_pos (by simpa using h)]

/-- Any other name is written as it is. -/
theorem identifier_of_notMem {name : String} (h : name ∉ RustDeclaration.keywords) :
    RustDeclaration.identifier name = name := by
  rw [RustDeclaration.identifier, if_neg (by simpa using h)]

/-- Two names meet only if one of them is a reserved word and the other is that word with its mark. -/
theorem identifier_eq_iff {a b : String} :
    RustDeclaration.identifier a = RustDeclaration.identifier b ↔
      a = b ∨ (a ∈ RustDeclaration.keywords ∧ b = "r#" ++ a) ∨
        (b ∈ RustDeclaration.keywords ∧ a = "r#" ++ b) := by
  by_cases ha : a ∈ RustDeclaration.keywords
  · rw [identifier_of_mem ha]
    by_cases hb : b ∈ RustDeclaration.keywords
    · rw [identifier_of_mem hb, String.append_right_inj]
      constructor
      · exact .inl
      · rintro (h | ⟨-, rfl⟩ | ⟨-, rfl⟩)
        · exact h
        · -- no reserved word is another one with its mark
          exact absurd hb (mark_notMem_keywords a)
        · exact absurd ha (mark_notMem_keywords b)
    · rw [identifier_of_notMem hb]
      have hne : a ≠ b := ne_of_mem_of_not_mem ha hb
      simp [ha, hb, hne, eq_comm]
  · rw [identifier_of_notMem ha]
    by_cases hb : b ∈ RustDeclaration.keywords
    · rw [identifier_of_mem hb]
      have hne : a ≠ b := (ne_of_mem_of_not_mem hb ha).symm
      simp [ha, hb, hne]
    · rw [identifier_of_notMem hb]
      simp [ha, hb]

/-- Padding has the same names in every language, and marks bring no member to one of them. -/
theorem memberName_eq_paddingName_iff (language : Language) {name : String} {number : Nat} :
    memberName language name = paddingName number ↔ name = paddingName number := by
  cases language with
  | c => exact Iff.rfl
  | rust =>
    -- padding starts with an underscore, and no reserved word does
    have hhead : ∀ word ∈ RustDeclaration.keywords, word.toList.head? ≠ some '_' := by decide
    have hpadding : paddingName number ∉ RustDeclaration.keywords := by
      intro h
      exact hhead _ h (by simp [toList_paddingName])
    rw [memberName]
    by_cases hname : name ∈ RustDeclaration.keywords
    · rw [identifier_of_mem hname]
      constructor
      · intro h
        have hfirst := congrArg (fun s => s.toList.head?) h
        simp [toList_paddingName] at hfirst
      · rintro rfl
        exact absurd hname hpadding
    · rw [identifier_of_notMem hname]

/-! ### All names together -/

/-- The names of the items are those of the members and those of the padding. -/
theorem perm_map_declaredName (language : Language) (items : List Item) :
    (items.map (declaredName language)).Perm
      (((items.filterMap Item.member?).map fun m => memberName language m.name) ++
        (items.filterMap Item.number?).map paddingName) := by
  induction items with
  | nil => exact .nil
  | cons item items ih =>
    cases item with
    | member m =>
      have hmember : (Item.member m).member? = some m := rfl
      have hnumber : (Item.member m).number? = none := rfl
      rw [List.filterMap_cons_some hmember, List.filterMap_cons_none hnumber]
      exact ih.cons _
    | padding number bytes =>
      have hmember : (Item.padding number bytes).member? = none := rfl
      have hnumber : (Item.padding number bytes).number? = some number := rfl
      rw [List.filterMap_cons_none hmember, List.filterMap_cons_some hnumber, List.map_cons,
        List.map_cons]
      exact (ih.cons _).trans List.perm_middle.symm

/-- Members with different names get different names in C, and in Rust as well unless a reserved word
meets its marked form. -/
theorem nodup_map_memberName_iff (language : Language) {names : List String} (h : names.Nodup) :
    (names.map (memberName language)).Nodup ↔
      (language = .rust → ∀ word ∈ RustDeclaration.keywords, word ∈ names → "r#" ++ word ∉ names) := by
  cases language with
  | c => simp [memberName, h]
  | rust =>
    rw [List.nodup_map_iff_inj_on h]
    -- different names meet only if one is the other with the mark
    simp only [memberName, identifier_eq_iff, forall_const]
    constructor
    · intro hinj word hword hmem hmarked
      have heq := hinj word hmem _ hmarked (.inr (.inl ⟨hword, rfl⟩))
      rw [heq] at hword
      exact mark_notMem_keywords word hword
    · rintro hfree a ha b hb (heq | ⟨hword, rfl⟩ | ⟨hword, rfl⟩)
      · exact heq
      · exact absurd hb (hfree a hword ha)
      · exact absurd ha (hfree b hword hb)

/-- The names of the members, if the padding is numbered from zero on, are the only ones that can meet. -/
theorem nodup_map_declaredName_iff (language : Language) {items : List Item} {count : Nat}
    (hnumbers : items.filterMap Item.number? = List.range count)
    (h : ((items.filterMap Item.member?).map Member.name).Nodup) :
    (items.map (declaredName language)).Nodup ↔
      (∀ number < count, paddingName number ∉ (items.filterMap Item.member?).map Member.name) ∧
      (language = .rust → ∀ word ∈ RustDeclaration.keywords,
        word ∈ (items.filterMap Item.member?).map Member.name →
          "r#" ++ word ∉ (items.filterMap Item.member?).map Member.name) := by
  have hpadding : ((List.range count).map paddingName).Nodup :=
    List.nodup_range.map paddingName_injective
  have hapart : (∀ a ∈ ((items.filterMap Item.member?).map Member.name).map (memberName language),
      ∀ b ∈ (List.range count).map paddingName, a ≠ b) ↔
      ∀ number < count, paddingName number ∉ (items.filterMap Item.member?).map Member.name := by
    simp only [List.forall_mem_map, List.mem_range, ne_eq, memberName_eq_paddingName_iff]
    constructor
    · intro hne number hnumber hmem
      obtain ⟨m, hm, hname⟩ := List.mem_map.1 hmem
      exact hne m hm number hnumber hname
    · intro hnot m hm number hnumber hname
      exact hnot number hnumber (List.mem_map.2 ⟨m, hm, hname⟩)
  have hmembers : ((items.filterMap Item.member?).map fun m => memberName language m.name) =
      ((items.filterMap Item.member?).map Member.name).map (memberName language) := by
    rw [List.map_map]
    rfl
  -- the members and the padding can be told apart on their own, and then from one another
  rw [(perm_map_declaredName language items).nodup_iff, hnumbers, hmembers, List.nodup_append, hapart,
    nodup_map_memberName_iff language h]
  exact ⟨fun ⟨hmarks, _, hnot⟩ => ⟨hnot, hmarks⟩, fun ⟨hnot, hmarks⟩ => ⟨hmarks, hpadding, hnot⟩⟩

/-! ### Declarations of records -/

/-- A record with a computed layout is declared with one line for each item, and the name in it is
`declaredName`.  For members with different names, these are all different exactly if no member has the
name of padding that is there and, in Rust, no member has a reserved word as its name while another one
has that word with the mark. -/
theorem nodup_declaredNames_iff {cap : Nat} {packed : Bool} {typeName : String} {fields : List Shape}
    {d : RecordDef} {layout : RecordLayout} (language : Language)
    (hlayout : RecordLayout.compute cap packed typeName fields = .ok layout)
    (hlength : d.members.length = layout.offsets.length)
    (hnames : (d.members.map Member.name).Nodup) :
    ∃ items, Complete d layout items ∧
      render language d layout = .ok (declaration language d layout items) ∧
      (∀ item ∈ items, itemLine language item =
        beforeName language item ++ declaredName language item ++ behindName language item) ∧
      ((items.map (declaredName language)).Nodup ↔
        (∀ number < paddingCount layout, paddingName number ∉ d.members.map Member.name) ∧
        (language = .rust → ∀ word ∈ RustDeclaration.keywords, word ∈ d.members.map Member.name →
          "r#" ++ word ∉ d.members.map Member.name)) := by
  obtain ⟨items, hitems, hrender⟩ := render_of_compute language hlayout hlength
  have hnodup := nodup_map_declaredName_iff language hitems.numbers (by rwa [hitems.members])
  rw [hitems.members] at hnodup
  exact ⟨items, hitems, hrender, fun item _ => itemLine_eq language item, hnodup⟩

/-- A member called `_pad0` is declared in front of padding with the same name in both languages.  A
member called `type` meets one called `r#type`, but only in Rust. -/
theorem nodup_declaredNames_twice :
    (∃ layout, RecordLayout.compute 16 false "S" [⟨1, false, 0, 1, 0⟩, ⟨4, false, 0, 4, 0⟩] =
        .ok layout ∧
      ∀ language, ∃ items,
        Complete ⟨"S", [⟨"_pad0", .scalar .char⟩, ⟨"b", .scalar .i32⟩]⟩ layout items ∧
        ¬ (items.map (declaredName language)).Nodup) ∧
    ∃ layout, RecordLayout.compute 16 false "S" [⟨1, false, 0, 1, 0⟩, ⟨1, false, 0, 1, 0⟩] =
        .ok layout ∧
      ∀ language, ∃ items,
        Complete ⟨"S", [⟨"type", .scalar .u8⟩, ⟨"r#type", .scalar .u8⟩]⟩ layout items ∧
        ((items.map (declaredName language)).Nodup ↔ language = .c) := by
  let padded : RecordDef := ⟨"S", [⟨"_pad0", .scalar .char⟩, ⟨"b", .scalar .i32⟩]⟩
  let marked : RecordDef := ⟨"S", [⟨"type", .scalar .u8⟩, ⟨"r#type", .scalar .u8⟩]⟩
  have hpadded : RecordLayout.compute 16 false "S" [⟨1, false, 0, 1, 0⟩, ⟨4, false, 0, 4, 0⟩] =
      .ok ⟨⟨4, false, 0, 8, 0⟩, [0, 4], [0, 3]⟩ := rfl
  have hmarked : RecordLayout.compute 16 false "S" [⟨1, false, 0, 1, 0⟩, ⟨1, false, 0, 1, 0⟩] =
      .ok ⟨⟨1, false, 0, 2, 0⟩, [0, 1], [0, 0]⟩ := rfl
  refine ⟨⟨_, hpadded, fun language => ?_⟩, _, hmarked, fun language => ?_⟩
  · obtain ⟨items, hitems, -, -, hnodup⟩ :=
      nodup_declaredNames_iff (d := padded) language hpadded rfl (by decide)
    exact ⟨items, hitems, fun h => (hnodup.1 h).1 0 (by decide) (by decide)⟩
  · obtain ⟨items, hitems, -, -, hnodup⟩ :=
      nodup_declaredNames_iff (d := marked) language hmarked rfl (by decide)
    refine ⟨items, hitems, hnodup.trans ?_⟩
    cases language with
    -- without padding only the mark could make two names meet, and C has none
    | c => simp [paddingCount, RecordLayout.tail]
    | rust =>
      refine iff_of_false (fun h => ?_) (by decide)
      exact h.2 rfl "type" (by decide) (by decide) (by decide)

end NativeLayout.Source
