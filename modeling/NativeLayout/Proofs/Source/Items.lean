import Mathlib.Data.List.TakeDrop
import NativeLayout.Proofs.Layout.Whole
import NativeLayout.Source.Render
import NativeLayout.Stored

namespace NativeLayout.Source

/-!
# What is in a declaration

The items of a declaration come from two lists of a layout, its offsets and its gaps.  Whether there is
a declaration is decided by the offsets, and what is in it by the gaps.

* `itemLine`, `declaration`, `render_eq` — a declaration is its items, one on a line, with the same
  lines around them whatever the items are.
* `filterMap_member?_arrange`, `filterMap_number?_arrange` — the members and the padding among the items.
* `Complete` — every member once and in order, every gap as padding in front of its member, and no
  other padding.
* `render_complete_iff` — a declaration is complete exactly if there is a gap for every member and no
  further gap has any bytes; `render_of_compute` says that this holds of computed layouts.
-/

/-! ### The lines of a declaration -/

/-- The line of an item. -/
def itemLine : Language → Item → String
  | .c => CDeclaration.itemLine
  | .rust => RustDeclaration.itemLine

/-- Lengths in brackets, in the order of the list. -/
def lengthsText (lengths : List Nat) : String := String.join (lengths.map fun n => s!"[{n}]")

/-- The lines in front of the items. -/
def openingLines (language : Language) (d : RecordDef) (layout : RecordLayout) : List String :=
  match language with
  | .c => [s!"#pragma pack(push, {(CDeclaration.ofLayout d layout []).pack})",
      s!"typedef struct {d.name} \x7b"]
  | .rust => [(RustDeclaration.representationOf d layout).line, s!"pub struct {d.name} \x7b"]

/-- The lines behind the items. -/
def closingLines (language : Language) (d : RecordDef) (layout : RecordLayout) : List String :=
  match language with
  | .c => [s!"\x7d {d.name};", "#pragma pack(pop)",
      s!"_Static_assert(sizeof({d.name}) == {layout.size}, \"{d.name} must be {layout.size} bytes\");"]
  | .rust => ["\x7d", "",
      s!"const _: () = assert!(core::mem::size_of::<{d.name}>() == {layout.size});"]

/-- The declaration of a record with these items. -/
def declaration (language : Language) (d : RecordDef) (layout : RecordLayout) (items : List Item) :
    String :=
  Text.ofLines
    (openingLines language d layout ++ items.map (itemLine language) ++ closingLines language d layout)

/-- A declaration is printed from its items, and refused only if these cannot be arranged. -/
theorem render_eq (language : Language) (d : RecordDef) (layout : RecordLayout) :
    render language d layout = (items? d layout).map (declaration language d layout) := by
  unfold render
  cases items? d layout with
  | error e => rfl
  | ok items => cases language <;> rfl

/-! ### Members and padding -/

/-- The member that an item declares. -/
def Item.member? : Item → Option Member
  | .member m => some m
  | .padding _ _ => none

/-- The number of an item that is padding. -/
def Item.number? : Item → Option Nat
  | .member _ => none
  | .padding number _ => some number

variable {members : List Member} {gaps : List Nat}

/-- The number of gaps that need padding. -/
def gapCount (gaps : List Nat) : Nat := gaps.countP (0 < ·)

/-- An empty gap needs no padding member. -/
theorem gapCount_singleton (gap : Nat) : gapCount [gap] = if 0 < gap then 1 else 0 := by
  simp [gapCount, List.countP_singleton]

/-- The trailing gap is one more gap. -/
theorem paddingCount_eq (layout : RecordLayout) :
    paddingCount layout = gapCount layout.gaps + gapCount [layout.tail] := by
  rw [gapCount_singleton, gapCount, List.countP_eq_length_filter, paddingCount]

/-- A gap becomes one padding member, or none. -/
theorem length_padding (number bytes : Nat) : (padding number bytes).length = gapCount [bytes] := by
  rw [gapCount_singleton, padding]
  split <;> rfl

/-- A padding member is no declared one. -/
theorem filterMap_member?_padding (number bytes : Nat) :
    (padding number bytes).filterMap Item.member? = [] := by
  unfold padding
  split <;> rfl

/-- A padding member has the number that is next. -/
theorem filterMap_number?_padding (number bytes : Nat) :
    (padding number bytes).filterMap Item.number? = List.range' number (gapCount [bytes]) := by
  rw [gapCount_singleton, padding]
  split <;> rfl

/-- The members are declared as far as there are gaps. -/
theorem filterMap_member?_arrange (number tail : Nat) :
    (arrange number tail members gaps).filterMap Item.member? = members.take gaps.length := by
  induction members generalizing number gaps with
  | nil => simp [arrange, filterMap_member?_padding]
  | cons m members ih =>
    cases gaps with
    | nil => simp [arrange, filterMap_member?_padding]
    | cons gap gaps =>
      have hfirst : (Item.member m).member? = some m := rfl
      rw [arrange, List.filterMap_append, filterMap_member?_padding, List.nil_append,
        List.filterMap_cons_some hfirst, ih, List.length_cons, List.take_succ_cons]

/-- The padding is numbered without a break, and there is as much of it as there are gaps in front of
members. -/
theorem filterMap_number?_arrange (number tail : Nat) :
    (arrange number tail members gaps).filterMap Item.number? =
      List.range' number (gapCount (gaps.take members.length) + gapCount [tail]) := by
  induction members generalizing number gaps with
  | nil => simp [arrange, filterMap_number?_padding, gapCount]
  | cons m members ih =>
    cases gaps with
    | nil => simp [arrange, filterMap_number?_padding, gapCount]
    | cons gap gaps =>
      have hcount : gapCount ((gap :: gaps).take (m :: members).length) =
          gapCount [gap] + gapCount (gaps.take members.length) := by
        simp [gapCount, List.countP_cons, Nat.add_comm]
      -- the numbers go on where the padding of the first gap stops
      rw [arrange, List.filterMap_append, filterMap_number?_padding, List.filterMap_cons_none rfl, ih,
        length_padding, List.range'_append_1, hcount, Nat.add_assoc]

/-- A gap in front of a member is padding right in front of it. -/
theorem exists_arrange_eq_of_gap (number tail : Nat) {i : Nat} {m : Member} {gap : Nat}
    (hm : members[i]? = some m) (hgap : gaps[i]? = some gap) (hpos : 0 < gap) :
    ∃ front padded back, arrange number tail members gaps =
        front ++ .padding padded gap :: .member m :: back ∧
      front.filterMap Item.member? = members.take i := by
  induction i generalizing number members gaps with
  | zero =>
    obtain ⟨members, rfl⟩ : ∃ rest, members = m :: rest := by
      cases members with
      | nil => cases hm
      | cons first rest => exact ⟨rest, by rw [Option.some.inj hm]⟩
    obtain ⟨gaps, rfl⟩ : ∃ rest, gaps = gap :: rest := by
      cases gaps with
      | nil => cases hgap
      | cons first rest => exact ⟨rest, by rw [Option.some.inj hgap]⟩
    -- the padding is the first item, and the member the second
    refine ⟨[], number, arrange (number + (padding number gap).length) tail members gaps, ?_, rfl⟩
    simp [arrange, padding, hpos]
  | succ i ih =>
    cases members with
    | nil => cases hm
    | cons first members =>
      cases gaps with
      | nil => cases hgap
      | cons before gaps =>
        -- what stands in front of the first member moves every number on, but leaves the order
        obtain ⟨front, padded, back, heq, hfront⟩ :=
          ih (number + (padding number before).length) hm hgap
        refine ⟨padding number before ++ .member first :: front, padded, back, ?_, ?_⟩
        · simp [arrange, heq]
        · simp [filterMap_member?_padding, Item.member?, hfront]

/-- What is missing behind the last member is padding at the end. -/
theorem exists_arrange_eq_of_tail (number : Nat) {tail : Nat} (hpos : 0 < tail) :
    ∃ front padded, arrange number tail members gaps = front ++ [.padding padded tail] := by
  induction members generalizing number gaps with
  | nil => exact ⟨[], number, by simp [arrange, padding, hpos]⟩
  | cons m members ih =>
    cases gaps with
    | nil => exact ⟨[], number, by simp [arrange, padding, hpos]⟩
    | cons gap gaps =>
      obtain ⟨front, padded, heq⟩ := @ih gaps (number + (padding number gap).length)
      exact ⟨padding number gap ++ .member m :: front, padded, by simp [arrange, heq]⟩

/-! ### Complete declarations -/

/-- The items have every member once and in order, and every gap as padding. -/
structure Complete (d : RecordDef) (layout : RecordLayout) (items : List Item) : Prop where
  members : items.filterMap Item.member? = d.members
  /-- There is as much padding as the layout asks for, numbered from zero on. -/
  numbers : items.filterMap Item.number? = List.range (paddingCount layout)
  gap : ∀ (i : Nat) (m : Member) (bytes : Nat), d.members[i]? = some m →
    layout.gaps[i]? = some bytes → 0 < bytes → ∃ front number back,
      items = front ++ .padding number bytes :: .member m :: back ∧
        front.filterMap Item.member? = d.members.take i
  tail : 0 < layout.tail → ∃ front number, items = front ++ [.padding number layout.tail]

/-- Gaps that no member follows are not in the declaration, so they must be empty. -/
theorem gapCount_take_eq_iff (n : Nat) :
    gapCount (gaps.take n) = gapCount gaps ↔ ∀ gap ∈ gaps.drop n, gap = 0 := by
  have hsplit : gapCount (gaps.take n) + gapCount (gaps.drop n) = gapCount gaps := by
    rw [gapCount, gapCount, ← List.countP_append, List.take_append_drop, gapCount]
  have hzero : gapCount (gaps.drop n) = 0 ↔ ∀ gap ∈ gaps.drop n, gap = 0 := by
    simp [gapCount, List.countP_eq_zero]
  rw [← hzero]
  omega

/-- **Complete.** No member and no gap is dropped exactly if there are gaps for all members and only empty
ones are left over. -/
theorem complete_arrange_iff (d : RecordDef) (layout : RecordLayout) :
    Complete d layout (arrange 0 layout.tail d.members layout.gaps) ↔
      d.members.length ≤ layout.gaps.length ∧
        ∀ gap ∈ layout.gaps.drop d.members.length, gap = 0 := by
  have hmembers : d.members.take layout.gaps.length = d.members ↔
      d.members.length ≤ layout.gaps.length :=
    List.take_eq_self_iff _
  -- the last gap has padding of its own, in any case
  have hcount : gapCount (layout.gaps.take d.members.length) + gapCount [layout.tail] =
      paddingCount layout ↔ ∀ gap ∈ layout.gaps.drop d.members.length, gap = 0 := by
    rw [paddingCount_eq, Nat.add_right_cancel_iff, gapCount_take_eq_iff]
  constructor
  · intro h
    refine ⟨hmembers.1 ?_, hcount.1 ?_⟩
    · rw [← filterMap_member?_arrange 0 layout.tail, h.members]
    · have hlength := congrArg List.length h.numbers
      rwa [filterMap_number?_arrange, List.length_range', List.length_range] at hlength
  · rintro ⟨hlength, hdrop⟩
    exact
      { members := by rw [filterMap_member?_arrange, hmembers.2 hlength]
        numbers := by rw [filterMap_number?_arrange, hcount.2 hdrop, List.range_eq_range']
        gap := fun _ _ _ hm hgap hpos => exists_arrange_eq_of_gap 0 layout.tail hm hgap hpos
        tail := exists_arrange_eq_of_tail 0 }

/-- A computed layout has a gap for every field, so the declaration of a record with as many members is
complete. -/
theorem render_of_compute {cap : Nat} {packed : Bool} {typeName : String} {fields : List Shape}
    {d : RecordDef} {layout : RecordLayout} (language : Language)
    (hlayout : RecordLayout.compute cap packed typeName fields = .ok layout)
    (hlength : d.members.length = layout.offsets.length) :
    ∃ items, Complete d layout items ∧
      render language d layout = .ok (declaration language d layout items) := by
  obtain ⟨-, placed, hplaced, -, hoffsets, hgaps⟩ := RecordLayout.compute_eq_ok_iff.1 hlayout
  obtain ⟨hoffset, hgap⟩ := RecordLayout.length_offsets_placeFields hplaced
  have hall : d.members.length = layout.gaps.length := by
    rw [hlength, hoffsets, hgaps, hoffset, hgap]
  refine ⟨arrange 0 layout.tail d.members layout.gaps, ?_, ?_⟩
  · rw [complete_arrange_iff, hall, List.drop_length]
    exact ⟨le_rfl, fun gap h => nomatch h⟩
  · rw [render_eq, items?, if_pos hlength]
    rfl

/-- A declaration is refused if there is another number of members than of offsets.  Otherwise it has
the members that there are gaps for, and it is complete exactly if these are all members and the gaps
that are left over are empty. -/
theorem render_complete_iff (language : Language) (d : RecordDef) (layout : RecordLayout) :
    (d.members.length ≠ layout.offsets.length ∧ render language d layout =
      .error (.fieldCountMismatch d.name d.members.length layout.offsets.length)) ∨
    (d.members.length = layout.offsets.length ∧ ∃ items,
      render language d layout = .ok (declaration language d layout items) ∧
      items.filterMap Item.member? = d.members.take layout.gaps.length ∧
      (Complete d layout items ↔ d.members.length ≤ layout.gaps.length ∧
        ∀ gap ∈ layout.gaps.drop d.members.length, gap = 0)) := by
  rw [render_eq, items?]
  by_cases hlength : d.members.length = layout.offsets.length
  · rw [if_pos hlength]
    exact .inr ⟨hlength, _, rfl, filterMap_member?_arrange 0 layout.tail, complete_arrange_iff d layout⟩
  · rw [if_neg hlength]
    exact .inl ⟨hlength, rfl⟩

/-- A stored layout may have two offsets and one gap.  Then the second of two members is missing. -/
theorem render_complete_iff_oneGap : ∃ layout items,
    RecordLayout.ofDocument? (.object [("descriptor", (Shape.mk 4 false 0 8 0).toDocument),
      ("offsets", .list [.ofNat 0, .ofNat 4]), ("padding", .list [.ofNat 0])]) = some layout ∧
    render .c ⟨"S", [⟨"a", .scalar .i32⟩, ⟨"b", .scalar .i32⟩]⟩ layout = .ok
      (declaration .c ⟨"S", [⟨"a", .scalar .i32⟩, ⟨"b", .scalar .i32⟩]⟩ layout items) ∧
    items.filterMap Item.member? = [⟨"a", .scalar .i32⟩] ∧
    ¬ Complete ⟨"S", [⟨"a", .scalar .i32⟩, ⟨"b", .scalar .i32⟩]⟩ layout items := by
  let d : RecordDef := ⟨"S", [⟨"a", .scalar .i32⟩, ⟨"b", .scalar .i32⟩]⟩
  let layout : RecordLayout := ⟨⟨4, false, 0, 8, 0⟩, [0, 4], [0]⟩
  obtain ⟨hne, -⟩ | ⟨-, items, hrender, hmembers, hcomplete⟩ := render_complete_iff .c d layout
  · exact absurd rfl hne
  · refine ⟨layout, items, by decide, hrender, hmembers, fun h => ?_⟩
    exact absurd (hcomplete.1 h).1 (by decide)

end NativeLayout.Source
