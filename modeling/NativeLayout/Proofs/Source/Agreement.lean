import NativeLayout.Proofs.Source.Compiler
import NativeLayout.Proofs.Tree.Described

namespace NativeLayout.Source

/-!
# Compilers find the layout that a declaration was written from

* `layItems_arrange` — between explicit padding a compiler has to insert none.
* `compile?_arrange` — so members declared with the padding of a layout get the offsets, the size and
  the alignment of that layout, if the limit gives each of them the alignment it has there.
* `compile?_natural_iff` — without a limit they do exactly when none of them is more aligned than
  the record.
-/

/-- The layout as a compiler finds it. -/
def compiledOf (l : RecordLayout) : Compiled := ⟨l.offsets, ⟨l.size, l.shape.align⟩⟩

/-- A part whose type a compiler measures like its shape. -/
structure Fits (scope : Scope) (p : Part) : Prop where
  whole : p.shape.Whole
  measure : measure? scope p.member.type = some ⟨p.shape.extent, p.shape.align⟩

variable {limit : Option Nat} {scope : Scope} {start : Nat} {items : List Item} {laid : Laid}

/-- The first item is laid at the next multiple of its limited alignment, and the others behind it. -/
theorem layItems_cons_eq_some_iff {item : Item} :
    layItems limit scope start (item :: items) = some laid ↔
      ∃ m later, measure? scope item.type = some m ∧
        layItems limit scope (Word.roundUp start (limited limit m.align) + m.size) items =
          some later ∧
        laid = ⟨item.offsets (Word.roundUp start (limited limit m.align)) ++ later.offsets,
          later.stop, max (limited limit m.align) later.align⟩ := by
  simp only [layItems, Option.bind_eq_some_iff, Option.map_eq_some_iff, exists_and_left,
    eq_comm (b := laid)]

theorem one_le_align (h : layItems limit scope start items = some laid) : 1 ≤ laid.align := by
  induction items generalizing start laid with
  | nil =>
    cases h
    exact le_rfl
  | cons item items ih =>
    obtain ⟨m, later, -, hlater, rfl⟩ := layItems_cons_eq_some_iff.1 h
    exact le_trans (ih hlater) (le_max_right _ _)

/-- The record is at least as aligned as each of its items, up to the limit. -/
theorem limited_align_le (h : layItems limit scope start items = some laid) {item : Item}
    (hitem : item ∈ items) {m : Measure} (hm : measure? scope item.type = some m) :
    limited limit m.align ≤ laid.align := by
  induction items generalizing start laid with
  | nil => cases hitem
  | cons first items ih =>
    obtain ⟨n, later, hn, hlater, rfl⟩ := layItems_cons_eq_some_iff.1 h
    rcases List.mem_cons.1 hitem with rfl | hitem
    · rw [hm, Option.some.injEq] at hn
      subst hn
      exact le_max_left _ _
    · exact le_trans (ih hlater hitem) (le_max_right _ _)

/-! ### Explicit padding -/

/-- Padding moves what is behind it, and nothing else. -/
theorem layItems_padding (hone : limited limit 1 = 1) (number bytes : Nat) :
    layItems limit scope start (padding number bytes ++ items) =
      layItems limit scope (start + bytes) items := by
  unfold padding
  split
  next hbytes =>
    have hmeasure : measure? scope (Item.padding number bytes).type = some ⟨bytes * 1, 1⟩ := rfl
    rw [List.singleton_append, layItems, hmeasure, Option.bind_some]
    simp only [hone, Word.roundUp_one, Nat.mul_one]
    cases hlater : layItems limit scope (start + bytes) items with
    | none => rfl
    | some later =>
      -- bytes do not align the record any further
      have halign := one_le_align hlater
      rw [Option.map_some, max_eq_right halign]
      rfl
  next hbytes =>
    rw [List.nil_append, Nat.eq_zero_of_not_pos hbytes, Nat.add_zero]

variable {cap : Nat} {packed : Bool} {typeName : String} {parts : List Part} {l : RecordLayout}

/-- Members with the padding of the pass over their shapes get the offsets of that pass. -/
theorem layItems_arrange {placed : RecordLayout.Placed} (hcap : cap.isPowerOfTwo)
    (hone : limited limit 1 = 1)
    (hplaced : RecordLayout.placeFields cap packed start (parts.map Part.shape) = .ok placed)
    (hfits : ∀ p ∈ parts, Fits scope p)
    (hlimit : ∀ p ∈ parts,
      limited limit p.shape.align = RecordLayout.fieldAlign cap packed p.shape)
    (number tail : Nat) :
    layItems limit scope start (arrange number tail (parts.map Part.member) placed.gaps) =
      some ⟨placed.offsets, placed.stop + tail, placed.align⟩ := by
  induction parts generalizing start placed number with
  | nil =>
    cases hplaced
    have hpadding : layItems limit scope start (padding number tail ++ []) =
        some ⟨[], start + tail, 1⟩ := layItems_padding hone number tail
    rwa [List.append_nil] at hpadding
  | cons p parts ih =>
    obtain ⟨hp, hparts⟩ := List.forall_mem_cons.1 hfits
    obtain ⟨halign, haligns⟩ := List.forall_mem_cons.1 hlimit
    obtain ⟨hpow, offset, stop, later, hoffset, hstop, hlater, rfl⟩ :=
      RecordLayout.placeFields_cons_eq_ok_iff.1 hplaced
    obtain ⟨-, rfl⟩ := Word.add?_eq_some_iff.1 hstop
    have hround := RecordLayout.eq_roundUp_of_bind hcap hpow hoffset
    have hpos := Word.pos_of_isPowerOfTwo (RecordLayout.fieldAlign_isPowerOfTwo packed hcap hpow)
    rw [hp.whole.pre, Nat.add_zero] at hround
    have hle : start ≤ offset := hround ▸ Word.le_roundUp start hpos
    -- the gap leads to the offset, so a compiler leaves the member where it is
    have hstay : Word.roundUp offset (RecordLayout.fieldAlign cap packed p.shape) = offset :=
      Word.roundUp_of_dvd hpos (hround ▸ Word.dvd_roundUp start _)
    have hrest := ih hlater hparts haligns (number + (padding number (offset - start)).length)
    simp only [List.map_cons, arrange]
    rw [layItems_padding hone, Nat.add_sub_cancel' hle, layItems_cons_eq_some_iff]
    refine ⟨_, ⟨later.offsets, later.stop + tail, later.align⟩, hp.measure, ?_, ?_⟩
    · rw [halign, hstay]
      exact hrest
    · rw [halign, hstay]
      rfl

/-! ### Records -/

/-- Members with the padding of a layout get that layout, if the limit gives each of them the
alignment that it has there. -/
theorem compile?_arrange (hcap : cap.isPowerOfTwo) (hone : limited limit 1 = 1)
    (hl : RecordLayout.compute cap packed typeName (parts.map Part.shape) = .ok l)
    (hfits : ∀ p ∈ parts, Fits scope p)
    (hlimit : ∀ p ∈ parts, limited limit p.shape.align = min p.shape.align l.shape.align) :
    compile? limit scope (arrange 0 l.tail (parts.map Part.member) l.gaps) =
      some (compiledOf l) := by
  have hfield : ∀ p ∈ parts,
      limited limit p.shape.align = RecordLayout.fieldAlign cap packed p.shape := by
    intro p hp
    rw [hlimit p hp, RecordLayout.min_align_eq_fieldAlign hcap hl (List.mem_map_of_mem hp)]
  have hsize := RecordLayout.size_eq_roundUp hcap hl
  obtain ⟨placed, hplaced, hpow, rfl⟩ := RecordLayout.compute_eq_ok hcap hl
  have hlay := layItems_arrange hcap hone hplaced hfits hfield 0
    (Word.roundUp placed.stop placed.align - placed.stop)
  have hpos := Word.pos_of_isPowerOfTwo hpow
  have hstop : placed.stop + (Word.roundUp placed.stop placed.align - placed.stop) =
      Word.roundUp placed.stop placed.align :=
    Nat.add_sub_cancel' (Word.le_roundUp placed.stop hpos)
  -- the padding behind the members ends at a multiple of the alignment already
  have hend : Word.roundUp (Word.roundUp placed.stop placed.align) placed.align =
      Word.roundUp placed.stop placed.align :=
    Word.roundUp_of_dvd hpos (Word.dvd_roundUp placed.stop placed.align)
  rw [hstop] at hlay
  unfold compile? RecordLayout.tail
  rw [hlay, Option.map_some, hend, compiledOf, hsize]

/-- With a gap for each, every member is among the items. -/
theorem mem_arrange {members : List Member} {gaps : List Nat} (number tail : Nat) {m : Member}
    (hm : m ∈ members) (hgaps : gaps.length = members.length) :
    .member m ∈ arrange number tail members gaps := by
  induction members generalizing gaps number with
  | nil => cases hm
  | cons first members ih =>
    cases gaps with
    | nil => cases hgaps
    | cons gap gaps =>
      simp only [arrange, List.mem_append, List.mem_cons]
      rcases List.mem_cons.1 hm with rfl | hm
      · exact .inr (.inl rfl)
      · exact .inr (.inr (ih _ hm (Nat.succ.inj hgaps)))

/-- Without a limit, members get the layout exactly when none of them is more aligned than the
record. -/
theorem compile?_natural_iff (hcap : cap.isPowerOfTwo)
    (hl : RecordLayout.compute cap packed typeName (parts.map Part.shape) = .ok l)
    (hfits : ∀ p ∈ parts, Fits scope p) :
    compile? none scope (arrange 0 l.tail (parts.map Part.member) l.gaps) = some (compiledOf l) ↔
      ∀ p ∈ parts, p.shape.align ≤ l.shape.align := by
  constructor
  · intro hcompile p hp
    obtain ⟨laid, hlay, hlaid⟩ := Option.map_eq_some_iff.1 hcompile
    -- the compiled record is as aligned as its most aligned member
    have halign : laid.align = l.shape.align := congrArg (fun c => c.measure.align) hlaid
    have hlength : l.gaps.length = (parts.map Part.member).length := by
      rw [(RecordLayout.length_of_compute hcap hl).2, List.length_map, List.length_map]
    have hmem := mem_arrange 0 l.tail (List.mem_map_of_mem (f := Part.member) hp) hlength
    rw [← halign]
    exact limited_align_le hlay hmem (hfits p hp).measure
  · intro hle
    refine compile?_arrange hcap rfl hl hfits fun p hp => ?_
    exact (min_eq_left (hle p hp)).symm

end NativeLayout.Source
