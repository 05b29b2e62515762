import NativeLayout.Proofs.Source.InOrder
import NativeLayout.Source.Render

namespace NativeLayout.Source

/-!
# Declarations in C and in Rust

* `cOf`, `rustOf`, `renderAll_c`, `renderAll_rust` — what is written for the records of a structure.
* `compile?_c` — in C each record gets its layout, as the limit is the alignment of the record.
* `Overaligned` — a record with a member that is made of a more aligned record.
* `compile?_rust_iff` — in Rust a record gets its layout unless it is such a record and is declared
  without a limit: only the members that are no records decide about the limit.
-/

variable {rs known all : List (RecordDef × RecordLayout)} {r : RecordDef × RecordLayout}
  {scope : Scope}

/-- The declaration of a record in C. -/
def cOf (r : RecordDef × RecordLayout) : CDeclaration := .ofLayout r.1 r.2 (itemsOf r)

/-- The declaration of a record in Rust. -/
def rustOf (r : RecordDef × RecordLayout) : RustDeclaration := .ofLayout r.1 r.2 (itemsOf r)

/-! ### What is written -/

/-- A record has as many members as its layout has offsets. -/
theorem MadeOf.items? (h : MadeOf known r) : items? r.1 r.2 = .ok (itemsOf r) := by
  obtain ⟨head, parts, hdef, hlayout, -⟩ := h
  obtain ⟨hlength, -⟩ := RecordLayout.length_of_compute head.abi.cap_isPowerOfTwo hlayout
  have hmembers : r.1.members.length = r.2.offsets.length := by
    rw [hdef, hlength, RecordHead.definition, List.length_map, List.length_map]
  exact if_pos hmembers

/-- The declarations of some records follow each other, with an empty line between them. -/
theorem renderAll_of_items {language : Language} {text : RecordDef × RecordLayout → String}
    (h : ∀ r ∈ rs, render language r.1 r.2 = .ok (text r)) :
    renderAll language rs = .ok ("\n".intercalate (rs.map text)) := by
  have htexts : rs.mapM (fun r => render language r.1 r.2) = .ok (rs.map text) := by
    induction rs with
    | nil => rfl
    | cons r rs ih =>
      rw [List.mapM_cons, h r (by simp), ih fun q hq => h q (by simp [hq])]
      rfl
  show (rs.mapM (fun r => render language r.1 r.2) >>= _) = _
  rw [htexts]
  rfl

/-- The whole text in C. -/
theorem renderAll_c (h : ∀ r ∈ rs, items? r.1 r.2 = .ok (itemsOf r)) :
    renderAll .c rs = .ok ("\n".intercalate (rs.map fun r => Text.ofLines (cOf r).lines)) := by
  refine renderAll_of_items fun r hr => ?_
  simp only [render, h r hr]
  rfl

/-- The whole text in Rust. -/
theorem renderAll_rust (h : ∀ r ∈ rs, items? r.1 r.2 = .ok (itemsOf r)) :
    renderAll .rust rs = .ok ("\n".intercalate (rs.map fun r => Text.ofLines (rustOf r).lines)) := by
  refine renderAll_of_items fun r hr => ?_
  simp only [render, h r hr]
  rfl

/-! ### Limits -/

/-- The layout of a record has no leading padding and ends at a multiple of its alignment. -/
theorem MadeOf.whole (h : MadeOf known r) : r.2.shape.Whole := by
  obtain ⟨head, _, -, hlayout, -⟩ := h
  exact RecordLayout.whole_of_compute head.abi.cap_isPowerOfTwo hlayout

/-- The members of a record are measured as they were laid out, if the records they are made of are
known. -/
theorem fits_of_described {parts : List Part}
    (hparts : ∀ p ∈ parts, Described p.member.type p.shape p.records ∧ p.records ⊆ known)
    (hscope : Knows scope known) : ∀ p ∈ parts, Fits scope p := by
  intro p hp
  obtain ⟨hdescribed, hsub⟩ := hparts p hp
  exact ⟨hdescribed.whole, measure?_of_described hdescribed fun q hq => hscope q (hsub hq)⟩

/-- Limited to the alignment of its layout, a record gets its layout. -/
theorem MadeOf.compile?_limited (h : MadeOf known r) (hscope : Knows scope known) :
    compile? (some r.2.shape.align) scope (itemsOf r) = some (compiledOf r.2) := by
  have hpos := h.whole.pos
  obtain ⟨head, parts, hdef, hlayout, hparts⟩ := h
  have hfits := fits_of_described hparts hscope
  rw [itemsOf, hdef]
  exact compile?_arrange head.abi.cap_isPowerOfTwo (min_eq_left hpos) hlayout hfits fun _ _ => rfl

/-- **In C** the limit is the alignment of the record, so a compiler finds the layout again. -/
theorem compile?_c (h : MadeOf known r) (hscope : Knows scope known) :
    compile? (cOf r).declaration.limit scope (itemsOf r) = some (compiledOf r.2) := by
  have hlimit : (cOf r).declaration.limit = some r.2.shape.align := by
    show some (if r.2.shape.packed then 1 else r.2.shape.align) = _
    split
    next hpacked => rw [h.whole.packed hpacked]
    next => rfl
  rw [hlimit]
  exact h.compile?_limited hscope

/-! ### Records in records that are less aligned -/

/-- The record has a member that is made of a more aligned one of these records. -/
def Overaligned (rs : List (RecordDef × RecordLayout)) (r : RecordDef × RecordLayout) : Prop :=
  ∃ m ∈ r.1.members, ∃ r' ∈ rs,
    m.type.base = .named r'.1.name ∧ r.2.shape.align < r'.2.shape.align

/-- Only which records there are matters, and not their order. -/
theorem overaligned_congr {ds : List (RecordDef × RecordLayout)} (h : ∀ r, r ∈ ds ↔ r ∈ rs) :
    Overaligned ds r ↔ Overaligned rs r := by
  simp only [Overaligned, h]

/-- A scalar is naturally aligned to its width, and so is an array of them. -/
theorem naturalAlign?_repeated (type : ScalarType) (count : Nat) :
    RustDeclaration.naturalAlign? ((MemberType.scalar type).repeated count) = some type.width := by
  unfold MemberType.repeated
  split
  · rfl
  · rfl

/-- The natural alignment of a plain leaf is the one it was laid out with. -/
theorem naturalAlign?_of_leaf {kind : Leaf} {s : Shape} (plain : kind.Plain)
    (h : kind.shape? = .ok s) : RustDeclaration.naturalAlign? kind.memberType = some s.align := by
  obtain ⟨type, count, hrun, htype⟩ := Leaf.exists_run plain h
  rw [(ScalarType.whole_of_run? hrun).2.2]
  rcases htype with htype | htype | ⟨rfl, rfl, pointee, htype⟩
  · rw [htype, naturalAlign?_repeated]
  · rw [htype]
    rfl
  · rw [htype]
    rfl

/-- The alignment of a type is its natural one, or that of the record that it is made of. -/
theorem align_of_described {t : MemberType} {s : Shape} (h : Described t s rs) :
    RustDeclaration.naturalAlign? t = some s.align ∨
      ∃ r ∈ rs, t.base = .named r.1.name ∧ r.2.shape.align = s.align := by
  induction h with
  | leaf plain shape => exact .inl (naturalAlign?_of_leaf plain shape)
  | record => exact .inr ⟨_, List.mem_append_right _ (List.mem_singleton_self _), rfl, rfl⟩
  | array inner shape ih =>
    obtain ⟨-, -, halign⟩ := Node.whole_of_arrayShape? inner.whole shape
    rw [halign]
    exact ih

/-- A member that is made of a record has no natural alignment that the declaration would look at. -/
theorem naturalAlign?_of_named {t : MemberType} {name : String} (h : t.base = .named name) :
    RustDeclaration.naturalAlign? t = none := by
  rw [RustDeclaration.naturalAlign?, h]

/-- With the natural representation no member is above the alignment of the record, members that are
made of records aside. -/
theorem align_le_of_natural (h : (rustOf r).representation = .natural) {m : Member}
    (hm : m ∈ r.1.members) {align : Nat} (halign : RustDeclaration.naturalAlign? m.type = some align) :
    align ≤ r.2.shape.align := by
  have hrepresentation : RustDeclaration.representationOf r.1 r.2 = .natural := h
  -- a packed record is declared packed, and one with a member above it gets a limit
  unfold RustDeclaration.representationOf at hrepresentation
  split at hrepresentation
  next => cases hrepresentation
  next =>
    split at hrepresentation
    next => cases hrepresentation
    next hany =>
      by_contra hlt
      refine hany (List.any_eq_true.2 ⟨m, hm, ?_⟩)
      rw [RustDeclaration.underaligned, halign]
      exact decide_eq_true (Nat.lt_of_not_le hlt)

/-- Any other representation limits to the alignment of the record. -/
theorem limit_of_ne_natural (hwhole : r.2.shape.Whole) (h : (rustOf r).representation ≠ .natural) :
    (rustOf r).declaration.limit = some r.2.shape.align := by
  have hrepresentation : RustDeclaration.representationOf r.1 r.2 ≠ .natural := h
  show (RustDeclaration.representationOf r.1 r.2).limit = _
  unfold RustDeclaration.representationOf at hrepresentation ⊢
  split
  next hpacked => rw [hwhole.packed hpacked, Representation.limit]
  next hpacked =>
    rw [if_neg hpacked] at hrepresentation
    split
    next => rfl
    next hany => exact absurd (if_neg hany) hrepresentation

/-- In a record that keeps its natural alignment, only a more aligned record can be above it. -/
theorem forall_align_le_iff (hall : Unambiguous all) (hnatural : (rustOf r).representation = .natural)
    {head : RecordHead} {parts : List Part} (hdef : r.1 = head.definition parts)
    (hparts : ∀ p ∈ parts, Described p.member.type p.shape p.records ∧ p.records ⊆ all) :
    (∀ p ∈ parts, p.shape.align ≤ r.2.shape.align) ↔ ¬ Overaligned all r := by
  have hmembers : r.1.members = parts.map Part.member := by rw [hdef, RecordHead.definition]
  constructor
  · rintro hle ⟨m, hm, r', hr', hbase, hlt⟩
    rw [hmembers] at hm
    obtain ⟨p, hp, rfl⟩ := List.mem_map.1 hm
    obtain ⟨hdescribed, hsub⟩ := hparts p hp
    rcases align_of_described hdescribed with halign | ⟨q, hq, hname, halign⟩
    · rw [naturalAlign?_of_named hbase] at halign
      cases halign
    · -- the part is made of a record of that name, and there is only one
      have hsame : q.1.name = r'.1.name := MemberType.named.inj (hname.symm.trans hbase)
      rw [hall q (hsub hq) r' hr' hsame] at halign
      exact absurd hlt (Nat.not_lt.2 (halign ▸ hle p hp))
  · intro hover p hp
    obtain ⟨hdescribed, hsub⟩ := hparts p hp
    have hm : p.member ∈ r.1.members := hmembers ▸ List.mem_map_of_mem hp
    rcases align_of_described hdescribed with halign | ⟨q, hq, hname, halign⟩
    · -- a scalar is no more aligned than the record, or this one would not keep its natural alignment
      exact align_le_of_natural hnatural hm halign
    · by_contra hlt
      exact hover ⟨p.member, hm, q, hsub hq, hname, halign ▸ Nat.lt_of_not_le hlt⟩

/-- **In Rust** a record without a limit loses its layout exactly if a more aligned record is inside. -/
theorem compile?_rust_iff (hall : Unambiguous all) (h : MadeOf known r) (hknown : known ⊆ all)
    (hscope : Knows scope known) :
    compile? (rustOf r).declaration.limit scope (itemsOf r) = some (compiledOf r.2) ↔
      (Overaligned all r → (rustOf r).representation ≠ .natural) := by
  -- only a natural representation leaves members where they want to be
  by_cases hnatural : (rustOf r).representation = .natural
  · have hlimit : (rustOf r).declaration.limit = none := by
      show (rustOf r).representation.limit = none
      rw [hnatural, Representation.limit]
    obtain ⟨head, parts, hdef, hlayout, hparts⟩ := h
    have hfits := fits_of_described hparts hscope
    have hdescribed : ∀ p ∈ parts, Described p.member.type p.shape p.records ∧ p.records ⊆ all :=
      fun p hp => ⟨(hparts p hp).1, fun q hq => hknown ((hparts p hp).2 hq)⟩
    rw [hlimit, itemsOf, hdef, RecordHead.definition,
      compile?_natural_iff head.abi.cap_isPowerOfTwo hlayout hfits,
      forall_align_le_iff hall hnatural hdef hdescribed]
    exact ⟨fun hover h => absurd h hover, fun h hover => h hover hnatural⟩
  · rw [limit_of_ne_natural h.whole hnatural]
    exact ⟨fun _ _ => hnatural, fun _ => h.compile?_limited hscope⟩

end NativeLayout.Source
