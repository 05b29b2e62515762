import NativeLayout.Proofs.Arena.Push
import NativeLayout.Proofs.Tree.Leaves

namespace NativeLayout

/-!
# Alignment inside structures

Offsets are aligned from the start of the structure around them, so a structure keeps only as much of
its alignment as the records around it leave.

* `RecordLayout.dvd_offset` — every field of a layout is aligned within its record.
* `Node.caps` — the caps of the records around a structure.
* `Node.Padded`, `Node.align_and_pre` — only leaves that ask for it have leading padding.
* `Node.child_aligned` — one step down: a child stands at a multiple of what it keeps of its alignment,
  which is no more than the structure around it has.
* `Node.PaddedInRecords`, `Node.aligned_at` — where only fields have leading padding, whatever is in
  the tree of an aligned structure is aligned, up to the caps.
-/

namespace Word

variable {a b : Nat} {caps : List Nat}

/-! ### Alignments that are cut off -/

/-- The least of some powers of two is one. -/
theorem isPowerOfTwo_foldr_min (hcaps : ∀ c ∈ caps, c.isPowerOfTwo) (ha : a.isPowerOfTwo) :
    (caps.foldr min a).isPowerOfTwo := by
  induction caps with
  | nil => exact ha
  | cons c caps ih =>
    obtain ⟨hc, hrest⟩ := List.forall_mem_cons.1 hcaps
    rw [List.foldr_cons]
    rcases min_choice c (caps.foldr min a) with hmin | hmin
    · rwa [hmin]
    · rw [hmin]
      exact ih hrest

/-- Limits only lower an alignment. -/
theorem foldr_min_le (caps : List Nat) (a : Nat) : caps.foldr min a ≤ a := by
  induction caps with
  | nil => exact le_rfl
  | cons c caps ih => exact le_trans (min_le_right _ _) ih

/-- A lower alignment stays lower behind the same limits. -/
theorem foldr_min_mono (caps : List Nat) (h : a ≤ b) : caps.foldr min a ≤ caps.foldr min b := by
  induction caps with
  | nil => exact h
  | cons c caps ih => exact min_le_min_left c ih

end Word

/-! ### Layouts -/

namespace RecordLayout

variable {cap start k offset : Nat} {packed : Bool} {typeName : String} {shapes : List Shape}
  {placed : Placed} {l : RecordLayout} {s : Shape}

/-- The pass over the fields gives each an offset that is a multiple of its limited alignment. -/
theorem dvd_offset_of_placeFields (hcap : cap.isPowerOfTwo)
    (h : placeFields cap packed start shapes = .ok placed) (hs : shapes[k]? = some s)
    (ho : placed.offsets[k]? = some offset) : fieldAlign cap packed s ∣ offset := by
  induction shapes generalizing start placed k with
  | nil => simp at hs
  | cons t shapes ih =>
    obtain ⟨hpow, first, stop, later, hfirst, -, hlater, rfl⟩ := placeFields_cons_eq_ok_iff.1 h
    cases k with
    | zero =>
      cases hs
      cases ho
      rw [eq_roundUp_of_bind hcap hpow hfirst]
      exact Word.dvd_roundUp _ _
    | succ k => exact ih hlater (by simpa using hs) (by simpa using ho)

/-- Every field is aligned within the record, up to the cap. -/
theorem dvd_offset (hcap : cap.isPowerOfTwo) (h : compute cap packed typeName shapes = .ok l)
    (hs : shapes[k]? = some s) (ho : l.offsets[k]? = some offset) :
    fieldAlign cap packed s ∣ offset := by
  obtain ⟨placed, hplaced, -, rfl⟩ := compute_eq_ok hcap h
  exact dvd_offset_of_placeFields hcap hplaced hs ho

end RecordLayout

/-- The largest alignment that the record leaves a field. -/
def RecordHead.cap (head : RecordHead) : Nat :=
  if head.packed then 1 else head.abi.cap

/-- A record limits alignments to a power of two, packed or not. -/
theorem RecordHead.cap_isPowerOfTwo (head : RecordHead) : head.cap.isPowerOfTwo := by
  unfold cap
  split
  · exact ⟨0, rfl⟩
  · exact head.abi.cap_isPowerOfTwo

/-- Packing is a limit as well, namely to one. -/
theorem RecordHead.fieldAlign_eq (head : RecordHead) {s : Shape} (hs : s.align.isPowerOfTwo) :
    RecordLayout.fieldAlign head.abi.cap head.packed s = min head.cap s.align := by
  unfold RecordLayout.fieldAlign cap
  split
  · exact (min_eq_left (Word.pos_of_isPowerOfTwo hs)).symm
  · exact min_comm _ _

namespace Node

/-- The cap of a record; other structures have none. -/
def ownCaps : Node → List Nat
  | .record _ head _ => [head.cap]
  | _ => []

/-- The caps of the records around the structure at the end of a route, outermost first. -/
def caps : List Nat → Node → List Nat
  | [], _ => []
  | k :: route, n => n.ownCaps ++ ((n.child? k).map (caps route)).getD []

/-- A leaf whose owner asked for leading padding. -/
def Padded : Node → Prop
  | .leaf _ (.custom _ wanted _) => wanted.packed = false ∧ wanted.pre ≠ 0
  | _ => False

variable {n m c : Node} {s u : Shape} {p : Placement} {k offset : Nat} {route : List Nat}

/-- What a structure limits its children to is a power of two. -/
theorem isPowerOfTwo_of_mem_ownCaps (n : Node) : ∀ a ∈ n.ownCaps, a.isPowerOfTwo := by
  cases n with
  | leaf => simp [ownCaps]
  | record status head fields => exact List.forall_mem_singleton.2 head.cap_isPowerOfTwo
  | array => simp [ownCaps]

/-! ### What the shape of a structure tells -/

/-- A packed structure may start anywhere, and only leaves that ask for it have leading padding. -/
theorem align_and_pre (hn : n.Consistent) (hs : n.shape? = some s) :
    (s.packed = true → s.align = 1) ∧ (¬ n.Padded → s.pre = 0) := by
  cases n with
  | leaf status kind =>
    cases kind with
    | custom name wanted type =>
      -- the user of a leaf may ask for padding in front, unless the leaf is packed
      rcases Leaf.shape?_custom_eq_ok_iff.1 (hn s hs) with ⟨-, rfl⟩ | ⟨hpacked, hshape⟩
      · exact ⟨fun _ => rfl, fun _ => rfl⟩
      · obtain ⟨-, -, rfl⟩ := Shape.padded?_eq_ok_iff.1 hshape
        refine ⟨by rintro ⟨⟩, fun h => ?_⟩
        by_contra hpre
        exact h ⟨hpacked, hpre⟩
    | scalars | text | enum | pointer =>
      have hwhole := whole_of_consistent hn hs (by rintro _ _ ⟨⟩; trivial)
      exact ⟨hwhole.packed, fun _ => hwhole.pre⟩
  | record | array =>
    have hwhole := whole_of_consistent hn hs (by rintro _ _ ⟨⟩)
    exact ⟨hwhole.packed, fun _ => hwhole.pre⟩

/-! ### One step down -/

/-- A field stands at a multiple of its alignment, up to the cap of the record, and the record is at
least as aligned. -/
theorem field_aligned {l : RecordLayout} {head : RecordHead} {fields : List (Field Node)}
    {f : Field Node} (self : RecordSound (.allocated l p) head fields) (hf : fields[k]? = some f)
    (hu : f.child.shape? = some u) (ho : l.offsets[k]? = some offset) :
    min head.cap u.align ≤ l.shape.align ∧ min head.cap u.align ∣ offset := by
  obtain ⟨shapes, hshapes, hlayout⟩ := self.layout l rfl
  obtain ⟨v, hv, hfv⟩ := forall₂_getElem? hshapes.flip hf
  cases hu.symm.trans hfv
  have hcap := head.abi.cap_isPowerOfTwo
  obtain ⟨placed, hplaced, -, rfl⟩ := RecordLayout.compute_eq_ok hcap hlayout
  have hmem := List.mem_of_getElem? hv
  have hpow := RecordLayout.isPowerOfTwo_of_placeFields hplaced u hmem
  rw [← head.fieldAlign_eq hpow]
  constructor
  · show _ ≤ placed.align
    rw [RecordLayout.align_of_placeFields hplaced]
    exact RecordLayout.fieldAlign_le_recordAlign head.abi.cap head.packed hmem
  · exact RecordLayout.dvd_offset hcap hlayout hv ho

/-- An array is as aligned as its elements, and so is the distance from one to the next. -/
theorem element_aligned {plan : ArrayPlan} {head : ArrayHead} {template : Node}
    {alternatives : List (Nat × Node)} {staged : List Node} {elements : List (Option Node)} {e : Node}
    (self : ArraySound (.allocated plan p) head template alternatives staged elements)
    (he : elements[k]? = some (some e)) (hsound : e.Consistent) :
    e.shape? = some plan.element ∧ plan.element.align = plan.shape.align ∧
      plan.element.align ∣ plan.stride := by
  obtain ⟨hshape, -⟩ := (self.placed plan p rfl).2 k e he
  obtain ⟨hpacked, -⟩ := align_and_pre hsound hshape
  obtain ⟨hstride, hplan⟩ := eq_of_arrayShape? (self.plan plan rfl).2
  refine ⟨hshape, ?_⟩
  rcases hplan with ⟨hp, heq⟩ | ⟨hp, hpow, heq⟩
  · rw [hpacked hp, heq]
    exact ⟨rfl, Nat.one_dvd _⟩
  · -- elements that are not packed stand at multiples of their own alignment
    refine ⟨by rw [heq], ?_⟩
    rw [stride?, hp] at hstride
    rw [Word.eq_roundUp_of_roundUp? hpow hstride]
    exact Word.dvd_roundUp _ _

/-- A child stands at a multiple of what it keeps of its alignment, and the structure around it is at
least as aligned. -/
theorem child_aligned (hn : n.Consistent) (hs : n.status = .allocated s p) (hc : n.child? k = some c)
    (hcc : c.Consistent) (hu : c.shape? = some u) (ho : n.childOffset? k = some offset)
    (hpre : u.pre = 0 ∨ ∃ status head fields, n = .record status head fields) :
    n.ownCaps.foldr min u.align ≤ s.align ∧ n.ownCaps.foldr min u.align ∣ offset := by
  cases n with
  | leaf => cases hc
  | record status head fields =>
    obtain ⟨f, hf, rfl⟩ := Option.map_eq_some_iff.1 hc
    cases status with
    | unallocated => cases hs
    | allocatable => cases hs
    | allocated l q =>
      cases hs
      exact field_aligned hn hf hu ho
  | array status head template alternatives staged elements =>
    cases status with
    | unallocated => cases hs
    | allocatable => cases hs
    | allocated plan q =>
      cases hs
      obtain ⟨hshape, halign, hstride⟩ := element_aligned hn (Option.join_eq_some_iff.1 hc) hcc
      cases hu.symm.trans hshape
      have hoffset : k * plan.stride + plan.element.pre = offset := Option.some.inj ho
      -- an element in an array has no padding in front, so it starts with its slot
      rw [hpre.resolve_right (by rintro ⟨_, _, _, ⟨⟩⟩), Nat.add_zero] at hoffset
      exact ⟨Nat.le_of_eq halign, hoffset ▸ Nat.dvd_mul_left_of_dvd hstride k⟩

/-! ### The whole way down -/

/-- Leaves with leading padding are fields of records, wherever they are in the tree. -/
def PaddedInRecords (n : Node) : Prop :=
  ∀ route m k c, n.at? route = some m → m.child? k = some c → c.Padded →
    ∃ status head fields, m = .record status head fields

/-- The condition passes to everything inside. -/
theorem PaddedInRecords.child (h : n.PaddedInRecords) (hc : n.child? k = some c) :
    c.PaddedInRecords :=
  fun route m j d hm => h (k :: route) m j d (by rw [at?_cons, hc]; exact hm)

/-- Whatever is in the tree of an aligned structure is aligned, up to the caps of the records around
it. -/
theorem aligned_at (hn : n.Sound) (hs : n.status = .allocated s p) (hpadded : n.PaddedInRecords)
    {outer : List Nat} (houter : ∀ a ∈ outer, a.isPowerOfTwo)
    (h : outer.foldr min s.align ∣ p.address) (hm : n.at? route = some m) :
    ∃ t q, m.status = .allocated t q ∧ (outer ++ n.caps route).foldr min t.align ∣ q.address := by
  -- down the route, with the caps that were met so far
  induction route generalizing n s p outer with
  | nil =>
    cases hm
    refine ⟨s, p, hs, ?_⟩
    rwa [caps, List.append_nil]
  | cons k route ih =>
    obtain ⟨c, hc, hm⟩ := Option.bind_eq_some_iff.1 hm
    obtain ⟨u, offset, hoffset, hstands⟩ := (encloses_of_consistent hn.self_of hs).stands k c hc
    have hchild := hn.child hc
    have hcs := hstands.status_of hc
    have hu := shape?_of_status hcs
    have hpre : u.pre = 0 ∨ ∃ status head fields, n = .record status head fields := by
      by_cases hlead : c.Padded
      · exact .inr (hpadded [] n k c (at?_nil n) hc hlead)
      · exact .inl ((align_and_pre hchild.self_of hu).2 hlead)
    obtain ⟨hle, hdvd⟩ := child_aligned hn.self_of hs hc hchild.self_of hu hoffset hpre
    -- all of these are powers of two, so the smaller ones divide the larger ones: what the caps leave
    -- of the child's alignment divides both the address of the structure and the child's offset
    have hcaps := n.isPowerOfTwo_of_mem_ownCaps
    have hkept := Word.isPowerOfTwo_foldr_min hcaps (align_isPowerOfTwo hchild.self_of hu)
    have hall := Word.isPowerOfTwo_foldr_min houter hkept
    have hself := Word.isPowerOfTwo_foldr_min houter
      (align_isPowerOfTwo hn.self_of (shape?_of_status hs))
    have hstart : outer.foldr min (n.ownCaps.foldr min u.align) ∣ p.address :=
      Nat.dvd_trans (Word.dvd_of_isPowerOfTwo hall hself (Word.foldr_min_mono outer hle)) h
    have hinside : outer.foldr min (n.ownCaps.foldr min u.align) ∣ offset :=
      Nat.dvd_trans (Word.dvd_of_isPowerOfTwo hall hkept (Word.foldr_min_le outer _)) hdvd
    have hall' : (outer ++ n.ownCaps).foldr min u.align ∣ p.region.base + (p.offset + offset) := by
      rw [List.foldr_append, ← Nat.add_assoc]
      exact Nat.dvd_add hstart hinside
    obtain ⟨t, q, hms, hq⟩ := ih hchild hcs (hpadded.child hc)
      (List.forall_mem_append.2 ⟨houter, hcaps⟩) hall' hm
    refine ⟨t, q, hms, ?_⟩
    rwa [caps, hc, Option.map_some, Option.getD_some, ← List.append_assoc]

end Node

end NativeLayout
