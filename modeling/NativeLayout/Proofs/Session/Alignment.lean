import NativeLayout.Proofs.Session.Rooted
import NativeLayout.Proofs.Tree.Alignment

namespace NativeLayout

/-!
# Alignment in memory

* `World.Reachable.aligned` — in a tree that got storage as a whole, every structure is at a multiple
  of its alignment, cut off at the caps of the records around it.
* `World.Reachable.value_aligned` — how leading padding changes that: a value on its own, or in an
  array on its own, is aligned exactly if its leading padding is; the value of a field is always.
-/

open Node

namespace Node

variable {n c : Node} {s : Shape} {p : Placement} {k : Nat}

/-- What starts at an aligned address has its value behind its leading padding. -/
theorem Rooted.value_iff (h : n.Rooted s p) : s.align ∣ p.address ↔ s.align ∣ s.pre := by
  obtain ⟨start, hstart, hdvd⟩ := h.start
  rw [Placement.address, hstart, ← Nat.add_assoc]
  exact Nat.dvd_add_right hdvd

/-- A rooted structure without leading padding is at a multiple of its alignment. -/
theorem Rooted.dvd_address (h : n.Rooted s p) (hpre : s.pre = 0) : s.align ∣ p.address :=
  h.value_iff.2 (hpre ▸ Nat.dvd_zero _)

/-- The elements of a rooted array start at aligned addresses, too. -/
theorem Rooted.element_iff {status : Status ArrayPlan} {head : ArrayHead} {template : Node}
    {alternatives : List (Nat × Node)} {staged : List Node} {elements : List (Option Node)}
    (h : (Node.array status head template alternatives staged elements).Rooted s p)
    (hn : (Node.array status head template alternatives staged elements).Sound)
    (hc : (Node.array status head template alternatives staged elements).child? k = some c) :
    ∃ u q, c.status = .allocated u q ∧ (u.align ∣ q.address ↔ u.align ∣ u.pre) := by
  have self : ArraySound status head template alternatives staged elements := hn.self_of
  have hstatus := h.status
  cases status with
  | unallocated => cases hstatus
  | allocatable => cases hstatus
  | allocated plan place =>
    cases hstatus
    have he : elements[k]? = some (some c) := Option.join_eq_some_iff.1 hc
    obtain ⟨hu, halign, hstride⟩ := element_aligned self he (hn.child hc).self_of
    obtain ⟨-, hplace⟩ := (self.placed plan p rfl).2 k c he
    refine ⟨_, _, status_eq_of hu hplace, ?_⟩
    -- the array has no leading padding, and the strides in front of the element are aligned
    have hpre : plan.shape.pre = 0 := (arrayShape?_eq_ok (self.plan plan rfl).2).2.1
    have hbefore : plan.element.align ∣ p.address + k * plan.stride :=
      Nat.dvd_add (halign ▸ h.dvd_address hpre) (Nat.dvd_mul_left_of_dvd hstride k)
    show plan.element.align ∣ p.region.base + (p.offset + k * plan.stride + plan.element.pre) ↔ _
    rw [Nat.add_assoc p.offset, ← Nat.add_assoc p.region.base,
      ← Nat.add_assoc (p.region.base + p.offset)]
    exact Nat.dvd_add_right hbefore

/-- The fields of a rooted record that is not packed are aligned, up to its cap. -/
theorem Rooted.dvd_field {status : Status RecordLayout} {head : RecordHead}
    {fields : List (Field Node)} (h : (Node.record status head fields).Rooted s p)
    (hn : (Node.record status head fields).Sound)
    (hc : (Node.record status head fields).child? k = some c) :
    ∃ u q, c.status = .allocated u q ∧ (u.align ≤ head.cap → u.align ∣ q.address) := by
  obtain ⟨u, offset, hoffset, hstands⟩ := (encloses_of_consistent hn.self_of h.status).stands k c hc
  have hcs := hstands.status_of hc
  refine ⟨u, _, hcs, fun hle => ?_⟩
  have hu := shape?_of_status hcs
  have hcc := (hn.child hc).self_of
  obtain ⟨hrecord, hdvd⟩ := child_aligned hn.self_of h.status hc hcc hu hoffset
    (.inr ⟨_, _, _, rfl⟩)
  have hkept : (Node.record status head fields).ownCaps.foldr min u.align = u.align :=
    min_eq_right hle
  rw [hkept] at hrecord hdvd
  have hs := shape?_of_status h.status
  have hpre := (align_and_pre hn.self_of hs).2 id
  -- the record starts at a multiple of its own alignment, which is one of the field's
  have hself := Word.dvd_of_isPowerOfTwo (align_isPowerOfTwo hcc hu) (align_isPowerOfTwo hn.self_of hs)
    hrecord
  show u.align ∣ p.region.base + (p.offset + offset)
  rw [← Nat.add_assoc]
  exact Nat.dvd_add (Nat.dvd_trans hself (h.dvd_address hpre)) hdvd

end Node

namespace World

variable {w w' w'' : World} {i : Nat} {n m : Node} {route : List Nat}

/-- A tree that got storage as a whole and in which leaves with leading padding are fields of records:
at any later time, every structure in it is stored at a multiple of its alignment, cut off at the caps
of the records around it. -/
theorem Reachable.aligned (h : w.Reachable) (hroots : w.Roots i w') (hlater : w'.Later w'')
    (hn : w''.trees[i]? = some n) (hroot : ¬ n.Padded) (hpadded : n.PaddedInRecords)
    (hm : n.at? route = some m) :
    ∃ t q, m.status = .allocated t q ∧ (n.caps route).foldr min t.align ∣ q.address := by
  obtain ⟨n', s, p, hn', hsound, hrooted⟩ := h.rooted hroots hlater
  cases hn.symm.trans hn'
  have hpre := (align_and_pre hsound.self_of (shape?_of_status hrooted.status)).2 hroot
  have hnone : ∀ a ∈ ([] : List Nat), a.isPowerOfTwo := List.forall_mem_nil _
  exact aligned_at hsound hrooted.status hpadded hnone (hrooted.dvd_address hpre) hm

/-- An arena in which five bytes are used. -/
def usedArena : Arena := ⟨⟨1, 64, 128⟩, 5, [], []⟩

/-- Two numbers behind a byte, in a record that aligns to four bytes: the tree in the arena, with the
second number made. -/
def pushedNumbers : Node :=
  .record (.allocated ⟨⟨4, false, 0, 20, 0⟩, [0, 4], [0, 3]⟩ ⟨⟨1, 64, 128⟩, 8, .claimed⟩)
    ⟨"Numbers", .sysVI386, false, 0⟩
    [⟨0, "tag", .leaf (.allocated ⟨1, false, 0, 1, 0⟩ ⟨⟨1, 64, 128⟩, 8, .claimed⟩) (.scalars .u8 1)⟩,
      ⟨1, "items", .array (.allocated ⟨⟨8, false, 0, 16, 0⟩, 8, ⟨8, false, 0, 8, 0⟩,
          ⟨"double", .scalar .f64⟩, []⟩ ⟨⟨1, 64, 128⟩, 12, .claimed⟩) ⟨2, true, 2, none⟩
        (.ofLeaf (.scalars .f64 1)) [] []
        [none, some (.leaf (.allocated ⟨8, false, 0, 8, 0⟩ ⟨⟨1, 64, 128⟩, 20, .claimed⟩)
          (.scalars .f64 1))]⟩]

/-- The numbers are pushed by a reachable world, with their elements made later. -/
theorem exists_pushedNumbers : ∃ w w' w'' : World, w.Reachable ∧ w.Roots 3 w' ∧ w'.Later w'' ∧
    w''.trees[3]? = some pushedNumbers := by
  have byte := (Reachable.start 0).leaf (.scalars .u8 1)
  have number := byte.leaf (.scalars .f64 1)
  have array := number.uniform 2 true 1 rfl
  have record := array.record ⟨"Numbers", .sysVI386, false, 0⟩
  have first := record.field 3 0 "tag" rfl
  have both := first.field 3 2 "items" rfl
  exact ⟨_, _, _, both, .push usedArena rfl rfl,
    .single (.call 3 [.index 1] (c := .element 1) trivial), rfl⟩

/-- Nothing in them has padding in front of its value. -/
theorem not_padded_pushedNumbers : pushedNumbers.Forall fun m => ¬ m.Padded :=
  .record id (List.forall_mem_cons.2 ⟨.leaf id, List.forall_mem_singleton.2
    (.array id (.leaf id) (by simp) (by simp) (by rintro e (_ | ⟨_, _ | ⟨_, ⟨⟩⟩⟩); exact .leaf id))⟩)

/-- The second number is at a multiple of four, as the record around it wants it, though its own
alignment is eight. -/
theorem Reachable.aligned_numbers : ∃ (w w' w'' : World) (m : Node) (q : Placement),
    w.Reachable ∧ w.Roots 3 w' ∧ w'.Later w'' ∧ w''.trees[3]? = some pushedNumbers ∧
      ¬ pushedNumbers.Padded ∧ pushedNumbers.PaddedInRecords ∧ pushedNumbers.at? [1, 1] = some m ∧
      m.status = .allocated ⟨8, false, 0, 8, 0⟩ q ∧ 4 ∣ q.address ∧ ¬ 8 ∣ q.address := by
  obtain ⟨w, w', w'', hw, hroots, hlater, hn⟩ := exists_pushedNumbers
  have hpadded : pushedNumbers.PaddedInRecords := fun route m k c hm hc hlead =>
    absurd hlead ((not_padded_pushedNumbers.at hm).child hc).self_of
  obtain ⟨m, hm⟩ : ∃ m, pushedNumbers.at? [1, 1] = some m := ⟨_, rfl⟩
  obtain ⟨t, q, hstatus, hq⟩ := hw.aligned hroots hlater hn not_padded_pushedNumbers.self_of hpadded hm
  cases hm
  cases hstatus
  exact ⟨w, w', w'', _, _, hw, hroots, hlater, hn, not_padded_pushedNumbers.self_of, hpadded, rfl, rfl,
    hq, by decide⟩

/-- A tree that got storage as a whole, at any later time: its value, and the value of every element
if it is an array, is aligned exactly if its leading padding is a multiple of its alignment.  The
value of every field is aligned whatever its leading padding, if it is a record that is not packed
and leaves fields up to 16 bytes of alignment. -/
theorem Reachable.value_aligned (h : w.Reachable) (hroots : w.Roots i w') (hlater : w'.Later w'')
    (hn : w''.trees[i]? = some n) :
    (∃ s p, n.status = .allocated s p ∧ (s.align ∣ p.address ↔ s.align ∣ s.pre)) ∧
    (∀ status head template alternatives staged elements k c,
      n = .array status head template alternatives staged elements → n.child? k = some c →
        ∃ s p, c.status = .allocated s p ∧ (s.align ∣ p.address ↔ s.align ∣ s.pre)) ∧
    ∀ status head fields k c, n = .record status head fields → head.packed = false →
      head.abi = .msvcX64 → n.child? k = some c →
        ∃ s p, c.status = .allocated s p ∧ (s.align ≤ 16 → s.align ∣ p.address) := by
  obtain ⟨n', s, p, hn', hsound, hrooted⟩ := h.rooted hroots hlater
  cases hn.symm.trans hn'
  refine ⟨⟨s, p, hrooted.status, hrooted.value_iff⟩, ?_, ?_⟩
  · rintro status head template alternatives staged elements k c rfl hc
    exact hrooted.element_iff hsound hc
  · rintro status head fields k c rfl hpacked habi hc
    -- the one cap that the fields of such a record have
    have hcap : head.cap = 16 := by
      rw [RecordHead.cap, hpacked, habi]
      rfl
    exact hcap ▸ hrooted.dvd_field hsound hc

/-- Four bytes that want to be aligned to four, with one byte in front of them. -/
def guarded : Leaf := .custom "Guarded" ⟨4, false, 1, 4, 0⟩

/-- On their own they are not aligned; as the field of a record they are. -/
theorem Reachable.value_aligned_guarded : ∃ (w w' v v' : World) (n c : Node) (p q : Placement),
    w.Reachable ∧ w.Roots 0 w' ∧
      w'.trees[0]? = some (.leaf (.allocated ⟨4, false, 1, 4, 0⟩ p) guarded) ∧ ¬ 4 ∣ p.address ∧
      v.Reachable ∧ v.Roots 1 v' ∧ v'.trees[1]? = some n ∧ n.child? 0 = some c ∧
      c.status = .allocated ⟨4, false, 1, 4, 0⟩ q ∧ 4 ∣ q.address := by
  have leaf := (Reachable.start 0).leaf guarded
  have record := leaf.record ⟨"Guard", .msvcX64, false, 0⟩
  have filled := record.field 1 0 "value" rfl
  have alone := leaf.call 0 [] (c := .resolve) trivial
  have inside := filled.call 1 [] (c := .resolve) trivial
  -- one byte of padding in front is no multiple of four
  obtain ⟨⟨s, p, hs, hp⟩, -, -⟩ := alone.value_aligned (.allocate (i := 0) rfl rfl) .refl rfl
  obtain ⟨-, -, hfield⟩ := inside.value_aligned (.allocate (i := 1) rfl rfl) .refl rfl
  obtain ⟨t, q, ht, hq⟩ := hfield _ _ _ 0 _ rfl rfl rfl rfl
  cases hs
  cases ht
  exact ⟨_, _, _, _, _, _, _, _, alone, .allocate (i := 0) rfl rfl, rfl, by rw [hp]; decide, inside,
    .allocate (i := 1) rfl rfl, rfl, rfl, rfl, hq (by decide)⟩

end World

end NativeLayout
