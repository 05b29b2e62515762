import NativeLayout.Proofs.Arena.Discipline

namespace NativeLayout

/-!
# Which structures an arena takes for its newest push

An arena knows a structure by nothing but where it is stored.

* `Node.placement?_child` — a child of a stored structure starts as far behind it as its layout or its
  plan says, and the first child starts with it if it has no leading padding (`Node.childOffset?_zero`).
* `Arena.Block.Holds` — a structure is stored where the value of a block starts.
* `Arena.History.Arises.selective` — a checked pop takes exactly these structures for the one of the
  newest push: the pushed one, but also parts at its start, and earlier ones of which no byte is left.
-/

namespace Node

variable {m c : Node} {shape s : Shape} {place : Placement} {k offset : Nat}

/-- A child of a stored structure starts as far behind it as its layout or its plan says. -/
theorem placement?_child (hm : m.Consistent) (hplace : m.status = .allocated shape place)
    (hc : m.child? k = some c) (hoffset : m.childOffset? k = some offset) :
    c.placement? = some ⟨place.region, place.offset + offset, .claimed⟩ := by
  obtain ⟨s, offset', hoffset', hstands⟩ := (encloses_of_consistent hm hplace).stands k c hc
  obtain rfl : offset' = offset := Option.some.inj (hoffset'.symm.trans hoffset)
  obtain ⟨c', hc', -, hplacement⟩ := hstands.child
  obtain rfl : c' = c := Option.some.inj (hc'.symm.trans hc)
  exact hplacement

/-- Without leading padding the first child starts with the structure around it. -/
theorem childOffset?_zero (hm : m.Consistent) (hplace : m.status = .allocated shape place)
    (hc : m.child? 0 = some c) (hs : c.shape? = some s) (hpre : s.pre = 0) :
    m.childOffset? 0 = some 0 := by
  cases m with
  | leaf => cases hc
  | record status head fields =>
    cases status with
    | unallocated => cases hplace
    | allocatable => cases hplace
    | allocated l place =>
      obtain ⟨shapes, hshapes, hlayout⟩ := RecordSound.layout hm l rfl
      obtain ⟨placed, hplaced, -, rfl⟩ :=
        RecordLayout.compute_eq_ok head.abi.cap_isPowerOfTwo hlayout
      obtain ⟨f, hf, rfl⟩ := Option.map_eq_some_iff.1 hc
      cases hshapes with
      | nil => cases hf
      | @cons g t fields shapes hg _ =>
        cases hf
        obtain rfl : t = s := Option.some.inj (hg.symm.trans hs)
        -- the pass over the fields starts at zero, which is a multiple of any alignment
        obtain ⟨hpow, first, stop, later, hfirst, -, -, rfl⟩ :=
          RecordLayout.placeFields_cons_eq_ok_iff.1 hplaced
        have hround := RecordLayout.eq_roundUp_of_bind head.abi.cap_isPowerOfTwo hpow hfirst
        have hpos : 0 < RecordLayout.fieldAlign head.abi.cap head.packed t :=
          Word.pos_of_isPowerOfTwo
            (RecordLayout.fieldAlign_isPowerOfTwo head.packed head.abi.cap_isPowerOfTwo hpow)
        rw [hpre, Word.roundUp_of_dvd hpos (Nat.dvd_zero _)] at hround
        rw [hround]
        rfl
  | array status head template alternatives staged elements =>
    cases status with
    | unallocated => cases hplace
    | allocatable => cases hplace
    | allocated plan place =>
      obtain ⟨-, hat⟩ := ArraySound.placed hm plan place rfl
      obtain ⟨hshape, -⟩ := hat 0 c (Option.join_eq_some_iff.1 hc)
      obtain rfl : plan.element = s := Option.some.inj (hshape.symm.trans hs)
      rw [childOffset?, Status.plan?, Option.map_some, hpre, Nat.zero_mul]

end Node

namespace Arena

/-- A structure is stored where the value of the block starts. -/
def Block.Holds (b : Block) (n : Node) : Prop :=
  ∃ p, n.placement? = some p ∧ p.region.number = b.place.region.number ∧ p.offset = b.place.offset

namespace History

variable {h : History} {n m c : Node} {b newest : Block} {blocks : List Block} {a : Arena}

/-- The structure that a push placed is where its block has it. -/
theorem holds_of_status (hstatus : n.status = .allocated b.shape b.place) : b.Holds n :=
  ⟨b.place, by rw [Node.placement?, hstatus]; rfl, rfl, rfl⟩

/-- The arena looks for the newest block, and whether the structure is stored there. -/
theorem Traced.isTop_iff (ht : h.Traced) :
    h.arena.isTop n = true ↔ ∃ b blocks, h.blocks = b :: blocks ∧ b.Holds n := by
  have hframes := ht.frames
  have hstack := ht.stack
  unfold isTop Block.Holds
  cases hblocks : h.blocks with
  | nil =>
    rw [hblocks] at hframes
    rw [hframes]
    simp
  | cons b blocks =>
    rw [hblocks] at hframes hstack
    rw [hframes]
    cases n.placement? with
    | none => simp
    | some p => simp [Block.frame, hstack.1.place]

/-- A structure is popped exactly if it is where the newest block has its own. -/
theorem Traced.popNode_eq_ok_iff (ht : h.Traced) :
    h.arena.popNode n = .ok a ↔ ∃ b blocks, h.blocks = b :: blocks ∧ b.Holds n ∧
      a = { h.arena with used := b.before.used, frames := b.before.frames } := by
  constructor
  · intro ok
    -- had the structure not been the newest, the pop would have been refused
    have htop : h.arena.isTop n = true := by
      by_contra hnot
      rw [popNode, if_neg hnot] at ok
      cases ok
    obtain ⟨b, blocks, hblocks, hholds⟩ := ht.isTop_iff.1 htop
    obtain ⟨b', blocks', hblocks', rfl⟩ := ht.pop_eq_ok (pop_of_popNode ok)
    obtain ⟨rfl, -⟩ : b = b' ∧ blocks = blocks' := by
      rw [hblocks] at hblocks'
      exact List.cons.inj hblocks'
    exact ⟨b, blocks, hblocks, hholds, rfl⟩
  · rintro ⟨b, blocks, hblocks, hholds, rfl⟩
    have hstack := ht.stack
    rw [hblocks] at hstack
    rw [popNode, if_pos (ht.isTop_iff.2 ⟨b, blocks, hblocks, hholds⟩), Arena.pop, ht.frames, hblocks,
      hstack.2.2.1]
    rfl

/-- Any other structure is refused by its type name. -/
theorem Traced.popNode_eq_error (ht : h.Traced) {fault : Fault}
    (error : h.arena.popNode n = .error fault) :
    fault = .illegal .popStructure (.notOnTop n.facade.typeName) := by
  unfold popNode at error
  split at error
  next htop =>
    -- there is a newest push, so it can be taken back
    obtain ⟨b, blocks, hblocks, -⟩ := ht.isTop_iff.1 htop
    rw [Arena.pop, ht.frames, hblocks] at error
    cases error
  next =>
    cases error
    rfl

/-- An earlier block ends in front of the newest value, so their values start together only if
there is no byte between these places. -/
theorem holds_earlier_iff {later earlier : List Block} {region : Region}
    (hstack : Stack region (newest :: (later ++ b :: earlier)))
    (hstatus : n.status = .allocated b.shape b.place) :
    newest.Holds n ↔ b.shape.extent = 0 ∧ newest.place.offset = b.stop := by
  have hfitted := fitted_of_stack hstack
  have hnewest := hfitted newest (by simp)
  have hb := hfitted b (by simp)
  have hstop : b.stop ≤ newest.start :=
    (List.pairwise_cons.1 (apart_of_stack hstack)).1 b (by simp)
  have hvalue := hnewest.value
  have hend : b.stop = b.place.offset + b.shape.extent := by
    rw [Block.stop, Shape.footprint_eq, ← Nat.add_assoc, ← hb.value]
  have hregion : b.place.region.number = newest.place.region.number := by
    rw [hb.place, hnewest.place]
  have hplaced : n.placement? = some b.place := by rw [Node.placement?, hstatus]; rfl
  constructor
  · rintro ⟨p, hp, -, hoffset⟩
    cases hplaced.symm.trans hp
    -- two values at one place, and between them all that this block holds and what is free behind it
    omega
  · rintro ⟨hextent, hoffset⟩
    exact ⟨b.place, hplaced, hregion, by omega⟩

/-- What a checked pop of an arena goes by. -/
structure Selective (h : History) : Prop where
  /-- A structure is accepted exactly if it is stored where the value of the newest block starts, and
  then the push of this block is taken back. -/
  accepted : ∀ n a, h.arena.popNode n = .ok a ↔ ∃ b blocks, h.blocks = b :: blocks ∧ b.Holds n ∧
    a = { h.arena with used := b.before.used, frames := b.before.frames }
  /-- Any other structure is refused, and nothing changes. -/
  refused : ∀ n fault, h.arena.popNode n = .error fault →
    fault = .illegal .popStructure (.notOnTop n.facade.typeName) ∧ h.after (.popNode n) = h
  /-- The structure of the newest block is accepted. -/
  own : ∀ b blocks n, h.blocks = b :: blocks → n.status = .allocated b.shape b.place → b.Holds n
  /-- That of an earlier block is not, unless it has no byte and no byte follows in front of the newest
  value. -/
  earlier : ∀ newest later b earlier n, h.blocks = newest :: (later ++ b :: earlier) →
    n.status = .allocated b.shape b.place →
      (newest.Holds n ↔ b.shape.extent = 0 ∧ newest.place.offset = b.stop)
  /-- A part of a structure that is stored there or further on is accepted exactly if the structure
  itself is and the part is not behind its start. -/
  inside : ∀ b blocks m shape place k c offset, h.blocks = b :: blocks → m.Sound →
    m.status = .allocated shape place → b.place.offset ≤ place.offset → m.child? k = some c →
      m.childOffset? k = some offset → (b.Holds c ↔ b.Holds m ∧ offset = 0)
  /-- So the first part is accepted with the structure if it has no leading padding. -/
  first : ∀ b blocks m shape place c s, h.blocks = b :: blocks → m.Sound →
    m.status = .allocated shape place → b.Holds m → m.child? 0 = some c → c.shape? = some s →
      s.pre = 0 → b.Holds c

/-- A child is taken for the newest push exactly if it starts where the newest structure does. -/
theorem holds_child_iff {shape : Shape} {place : Placement} {k offset : Nat} (hm : m.Consistent)
    (hplace : m.status = .allocated shape place) (hle : b.place.offset ≤ place.offset)
    (hc : m.child? k = some c) (hoffset : m.childOffset? k = some offset) :
    b.Holds c ↔ b.Holds m ∧ offset = 0 := by
  have hchild := Node.placement?_child hm hplace hc hoffset
  have hself : m.placement? = some place := by rw [Node.placement?, hplace]; rfl
  simp only [Block.Holds, hchild, hself, Option.some.injEq, exists_eq_left']
  omega

/-- Every arena goes by nothing but where a structure is stored, whatever was done to it. -/
theorem Arises.selective (harises : h.Arises) : h.Selective := by
  have ht := harises.traced
  constructor
  · exact fun n a => ht.popNode_eq_ok_iff
  · intro n fault error
    refine ⟨ht.popNode_eq_error error, ?_⟩
    simp only [History.after, error]
  · exact fun b blocks n _ hstatus => holds_of_status hstatus
  · intro newest later b earlier n hblocks hstatus
    exact holds_earlier_iff (hblocks ▸ ht.stack) hstatus
  · intro b blocks m shape place k c offset _ hm hplace hle hc hoffset
    exact holds_child_iff hm.self_of hplace hle hc hoffset
  · intro b blocks m shape place c s _ hm hplace hholds hc hs hpre
    obtain ⟨p, hp, -, hoffset⟩ := id hholds
    obtain rfl : place = p := by
      rw [Node.placement?, hplace] at hp
      exact Option.some.inj hp
    -- a first child without padding starts where the structure does
    have hzero := Node.childOffset?_zero hm.self_of hplace hc hs hpre
    exact (holds_child_iff hm.self_of hplace hoffset.ge hc hzero).2 ⟨hholds, rfl⟩

/-- A record of two numbers is pushed.  Its first field, which was not pushed itself, is taken for it,
and then nothing is outstanding any more; the second field is refused. -/
theorem Arises.selective_field : ∃ (h : History) (n : Node) (store : Store) (first second : Node)
    (a : Arena), h.Arises ∧ (Step.push n store).Possible ∧
      (h.arena.push n store.heap store.shared).outcome.result = .ok () ∧
      (h.arena.push n store.heap store.shared).outcome.state.child? 0 = some first ∧
      (h.arena.push n store.heap store.shared).outcome.state.child? 1 = some second ∧
      (h.after (.push n store)).Selective ∧ (h.after (.push n store)).blocks.length = 1 ∧
      (h.after (.push n store)).arena.popNode first = .ok a ∧ a.frames = [] ∧
      (h.after (.push n store)).arena.popNode second =
        .error (.illegal .popStructure (.notOnTop second.facade.typeName)) := by
  have number := (World.Reachable.start 0).leaf (.scalars .i32 1)
  have record := number.record ⟨"Pair", .msvcX64, false, 0⟩
  have one := record.field 1 0 "a" rfl
  have pair := one.field 1 0 "b" rfl
  have empty := Arises.make (show Arena.make 64 (.startingAt 0) = .ok (_, _) from rfl)
  have possible : (Step.push _ _).Possible := ⟨_, pair, List.mem_of_getElem? (i := 1) rfl, rfl⟩
  exact ⟨_, _, _, _, _, _, empty, possible, rfl, rfl, rfl, (empty.step possible).selective, rfl, rfl,
    rfl, rfl⟩

end History

end Arena

end NativeLayout
