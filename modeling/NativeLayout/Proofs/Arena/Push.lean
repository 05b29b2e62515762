import NativeLayout.Arena
import NativeLayout.Proofs.Tree.Claim
import NativeLayout.Proofs.Tree.Described

namespace NativeLayout

/-!
# What a push does

* `Node.align_isPowerOfTwo` — the shape of a sound structure is aligned to a power of two.
* `Arena.eq_of_block?`, `Arena.isLeast_of_block?` — the next block of an arena starts at the first
  aligned address behind the bytes in use, and has room in the region.
* `Arena.push_eq_of_ok`, `Arena.arena_push_of_error` — a push that succeeds claims that block, and one
  that fails leaves the arena as it was.
* `Arena.pushed_of_ok` — so the structure is stored in the block afterwards.
-/

/-- The shape of a sound structure is aligned to a power of two. -/
theorem Node.align_isPowerOfTwo {n : Node} {s : Shape} (hn : n.Consistent) (hs : n.shape? = some s) :
    s.align.isPowerOfTwo := by
  cases n with
  | leaf status kind =>
    cases kind with
    | custom name wanted type =>
      rcases Leaf.shape?_custom_eq_ok_iff.1 (hn s hs) with ⟨-, rfl⟩ | ⟨-, hshape⟩
      · exact ⟨0, rfl⟩
      · obtain ⟨hpow, -, rfl⟩ := Shape.padded?_eq_ok_iff.1 hshape
        exact hpow
    | scalars | text | enum | pointer =>
      exact (whole_of_consistent hn hs (by rintro _ _ ⟨⟩; trivial)).pow
  | record | array => exact (whole_of_consistent hn hs (by rintro _ _ ⟨⟩)).pow

namespace Arena

variable {a : Arena} {n : Node} {heap : Heap} {shared : Shared} {shape : Shape} {start stop : Nat}

/-- A block starts at the next address of the alignment and ends within the capacity. -/
theorem eq_of_block? (h : a.block? shape = .ok (start, stop)) :
    ∃ address, Word.roundUp? a.pointer shape.align = some address ∧
      start = address - a.region.base ∧ stop = start + shape.footprint ∧ stop ≤ a.capacity := by
  unfold block? at h
  split at h
  next => cases h
  next start' hstart =>
    split at h
    next => cases h
    next stop' hstop =>
      split at h
      next => cases h
      next hroom =>
        cases h
        obtain ⟨address, haddress, rfl⟩ := Option.map_eq_some_iff.1 hstart
        obtain ⟨-, rfl⟩ := Word.add?_eq_some_iff.1 hstop
        exact ⟨address, haddress, rfl, rfl, Nat.le_of_not_lt hroom⟩

/-- The block starts at the first aligned address behind the bytes in use. -/
theorem isLeast_of_block? (hpow : shape.align.isPowerOfTwo)
    (h : a.block? shape = .ok (start, stop)) :
    IsLeast {m | shape.align ∣ m ∧ a.pointer ≤ m} (a.region.base + start) := by
  obtain ⟨address, haddress, rfl, -, -⟩ := eq_of_block? h
  have hround := Word.eq_roundUp_of_roundUp? hpow haddress
  have hle := Word.le_of_roundUp?_eq_some haddress
  have hbase : a.region.base ≤ a.pointer := Nat.le_add_right _ _
  rw [Nat.add_sub_cancel' (hbase.trans hle), hround]
  exact Word.isLeast_roundUp _ (Word.pos_of_isPowerOfTwo hpow)

/-- A push that succeeds gives the resolved structure the next block of the arena. -/
theorem push_eq_of_ok (h : (a.push n heap shared).outcome.result = .ok ()) : ∃ shape start stop,
    (n.resolve shared).result = .ok shape ∧ a.block? shape = .ok (start, stop) ∧
      (a.push n heap shared).heap = heap.fill a.region start (stop - start) ∧
      (a.push n heap shared).outcome =
        (n.resolve shared).state.claim a.region start (n.resolve shared).shared ∧
      (a.push n heap shared).arena = a.pushed start stop shape := by
  unfold push at h ⊢
  cases hresult : (n.resolve shared).result with
  | error fault =>
    simp only [hresult] at h
    cases h
  | ok shape =>
    cases hblock : a.block? shape with
    | error fault =>
      simp only [hresult, hblock] at h
      cases h
    | ok block =>
      -- only here is something pushed; the failures before it answer with an error
      obtain ⟨start, stop⟩ := block
      simp only [hresult, hblock] at h ⊢
      refine ⟨shape, start, stop, rfl, hblock, rfl, rfl, ?_⟩
      rw [h]

/-- A push that fails leaves the arena as it was. -/
theorem arena_push_of_error {fault : Fault}
    (h : (a.push n heap shared).outcome.result = .error fault) :
    (a.push n heap shared).arena = a := by
  unfold push at h ⊢
  cases hresult : (n.resolve shared).result with
  | error fault => simp only [hresult]
  | ok shape =>
    cases hblock : a.block? shape with
    | error fault => simp only [hresult, hblock]
    | ok block =>
      obtain ⟨start, stop⟩ := block
      simp only [hresult, hblock] at h ⊢
      rw [h]

/-- A sound structure that is pushed is stored in the block. -/
theorem pushed_of_ok (hn : n.Sound) (hshared : shared.Coherent)
    (h : (a.push n heap shared).outcome.result = .ok ()) : ∃ shape start stop,
    a.block? shape = .ok (start, stop) ∧ shape.align.isPowerOfTwo ∧
      (a.push n heap shared).outcome.state.status =
        .allocated shape ⟨a.region, start + shape.pre, .claimed⟩ ∧
      (a.push n heap shared).arena = a.pushed start stop shape := by
  obtain ⟨shape, start, stop, hresult, hblock, -, houtcome, harena⟩ := push_eq_of_ok h
  have hresolved := Node.resolved_resolve hn hshared
  have hclaimed : Node.Claimed a.region start .claimed (n.resolve shared).state
      ((n.resolve shared).state.claim a.region start (n.resolve shared).shared) :=
    Node.claimed_claimWithin (Nat.le_refl _) hresolved.sound hresolved.coherent
  have hshape := hresolved.ok shape hresult
  rw [houtcome] at h ⊢
  obtain ⟨s, hallocatable, hstored⟩ := hclaimed.ok h
  obtain rfl : s = shape := by
    rw [Node.shape?, hallocatable] at hshape
    exact Option.some.inj hshape
  exact ⟨s, start, stop, hblock, Node.align_isPowerOfTwo hresolved.sound.self_of hshape, hstored,
    harena⟩

end Arena

end NativeLayout
