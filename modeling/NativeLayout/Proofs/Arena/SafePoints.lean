import NativeLayout.Proofs.Arena.Discipline

namespace NativeLayout.Arena.History

/-!
# Safe points

* `Traced.isSafe_iff_top` — an arena is safe when its blocks end where the blocks that were there at the
  newest safe point end.
* `top_append_eq_iff` — blocks on top of others end where those end exactly when they take no byte.
* `Arises.isSafe_iff` — so the check tells blocks on top of the marked ones if they take bytes, but
  not blocks that replaced marked ones.
-/

variable {h : History} {region : Region}

/-- The check compares where the newest block ends with where it ended at the newest safe point. -/
theorem Traced.isSafe_iff_top (ht : h.Traced) :
    h.arena.isSafe = true ↔ top h.blocks = top h.marked := by
  have hpointer : h.arena.pointer = h.arena.region.base + top h.blocks := by
    rw [Arena.pointer, ht.used]
  have hpoints := ht.points
  unfold isSafe marked
  cases hmarks : h.marks with
  | nil =>
    rw [hmarks] at hpoints
    rw [hpoints, hpointer]
    show decide (h.arena.region.base + top h.blocks = h.arena.region.base) = true ↔
      top h.blocks = 0
    rw [decide_eq_true_iff, Nat.add_eq_left]
  | cons mark marks =>
    rw [hmarks] at hpoints
    rw [hpoints, hpointer]
    show decide (h.arena.region.base + top h.blocks = h.arena.region.base + top mark) = true ↔
      top h.blocks = top mark
    rw [decide_eq_true_iff, Nat.add_left_cancel_iff]

/-- Blocks on top of others end where those end exactly when none of them takes a byte. -/
theorem top_append_eq_iff {later marked : List Block} (hstack : Stack region (later ++ marked)) :
    top marked ≤ top (later ++ marked) ∧
      (top (later ++ marked) = top marked ↔ ∀ b ∈ later, b.stop = b.before.used) := by
  induction later with
  | nil => exact ⟨le_rfl, by simp⟩
  | cons newest later ih =>
    have hused : newest.before.used = top (later ++ marked) := hstack.2.1
    obtain ⟨hle, hiff⟩ := ih hstack.2.2.2
    have hstart := hstack.1.used_le_start
    have hstop : newest.start ≤ newest.stop := Nat.le_add_right _ _
    have htop : top (newest :: later ++ marked) = newest.stop := rfl
    rw [htop, List.forall_mem_cons, ← hiff]
    omega

/-- When the check of an arena holds.  It compares where blocks end, and not which blocks there are:
it holds while the blocks are those at the newest safe point, and of pushes since then it misses
those that take no byte.  Blocks that replaced others, and end where these ended, it takes for
them. -/
theorem Arises.isSafe_iff (harises : h.Arises) :
    (h.arena.isSafe = true ↔ top h.blocks = top h.marked) ∧
      (h.blocks = h.marked → h.arena.isSafe = true) ∧
      ∀ later, h.blocks = later ++ h.marked →
        (h.arena.isSafe = true ↔ ∀ b ∈ later, b.stop = b.before.used) := by
  have ht := harises.traced
  refine ⟨ht.isSafe_iff_top, fun heq => ?_, fun later heq => ?_⟩
  · rw [ht.isSafe_iff_top, heq]
  · rw [ht.isSafe_iff_top, heq]
    exact (top_append_eq_iff (heq ▸ ht.stack)).2

/-- A number is pushed in front of a safe point and popped behind it, and another one is pushed in
its place: the check holds, although this push came after the safe point. -/
theorem Arises.isSafe_iff_replaced : ∃ (h : History) (b : Block), h.Arises ∧ b ∈ h.blocks ∧
    (∀ m ∈ h.marked, m.number < b.number) ∧ h.blocks ≠ h.marked ∧ h.arena.isSafe = true := by
  have number := (World.Reachable.start 0).leaf (.scalars .i32 1)
  have hnumber : (Step.push (.ofLeaf (.scalars .i32 1)) _).Possible :=
    ⟨_, number, List.mem_of_getElem? (i := 0) rfl, rfl⟩
  have empty := Arises.make (show Arena.make 64 (.startingAt 0) = .ok (_, _) from rfl)
  have marked := (empty.step hnumber).step (c := .setSafePoint) trivial
  have replaced := (marked.step (c := .pop) trivial).step hnumber
  -- the second push has a number of its own, but ends where the first one did
  obtain ⟨h, hh, hblocks, hnumbers, htop⟩ : ∃ h : History, h.Arises ∧
      h.blocks.map Block.number = [1] ∧ h.marked.map Block.number = [0] ∧
        top h.blocks = top h.marked :=
    ⟨_, replaced, by decide +kernel, by decide +kernel, by decide +kernel⟩
  obtain ⟨b, hb, hnumber⟩ := List.map_eq_singleton_iff.1 hblocks
  obtain ⟨m, hm, hmark⟩ := List.map_eq_singleton_iff.1 hnumbers
  refine ⟨h, b, hh, by simp [hb], ?_, ?_, hh.isSafe_iff.1.2 htop⟩
  · rw [hm]
    exact List.forall_mem_singleton.2 (by omega)
  · rw [hb, hm]
    rintro ⟨⟩
    omega

end NativeLayout.Arena.History
