import NativeLayout.Proofs.Arena.History

namespace NativeLayout.Arena

/-!
# The stack discipline of an arena

* `stop_le_top`, `apart_of_stack` — the blocks of a stack lie one behind the other.
* `popMany`, `popMany_of_stack` — some pops in a row restore what was there before a push.
* `History.Disciplined`, `History.Arises.disciplined` — whatever was done to an arena, its blocks lie
  apart and inside the region, each at the first aligned address; the bytes in use and the depth are
  those of the blocks; failures change nothing, and pops undo pushes in the reverse order.
-/

/-- Some pops, one after the other. -/
def popMany : (count : Nat) → Arena → Except Fault Arena
  | 0, a => .ok a
  | count + 1, a => a.pop.bind (popMany count)

namespace History

variable {h : History} {region : Region} {blocks : List Block} {a : Arena}

/-! ### Blocks of a stack -/

/-- A block starts behind what was used before. -/
theorem Fitted.used_le_start {b : Block} (hb : Fitted region b) : b.before.used ≤ b.start := by
  have hle : b.before.pointer ≤ region.base + b.start := hb.least.1.2
  rw [Arena.pointer, hb.arena] at hle
  exact Nat.le_of_add_le_add_left hle

/-- No block reaches behind the newest one. -/
theorem stop_le_top (hstack : Stack region blocks) : ∀ b ∈ blocks, b.stop ≤ top blocks := by
  induction blocks with
  | nil => exact fun b hb => absurd hb List.not_mem_nil
  | cons newest blocks ih =>
    obtain ⟨hfitted, hused, -, hrest⟩ := hstack
    refine List.forall_mem_cons.2 ⟨le_rfl, fun b hb => ?_⟩
    -- the newest block starts behind what was in use, and that is the end of the others
    have hle := ih hrest b hb
    have hstart := hfitted.used_le_start
    have hstop : newest.start ≤ newest.stop := Nat.le_add_right _ _
    show b.stop ≤ newest.stop
    omega

/-- Blocks do not overlap: each starts behind the ones that were there. -/
theorem apart_of_stack (hstack : Stack region blocks) :
    blocks.Pairwise fun later earlier => earlier.stop ≤ later.start := by
  induction blocks with
  | nil => exact .nil
  | cons newest blocks ih =>
    obtain ⟨hfitted, hused, -, hrest⟩ := hstack
    refine List.pairwise_cons.2 ⟨fun b hb => ?_, ih hrest⟩
    have hle := stop_le_top hrest b hb
    have hstart := hfitted.used_le_start
    omega

/-- Every block of a stack fits. -/
theorem fitted_of_stack (hstack : Stack region blocks) : ∀ b ∈ blocks, Fitted region b := by
  induction blocks with
  | nil => exact fun b hb => absurd hb List.not_mem_nil
  | cons newest blocks ih => exact List.forall_mem_cons.2 ⟨hstack.1, ih hstack.2.2.2⟩

/-- The newest block ends inside the region. -/
theorem top_le_length (hstack : Stack region blocks) : top blocks ≤ region.length := by
  cases blocks with
  | nil => exact Nat.zero_le _
  | cons newest blocks => exact hstack.1.stop_le

/-- Pops up to a block restore what was there before its push. -/
theorem popMany_of_stack (hframes : a.frames = blocks.map Block.frame) (hstack : Stack region blocks)
    {k : Nat} {b : Block} (hb : blocks[k]? = some b) :
    popMany (k + 1) a = .ok { a with used := b.before.used, frames := b.before.frames } := by
  induction k generalizing a blocks with
  | zero =>
    cases blocks with
    | nil => cases hb
    | cons newest blocks =>
      cases hb
      rw [popMany, Arena.pop, hframes, hstack.2.2.1]
      rfl
  | succ k ih =>
    cases blocks with
    | nil => cases hb
    | cons newest blocks =>
      rw [popMany, Arena.pop, hframes]
      refine ih ?_ hstack.2.2.2 (by simpa using hb)
      rfl

/-! ### All that happens to an arena -/

/-- What holds of an arena, and of whatever is done to it next. -/
structure Disciplined (h : History) : Prop where
  /-- Blocks of earlier pushes end before those of later pushes start. -/
  apart : h.blocks.Pairwise fun later earlier =>
    earlier.number < later.number ∧ earlier.stop ≤ later.start
  inside : ∀ b ∈ h.blocks, b.start ≤ b.stop ∧ b.stop ≤ h.arena.capacity
  /-- Each block starts at the first aligned address behind what was in use before its push. -/
  least : ∀ b ∈ h.blocks, IsLeast {m | b.shape.align ∣ m ∧ b.before.pointer ≤ m}
    (h.arena.region.base + b.start)
  /-- The structure of each block is stored in it, behind its leading padding. -/
  stored : ∀ b ∈ h.blocks, b.before.region = h.arena.region ∧ b.place.region = h.arena.region ∧
    b.place.offset = b.start + b.shape.pre
  used : h.arena.used = top h.blocks
  depth : h.arena.depth = h.blocks.length
  room : h.arena.used ≤ h.arena.capacity
  /-- A push that succeeds puts its structure in a block on top. -/
  pushed : ∀ n store, (Step.push n store).Possible →
    (h.arena.push n store.heap store.shared).outcome.result = .ok () →
      ∃ b, b.before = h.arena ∧ (h.after (.push n store)).blocks = b :: h.blocks ∧
        (h.after (.push n store)).arena = (h.arena.push n store.heap store.shared).arena ∧
        (h.arena.push n store.heap store.shared).outcome.state.status =
          .allocated b.shape b.place
  /-- A push that fails leaves the arena as it is. -/
  failed : ∀ n (store : Store) fault,
    (h.arena.push n store.heap store.shared).outcome.result = .error fault →
      (h.arena.push n store.heap store.shared).arena = h.arena
  /-- A pop that succeeds restores what was there before the push of the newest block. -/
  popped : ∀ a, (h.arena.pop = .ok a ∨ ∃ n, h.arena.popNode n = .ok a) → ∃ b blocks,
    h.blocks = b :: blocks ∧ a = { h.arena with used := b.before.used, frames := b.before.frames }
  /-- So pops in a row restore what was there before each push, in the reverse order. -/
  restored : ∀ (k : Nat) b, h.blocks[k]? = some b → popMany (k + 1) h.arena =
    .ok { h.arena with used := b.before.used, frames := b.before.frames }

/-- Every arena keeps the stack discipline, whatever was done to it. -/
theorem Arises.disciplined (harises : h.Arises) : h.Disciplined := by
  have ht := harises.traced
  have hfitted := fitted_of_stack ht.stack
  constructor
  · -- later blocks have larger numbers and lie behind earlier ones
    have hnumbers := List.pairwise_map.1 (List.pairwise_cons.1 ht.numbers).2
    exact hnumbers.and (apart_of_stack ht.stack)
  · exact fun b hb => ⟨Nat.le_add_right _ _, (hfitted b hb).stop_le⟩
  · exact fun b hb => (hfitted b hb).least
  · exact fun b hb => ⟨(hfitted b hb).arena, (hfitted b hb).place, (hfitted b hb).value⟩
  · exact ht.used
  · exact ht.depth
  · exact ht.used ▸ top_le_length ht.stack
  · intro n store possible ok
    obtain ⟨w, hw, hn, rfl⟩ := possible
    obtain ⟨b, -, hbefore, -, hstatus, -, hafter⟩ :=
      after_push (hw.sound.trees n hn) hw.sound.coherent ok
    rw [hafter]
    exact ⟨b, hbefore, rfl, rfl, hstatus⟩
  · exact fun n store fault error => arena_push_of_error error
  · rintro a (ok | ⟨n, ok⟩)
    · exact ht.pop_eq_ok ok
    · exact ht.pop_eq_ok (pop_of_popNode ok)
  · exact fun k b hb => popMany_of_stack ht.frames ht.stack hb

/-- A byte and a number of eight bytes on top of it: seven bytes between them stay free. -/
theorem Arises.disciplined_pair : ∃ h : History, h.Arises ∧ h.Disciplined ∧
    h.blocks.map (fun b => (b.start, b.stop)) = [(8, 16), (0, 1)] ∧ h.arena.used = 16 := by
  have byte := (World.Reachable.start 0).leaf (.scalars .u8 1)
  have number := byte.leaf (.scalars .u64 1)
  have empty := Arises.make (show Arena.make 64 (.startingAt 0) = .ok (_, _) from rfl)
  have first := empty.step (c := .push (.ofLeaf (.scalars .u8 1)) _)
    ⟨_, number, List.mem_of_getElem? (i := 0) rfl, rfl⟩
  have second := first.step (c := .push (.ofLeaf (.scalars .u64 1)) _)
    ⟨_, number, List.mem_of_getElem? (i := 1) rfl, rfl⟩
  exact ⟨_, second, second.disciplined, by decide +kernel, by decide +kernel⟩

end History

end NativeLayout.Arena
