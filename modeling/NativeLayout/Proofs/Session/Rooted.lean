import NativeLayout.Proofs.Session.Advance
import NativeLayout.Proofs.Session.Failure
import NativeLayout.Proofs.Session.Scene

namespace NativeLayout

/-!
# Trees with storage of their own

* `Node.Rooted` — a structure that is stored with its leading padding at an aligned address.
* `World.push` — the world after a push of the tree at an index, which is a reachable one
  (`Reachable.push`).
* `World.Roots` — a whole tree gets storage: a region of its own or the next block of an arena.
* `World.Reachable.rooted` — whatever happens later, the tree is rooted.
-/

open Node

/-- The structure is stored, with its leading padding, from an aligned address on. -/
structure Node.Rooted (n : Node) (s : Shape) (p : Placement) : Prop where
  status : n.status = .allocated s p
  start : ∃ start, p.offset = start + s.pre ∧ s.align ∣ p.region.base + start

/-- A root stays where it is, as long as what is known of it stays known. -/
theorem Node.Rooted.keeps {n m : Node} {s : Shape} {p : Placement} (h : n.Rooted s p)
    (hkeeps : n.status.Extends m.status) : m.Rooted s p := by
  have hs : n.status.plan? = some s := by rw [h.status]; rfl
  have hp : n.status.placement? = some p := by rw [h.status]; rfl
  exact ⟨status_eq_of (hkeeps.plan s hs) (hkeeps.placement p hp), h.start⟩

/-- A region starts at the alignment that was asked for. -/
theorem Heap.dvd_base_of_allocate {h h' : Heap} {length align : Nat} {r : Region}
    (ha : h.allocate length align = .ok (r, h')) : align ∣ r.base := by
  unfold allocate at ha
  split at ha
  · split at ha
    · cases ha
      exact Nat.dvd_mul_left _ _
    · cases ha
  · cases ha

/-- A structure that gets a region of its own starts with it. -/
theorem Node.rooted_allocate {n : Node} {store : Store} (hn : n.Sound)
    (hstore : store.shared.Coherent) (h : (Visit.allocate n store).result = .ok ()) :
    ∃ s p, (Visit.allocate n store).node.Rooted s p := by
  have hok := ok_of_mapError h
  simp only [Visit.allocate, Node.allocate] at hok ⊢
  split at hok
  next s hstatus =>
    split at hok
    next => cases hok
    next region heap hregion =>
      have hclaimed : Claimed region 0 .root n
          (claimWithin n.depth region .root .allocate 0 n store.shared) :=
        claimed_claimWithin (Nat.le_refl _) hn hstore
      obtain ⟨t, ht, hstate⟩ := hclaimed.ok hok
      cases hstatus.symm.trans ht
      -- the footprint is at the base of the region, the value behind its leading padding
      exact ⟨s, _, hstate, 0, rfl, Heap.dvd_base_of_allocate hregion⟩
  next => cases hok

/-- A structure that is pushed starts at an aligned address behind the bytes in use. -/
theorem Arena.rooted_push {a : Arena} {n : Node} {heap : Heap} {shared : Shared} (hn : n.Sound)
    (hshared : shared.Coherent) (h : (a.push n heap shared).outcome.result = .ok ()) :
    ∃ s p, (a.push n heap shared).outcome.state.Rooted s p := by
  obtain ⟨s, start, stop, hblock, hpow, hstatus, -⟩ := a.pushed_of_ok hn hshared h
  exact ⟨s, _, hstatus, start, rfl, (isLeast_of_block? hpow hblock).1.1⟩

namespace World

variable {w w' w'' : World} {i : Nat}

/-- The world after a push of the tree at an index to an arena. -/
def push (w : World) (a : Arena) (i : Nat) : World :=
  match w.trees[i]? with
  | none => w
  | some n =>
    let p := a.push n w.store.heap w.store.shared
    { store := { heap := p.heap, shared := p.outcome.shared }, trees := w.trees.set i p.outcome.state }

/-- A call on a whole tree. -/
theorem call_nil {α : Type} {n : Node} (hn : w.trees[i]? = some n) {c : Call} {v : Visit α}
    (hc : c.visit = v.thenNode) :
    w.call i [] c = ⟨(v n w.store).store, w.trees.set i (v n w.store).node⟩ := by
  simp only [call, hn, Visit.along, hc, Visit.node_thenNode, Visit.store_thenNode]

/-- What an operation on a whole tree leaves is in the place of the tree. -/
theorem getElem?_call_nil {α : Type} {n : Node} (hn : w.trees[i]? = some n) {c : Call} {v : Visit α}
    (hc : c.visit = v.thenNode) : (w.call i [] c).trees[i]? = some (v n w.store).node := by
  rw [call_nil hn hc]
  exact List.getElem?_set_self (List.getElem?_eq_some_iff.1 hn).1

/-- A push resolves the tree, clears some bytes and gives them to the tree. -/
theorem Reachable.push (h : w.Reachable) (a : Arena) (i : Nat) : (w.push a i).Reachable := by
  unfold World.push
  split
  next => exact h
  next n hn =>
    -- each part of the push is a step of its own
    have hresolved := h.call i [] (c := .resolve) trivial
    rw [call_nil hn (v := Visit.resolve) rfl] at hresolved
    simp only [Arena.push]
    split
    next => exact hresolved
    next shape _ =>
      split
      next => exact hresolved
      next start stop _ =>
        have hcleared := hresolved.memory (w.store.heap.fill a.region start (stop - start))
        have hclaimed := hcleared.call i [] (c := .claim a.region start) trivial
        have hlt := (List.getElem?_eq_some_iff.1 hn).1
        rw [call_nil (n := (n.resolve w.store.shared).state) (List.getElem?_set_self hlt)
          (v := Visit.claim a.region start) rfl] at hclaimed
        simp only [List.set_set] at hclaimed
        exact hclaimed

/-- The tree at an index gets storage as a whole. -/
inductive Roots (w : World) (i : Nat) : World → Prop where
  | allocate {n : Node} (hn : w.trees[i]? = some n) (ok : (Visit.allocate n w.store).result = .ok ()) :
      Roots w i (w.call i [] .allocate)
  | push {n : Node} (a : Arena) (hn : w.trees[i]? = some n)
      (ok : (a.push n w.store.heap w.store.shared).outcome.result = .ok ()) : Roots w i (w.push a i)

/-- A tree that gets storage of its own is a root. -/
theorem Reachable.roots (h : w.Reachable) (hroots : w.Roots i w') :
    w'.Reachable ∧ ∃ n s p, w'.trees[i]? = some n ∧ n.Rooted s p := by
  cases hroots with
  | @allocate n hn ok =>
    have hsound := h.sound.trees n (List.mem_of_getElem? hn)
    obtain ⟨s, p, hrooted⟩ := rooted_allocate hsound h.sound.coherent ok
    exact ⟨h.call i [] trivial, _, s, p, getElem?_call_nil hn (v := Visit.allocate) rfl, hrooted⟩
  | @push n a hn ok =>
    have hsound := h.sound.trees n (List.mem_of_getElem? hn)
    obtain ⟨s, p, hrooted⟩ := a.rooted_push hsound h.sound.coherent ok
    refine ⟨h.push a i, _, s, p, ?_, hrooted⟩
    simp only [World.push, hn]
    exact List.getElem?_set_self (List.getElem?_eq_some_iff.1 hn).1

/-- Whatever happens later, a tree that got storage stays where it is. -/
theorem Reachable.rooted (h : w.Reachable) (hroots : w.Roots i w') (hlater : w'.Later w'') :
    ∃ n s p, w''.trees[i]? = some n ∧ n.Sound ∧ n.Rooted s p := by
  obtain ⟨hw', n, s, p, hn, hrooted⟩ := h.roots hroots
  obtain ⟨m, hm, hadvances⟩ := hw'.onward hlater i n hn
  obtain ⟨d, hd, hforward⟩ := hadvances [] n rfl
  cases hd
  exact ⟨m, s, p, hm, (hw'.later hlater).sound.trees m (List.mem_of_getElem? hm),
    hrooted.keeps hforward.status⟩

end World

end NativeLayout
