import NativeLayout.Proofs.Session.Safe
import NativeLayout.Proofs.Tree.Placement

namespace NativeLayout

/-!
# Worlds

A world is some structures with the memory and the catalogs they use.

* `Call` — an operation on one structure: registering a field, resolving, getting storage, or
  getting an element.
* `World.Reachable` — the worlds that come about by building structures, one from the other, and
  calling operations on them and on the structures inside them, whether these succeed or not.
* `World.Reachable.sound` — every structure of a reachable world is sound.
* `World.Reachable.encloses` — so every stored structure encloses its children.
* `World.ofStoredByte` — a world to try what becomes of arrays that are made of something stored.
-/

open Node

/-- Structures, with everything they use. -/
structure World where
  store : Store
  trees : List Node

/-- An operation on one structure. -/
inductive Call where
  /-- A new field, behind all others if no index is given. -/
  | register (index : Option Nat) (name : String) (child : Node)
  | resolve
  | allocate
  | claim (region : Region) (offset : Nat)
  | element (index : Nat)

namespace Call

/-- What a call does, and the structure afterwards. -/
def visit : Call → Visit Node
  | register index name child => (Visit.register index name child).thenNode
  | resolve => Visit.resolve.thenNode
  | allocate => Visit.allocate.thenNode
  | claim region offset => (Visit.claim region offset).thenNode
  | element index => Visit.element index Visit.node

/-- Whether the structure that a call is given is one of these. -/
def Within (trees : List Node) : Call → Prop
  | register _ _ child => child ∈ trees
  | _ => True

/-- Every call with structures of the world keeps what it is made to sound. -/
theorem safe_visit {trees : List Node} (htrees : ∀ n ∈ trees, n.Sound) {c : Call}
    (hc : c.Within trees) : c.visit.Safe := by
  have hnode : ∀ {α : Type} {v : Visit α}, v.Safe → v.thenNode.Safe :=
    fun hv => hv.bind fun _ => Visit.safe_read _
  cases c with
  | register index name child => exact hnode (Visit.safe_register index name (htrees child hc))
  | resolve => exact hnode Visit.safe_resolve
  | allocate => exact hnode Visit.safe_allocate
  | claim region offset => exact hnode (Visit.safe_claim region offset)
  | element index => exact (Visit.safe_read _).element index

end Call

namespace World

/-- The world with one more structure. -/
def add (w : World) (n : Node) : World := { w with trees := w.trees ++ [n] }

/-- The world in which a catalog remembers no layouts. -/
def forget (w : World) (number : Nat) : World :=
  let shared := w.store.shared
  let catalogs := shared.catalogs.insert number (shared.catalog number).clear
  { w with store := { w.store with shared := { shared with catalogs } } }

/-- The world after a call on the structure at the end of some steps, in the tree at an index. -/
def call (w : World) (i : Nat) (steps : List PathStep) (c : Call) : World :=
  match w.trees[i]? with
  | none => w
  | some n =>
    let r := c.visit.along steps n w.store
    { store := r.store, trees := w.trees.set i r.node }

/-- The worlds that come about step by step.  What is in memory may change at any time. -/
inductive Reachable : World → Prop where
  | start (address : Nat) : Reachable ⟨⟨.startingAt address, .empty⟩, []⟩
  | memory {w : World} (h : Reachable w) (heap : Heap) :
      Reachable ⟨⟨heap, w.store.shared⟩, w.trees⟩
  | forget {w : World} (h : Reachable w) (number : Nat) : Reachable (w.forget number)
  | leaf {w : World} (h : Reachable w) (kind : Leaf) : Reachable (w.add (.ofLeaf kind))
  | record {w : World} (h : Reachable w) (head : RecordHead) : Reachable (w.add (.newRecord head))
  | array {w : World} (h : Reachable w) (length : Nat) (lazy : Bool) (counter : Option String)
      {template : Node} {alternatives : List (Nat × Node)} (default : template ∈ w.trees)
      (others : ∀ e ∈ alternatives, e.2 ∈ w.trees) :
      Reachable (w.add (.newArray length lazy counter template alternatives))
  | call {w : World} (h : Reachable w) (i : Nat) (steps : List PathStep) {c : Call}
      (hc : c.Within w.trees) : Reachable (w.call i steps c)

/-- Every structure is sound, and the catalogs only remember what they computed. -/
structure Sound (w : World) : Prop where
  coherent : w.store.shared.Coherent
  trees : ∀ n ∈ w.trees, n.Sound

variable {w : World}

theorem Sound.add (h : w.Sound) {n : Node} (hn : n.Sound) : (w.add n).Sound := by
  refine ⟨h.coherent, fun m hm => ?_⟩
  rcases List.mem_append.1 hm with hm | hm
  · exact h.trees m hm
  · rw [List.mem_singleton.1 hm]
    exact hn

/-- A call keeps the world sound. -/
theorem Sound.call (h : w.Sound) (i : Nat) (steps : List PathStep) {c : Call}
    (hc : c.Within w.trees) : (w.call i steps c).Sound := by
  unfold World.call
  split
  next => exact h
  next n hn =>
    -- one tree changes, and it is sound afterwards, whatever the call answers
    have hafter := (Call.safe_visit h.trees hc).along steps n w.store
      (h.trees n (List.mem_of_getElem? hn)) h.coherent
    refine ⟨hafter.coherent, fun m hm => ?_⟩
    rcases List.mem_or_eq_of_mem_set hm with hm | rfl
    · exact h.trees m hm
    · exact hafter.sound

/-- Every structure of a reachable world is sound. -/
theorem Reachable.sound (h : w.Reachable) : w.Sound := by
  -- over the steps that made the world
  induction h with
  | start => exact ⟨Shared.coherent_empty, by simp⟩
  | memory _ heap ih => exact ⟨ih.coherent, ih.trees⟩
  | forget _ number ih => exact ⟨ih.coherent.insert number Catalog.coherent_empty, ih.trees⟩
  | leaf _ kind ih => exact ih.add (sound_ofLeaf kind)
  | record _ head ih => exact ih.add (sound_newRecord head)
  | array _ length lazy counter default others ih =>
    exact ih.add (sound_newArray length lazy counter (ih.trees _ default)
      fun e he => ih.trees _ (others e he))
  | call _ i steps hc ih => exact ih.call i steps hc

/-- Wherever a structure is stored in a reachable world, its children are stored inside it, each
where the layout or the plan of the structure puts it, and one behind the other. -/
theorem Reachable.encloses (h : w.Reachable) {n m : Node} {route : List Nat} {shape : Shape}
    {place : Placement} (hn : n ∈ w.trees) (hm : n.at? route = some m)
    (hplace : m.status = .allocated shape place) : m.Encloses shape place :=
  encloses_of_consistent ((h.sound.trees n hn).at hm).self_of hplace

/-- An array of a structure of the world, by its number, and of nothing else. -/
theorem Reachable.uniform (h : w.Reachable) (length : Nat) (lazy : Bool) (k : Nat) {template : Node}
    (hk : w.trees[k]? = some template) : (w.add (.newArray length lazy none template [])).Reachable :=
  h.array length lazy none (List.mem_of_getElem? hk) (by simp)

/-- A record with one more field, which is a structure of the world, by its number. -/
theorem Reachable.field (h : w.Reachable) (i k : Nat) (name : String) {child : Node}
    (hk : w.trees[k]? = some child) : (w.call i [] (.register none name child)).Reachable :=
  h.call i [] (c := .register none name child) (List.mem_of_getElem? hk)

/-- A record of a byte and an array of two numbers, in storage of its own: the array is stored
behind the byte, and encloses its elements. -/
theorem Reachable.encloses_elements : ∃ (w : World) (n m : Node) (place : Placement),
    w.Reachable ∧ n ∈ w.trees ∧ n.at? [1] = some m ∧
      m.status = .allocated ⟨2, false, 0, 4, 0⟩ place ∧ place.offset = 2 ∧
      m.Encloses ⟨2, false, 0, 4, 0⟩ place := by
  have byte := (Reachable.start 0).leaf (.scalars .u8 1)
  have number := byte.leaf (.scalars .u16 1)
  have array := number.uniform 2 false 1 rfl
  have record := array.record ⟨"Pair", .msvcX64, false, 0⟩
  have first := record.field 3 0 "tag" rfl
  have both := first.field 3 2 "items" rfl
  have resolved := both.call 3 [] (c := .resolve) trivial
  have stored := resolved.call 3 [] (c := .allocate) trivial
  -- behind the byte one byte is left out, for numbers of two bytes
  obtain ⟨w, hw, hstatus⟩ : ∃ w : World, w.Reachable ∧
      (w.trees[3]?.bind (at? [1])).map status =
        some (.allocated ⟨2, false, 0, 4, 0⟩ ⟨⟨1, 64, 6⟩, 2, .claimed⟩) :=
    ⟨_, stored, by decide +kernel⟩
  obtain ⟨m, hm, hstatus⟩ := Option.map_eq_some_iff.1 hstatus
  obtain ⟨n, hn, hm⟩ := Option.bind_eq_some_iff.1 hm
  have hn := List.mem_of_getElem? hn
  exact ⟨w, n, m, _, hw, hn, hm, hstatus, rfl, hw.encloses hn hm hstatus⟩

/-! ### A byte with storage of its own -/

/-- A world with a byte that was resolved and got storage. -/
def ofStoredByte : World :=
  let byte : World := add ⟨⟨.startingAt 0, .empty⟩, []⟩ (.ofLeaf (.scalars .u8 1))
  (byte.call 0 [] .resolve).call 0 [] .allocate

/-- The byte.  Arrays can be made of it, though no element can then be placed in them. -/
def storedByte : Node :=
  .leaf (.allocated ⟨1, false, 0, 1, 0⟩ ⟨⟨1, 64, 1⟩, 0, .root⟩) (.scalars .u8 1)

/-- The byte is resolved and gets storage of its own. -/
theorem reachable_ofStoredByte : ofStoredByte.Reachable ∧ storedByte ∈ ofStoredByte.trees := by
  have byte := (Reachable.start 0).leaf (.scalars .u8 1)
  have resolved := byte.call 0 [] (c := .resolve) trivial
  exact ⟨resolved.call 0 [] (c := .allocate) trivial, List.mem_of_getElem? (i := 0) rfl⟩

end World

end NativeLayout
