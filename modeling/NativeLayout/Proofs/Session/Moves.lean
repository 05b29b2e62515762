import Mathlib.Logic.Relation
import NativeLayout.Proofs.Session.World

namespace NativeLayout

/-!
# From one structure to all worlds

What every operation does to the structure it is for, a call does to the tree around that structure, and
a step of a world to every tree.

* `Visit.Moves` — an operation puts a relation between a tree before and after it.
* `Visit.Respected` — a relation that all operations on one structure respect, and that reaches from a
  part of a tree to the tree; `Respected.along`, `Respected.call` — so calls respect it, wherever in a
  tree they are for.
* `World.Step`, `World.Later` — one step of a world, and all that may come after it.
* `World.Reachable.moves` — whatever happens from a reachable world on, a respected relation holds
  between each tree and what becomes of it.
-/

open Node

variable {α β : Type} {R : Node → Node → Prop}

namespace Visit

/-- An operation that puts a relation between a sound tree and what it leaves of the tree. -/
def Moves (R : Node → Node → Prop) (v : Visit α) : Prop :=
  ∀ (n : Node) (store : Store), n.Sound → store.shared.Coherent → R n (v n store).node

/-- A relation between trees that all operations on one structure respect.  It holds between trees if
it holds between the parts that they differ in. -/
structure Respected (R : Node → Node → Prop) : Prop where
  refl : ∀ n, R n n
  trans : ∀ a b c, R a b → R b c → R a c
  field : ∀ {status : Status RecordLayout} {head : RecordHead} {fields : List (Field Node)} {k : Nat}
    {f : Field Node} {c : Node}, fields[k]? = some f → R f.child c →
      R (.record status head fields) (.record status head (fields.set k (f.withChild c)))
  element : ∀ {status : Status ArrayPlan} {head : ArrayHead} {template : Node}
    {alternatives : List (Nat × Node)} {staged : List Node} {elements : List (Option Node)} {k : Nat}
    {e e' : Node}, elements[k]? = some (some e) → R e e' →
      R (.array status head template alternatives staged elements)
        (.array status head template alternatives staged (elements.set k (some e')))
  register : ∀ index name child, (Visit.register index name child).Moves R
  resolve : Visit.resolve.Moves R
  allocate : Visit.allocate.Moves R
  claim : ∀ region offset, (Visit.claim region offset).Moves R
  materialize : ∀ index, (change (Node.materialize index)).Moves R

/-- A question leaves the tree alone. -/
theorem Respected.read (hR : Respected R) (f : Node → Store → Except SessionError α) :
    (Visit.read f).Moves R := fun n _ _ _ => hR.refl n

/-- One operation after the other, if the first leaves the tree sound. -/
theorem Respected.bind (hR : Respected R) {v : Visit α} {next : α → Visit β} (hsafe : v.Safe)
    (hv : v.Moves R) (hnext : ∀ a, (next a).Moves R) : (v.bind next).Moves R := by
  intro n store hn hstore
  have hfirst := hsafe n store hn hstore
  have hmoves := hv n store hn hstore
  simp only [Visit.bind]
  split
  next a _ => exact hR.trans _ _ _ hmoves (hnext a _ _ hfirst.sound hfirst.coherent)
  next => exact hmoves

/-- An operation on a field, which is put back under its index. -/
theorem Respected.onField (hR : Respected R) {v : Visit α} (hv : v.Moves R)
    (p : Field Node → Bool) : (Visit.field p v).Moves R := by
  intro n store hn hstore
  unfold Visit.field
  split
  next status head fields =>
    split
    next => exact hR.refl _
    next position _ =>
      split
      next => exact hR.refl _
      next f hf =>
        have hchild : f.child.Sound := (sound_record_iff.1 hn).2 f (List.mem_of_getElem? hf)
        exact hR.field hf (hv f.child store hchild hstore)
  next => exact hR.refl _

/-- An operation for arrays leaves everything else alone. -/
theorem Respected.onArray (hR : Respected R) {v : Visit α} (hv : v.Moves R) :
    (Visit.onArray v).Moves R := by
  intro n store hn hstore
  cases n with
  | leaf => exact hR.refl _
  | record => exact hR.refl _
  | array => exact hv _ store hn hstore

/-- An operation on an element, which may have to be made before. -/
theorem Respected.onElement (hR : Respected R) {v : Visit α} (hv : v.Moves R) (index : Nat) :
    (Visit.element index v).Moves R := by
  unfold Visit.element
  refine hR.onArray (hR.bind (safe_materialize index) (hR.materialize index) fun _ => ?_)
  intro n store hn hstore
  simp only
  split
  next => exact hR.refl _
  next e he =>
    -- only an array can have given an element
    cases n with
    | leaf => cases he
    | record => cases he
    | array status head template alternatives staged elements =>
      have hget : elements[index]? = some (some e) := Option.join_eq_some_iff.1 he
      have hchild := (sound_array_iff.1 hn).2.2.2 e (List.mem_of_getElem? hget)
      exact hR.element hget (hv e store hchild hstore)

/-- An operation somewhere inside a tree. -/
theorem Respected.along (hR : Respected R) {v : Visit α} (hv : v.Moves R) (steps : List PathStep) :
    (v.along steps).Moves R := by
  induction steps with
  | nil => exact hv
  | cons step steps ih =>
    cases step with
    | index index => exact hR.onField ih _
    | name name => exact hR.onField ih _
    | element index => exact hR.onElement ih index

/-- **Calls.** Each of them is one of the operations above. -/
theorem Respected.call (hR : Respected R) {trees : List Node} (htrees : ∀ n ∈ trees, n.Sound) {c : Call}
    (hc : c.Within trees) : c.visit.Moves R := by
  have hnode : ∀ {α : Type} {v : Visit α}, v.Safe → v.Moves R → v.thenNode.Moves R :=
    fun hsafe hv => hR.bind hsafe hv fun _ => hR.read _
  cases c with
  | register index name child =>
    exact hnode (safe_register index name (htrees child hc)) (hR.register index name child)
  | resolve => exact hnode safe_resolve hR.resolve
  | allocate => exact hnode safe_allocate hR.allocate
  | claim region offset => exact hnode (safe_claim region offset) (hR.claim region offset)
  | element index => exact hR.onElement (hR.read _) index

end Visit

namespace World

/-- One step of a world, as in `World.Reachable`. -/
inductive Step (w : World) : World → Prop where
  | memory (heap : Heap) : Step w ⟨⟨heap, w.store.shared⟩, w.trees⟩
  | forget (number : Nat) : Step w (w.forget number)
  | leaf (kind : Leaf) : Step w (w.add (.ofLeaf kind))
  | record (head : RecordHead) : Step w (w.add (.newRecord head))
  | array (length : Nat) (lazy : Bool) (counter : Option String) {template : Node}
      {alternatives : List (Nat × Node)} (default : template ∈ w.trees)
      (others : ∀ e ∈ alternatives, e.2 ∈ w.trees) :
      Step w (w.add (.newArray length lazy counter template alternatives))
  | call (i : Nat) (steps : List PathStep) {c : Call} (hc : c.Within w.trees) :
      Step w (w.call i steps c)

/-- A world that comes about from another one. -/
abbrev Later : World → World → Prop := Relation.ReflTransGen Step

variable {w w' : World} {i : Nat} {n : Node}

/-- A step leads from a reachable world to a reachable one. -/
theorem Reachable.step (h : w.Reachable) (hstep : w.Step w') : w'.Reachable := by
  cases hstep with
  | memory heap => exact h.memory heap
  | forget number => exact h.forget number
  | leaf kind => exact h.leaf kind
  | record head => exact h.record head
  | array length lazy counter default others => exact h.array length lazy counter default others
  | call i steps hc => exact h.call i steps hc

/-- Whatever comes after a reachable world is reachable. -/
theorem Reachable.later (h : w.Reachable) (hlater : w.Later w') : w'.Reachable := by
  induction hlater with
  | refl => exact h
  | tail _ hstep ih => exact ih.step hstep

/-- A new tree is added behind the others. -/
theorem getElem?_add (m : Node) (hn : w.trees[i]? = some n) : (w.add m).trees[i]? = some n := by
  show (w.trees ++ [m])[i]? = some n
  rw [List.getElem?_append_left (List.getElem?_eq_some_iff.1 hn).1]
  exact hn

/-- A call moves the tree it is for, and no other one. -/
theorem Sound.moves_call (h : w.Sound) (hR : Visit.Respected R) (j : Nat) (steps : List PathStep)
    {c : Call} (hc : c.Within w.trees) (hn : w.trees[i]? = some n) :
    ∃ m, (w.call j steps c).trees[i]? = some m ∧ R n m := by
  unfold World.call
  split
  next => exact ⟨n, hn, hR.refl n⟩
  next m hm =>
    by_cases hij : j = i
    · subst hij
      cases hm.symm.trans hn
      exact ⟨_, List.getElem?_set_self (List.getElem?_eq_some_iff.1 hm).1,
        hR.along (hR.call h.trees hc) steps n w.store (h.trees n (List.mem_of_getElem? hn)) h.coherent⟩
    · exact ⟨n, by rw [List.getElem?_set_ne hij]; exact hn, hR.refl n⟩

/-- A step moves each tree, or leaves it as it was. -/
theorem Sound.moves_step (h : w.Sound) (hR : Visit.Respected R) (hstep : w.Step w')
    (hn : w.trees[i]? = some n) : ∃ m, w'.trees[i]? = some m ∧ R n m := by
  cases hstep with
  | memory => exact ⟨n, hn, hR.refl n⟩
  | forget => exact ⟨n, hn, hR.refl n⟩
  | leaf => exact ⟨n, getElem?_add _ hn, hR.refl n⟩
  | record => exact ⟨n, getElem?_add _ hn, hR.refl n⟩
  | array => exact ⟨n, getElem?_add _ hn, hR.refl n⟩
  | call j steps hc => exact h.moves_call hR j steps hc hn

/-- Whatever happens from a reachable world on, each tree is related to what becomes of it. -/
theorem Reachable.moves (h : w.Reachable) (hR : Visit.Respected R) (hlater : w.Later w')
    (hn : w.trees[i]? = some n) : ∃ m, w'.trees[i]? = some m ∧ R n m := by
  -- over the steps, each of which starts from a reachable world
  induction hlater with
  | refl => exact ⟨n, hn, hR.refl n⟩
  | tail huntil hstep ih =>
    obtain ⟨m, hm, hnm⟩ := ih
    obtain ⟨k, hk, hmk⟩ := (h.later huntil).sound.moves_step hR hstep hm
    exact ⟨k, hk, hR.trans _ _ _ hnm hmk⟩

end World

end NativeLayout
