import NativeLayout.Proofs.Session.Moves
import NativeLayout.Proofs.Session.Route
import NativeLayout.Proofs.Tree.Advance

namespace NativeLayout

/-!
# Worlds only move on

* `Visit.respected_advances` — whatever is done to a structure, or to one inside it, only moves the
  structures of the tree on.
* `Node.Orderly` — what a structure knows at any moment, and that resolving it again does nothing.
* `World.Progress`, `World.Reachable.progress` — from a reachable world to a later one, every
  structure stays in its place and only moves on, and is orderly all the time.
-/

open Node

variable {α : Type}

/-! ### Operations -/

namespace Visit

/-- Allocating only moves a tree on. -/
theorem advances_allocate {n : Node} {store : Store} (hn : n.Sound) (hstore : store.shared.Coherent) :
    Advances n (allocate n store).node := by
  simp only [allocate, Node.allocate]
  split
  next =>
    split
    next => exact .refl n
    next => exact advances_claimWithin (Nat.le_refl _) hn hstore
  next => exact .refl n

/-- Registering a field only moves a record on, since it has no layout yet. -/
theorem advances_register (index : Option Nat) (name : String) (child : Node) {n : Node} {store : Store}
    (hn : n.Sound) : Advances n (register index name child n store).node := by
  unfold register
  split
  next status head fields =>
    simp only
    split
    next filed hfiled => exact Node.advances_register (sound_record_iff.1 hn).1.ascending hfiled
    next => exact .refl _
  next => exact .refl _

/-- An array with an element that moved on. -/
theorem advances_setElement {status : Status ArrayPlan} {head : ArrayHead} {template : Node}
    {alternatives : List (Nat × Node)} {staged : List Node} {elements : List (Option Node)} {k : Nat}
    {e e' : Node} (he : elements[k]? = some (some e)) (h : Advances e e') :
    Advances (.array status head template alternatives staged elements)
      (.array status head template alternatives staged (elements.set k (some e'))) := by
  refine advances_array head.calls (.refl _) fun j c hc => ?_
  -- the element at the index moved on, and the others stayed
  by_cases hk : k = j
  · subst hk
    rw [he] at hc
    cases hc
    have hlt := (List.getElem?_eq_some_iff.1 he).1
    exact ⟨_, by rw [List.getElem?_set_self hlt]; rfl, h⟩
  · exact ⟨c, by rw [List.getElem?_set_ne hk]; exact hc, .refl c⟩

/-- No operation does anything else than move structures on. -/
theorem respected_advances : Respected Advances where
  refl := .refl
  trans _ _ _ := .trans
  field hf h := advances_record (.refl _)
    (forall₂_set (fun g _ => ⟨rfl, rfl, .refl g.child⟩) hf (.withChild h))
  element := advances_setElement
  register index name child _ _ hn _ := advances_register index name child hn
  resolve _ _ hn hstore := advances_resolve hn hstore
  allocate _ _ hn hstore := advances_allocate hn hstore
  claim _ _ _ _ hn hstore := advances_claimWithin (Nat.le_refl _) hn hstore
  materialize index n store _ _ := advances_materialize index n store.shared

/-- An operation that leaves the structure at the end of some steps as it is leaves the whole tree
as it is. -/
theorem node_along_eq {v : Visit α} {steps : List PathStep} {n m : Node} {route : List Nat}
    (hn : n.Sound) (hroute : n.route? steps = some route) (hm : n.at? route = some m)
    {store : Store} (h : (v m store).node = m) : (v.along steps n store).node = n := by
  rw [along_eq hn hroute hm, h]
  exact putAt_self hm

end Visit

/-! ### Every moment -/

namespace Node

/-- What a structure knows at any moment. -/
structure Orderly (c : Node) : Prop where
  /-- The shape is known as soon as the structure is resolved. -/
  shape : c.shape?.isSome ↔ c.stage ≠ .unallocated
  /-- The placement is known as soon as the structure has storage. -/
  placement : c.placement?.isSome ↔ c.stage = .allocated
  /-- A structure with a shape resolves to it; no structure changes, no catalog is asked and nothing
  is built. -/
  again : ∀ s shared, c.shape? = some s → c.resolve shared = .pure shared c s
  /-- A record has a layout exactly if it has a shape.  It is the layout of the shapes that the fields
  have now, and its shape is that of the record. -/
  record : ∀ status head fields, c = .record status head fields →
    (status.plan?.isSome ↔ c.shape?.isSome) ∧ ∀ l, status.plan? = some l →
      c.shape? = some l.shape ∧ ∃ shapes,
        List.Forall₂ (fun f s => f.child.shape? = some s) fields shapes ∧ head.layout shapes = .ok l
  /-- An array with a shape was planned for what a template resolves to, and every element that exists
  has the shape of that. -/
  array : ∀ status head template alternatives staged elements,
    c = .array status head template alternatives staged elements →
      (status.plan?.isSome ↔ c.shape?.isSome) ∧ ∀ plan, status.plan? = some plan →
        c.shape? = some plan.shape ∧
        (∃ call, plan.ArisesFrom head.length (choose call alternatives template)) ∧
        ∀ e, some e ∈ elements → e.shape? = some plan.element

/-- A structure that knows its parts is orderly. -/
theorem orderly_of_consistent {c : Node} (hc : c.Consistent) : c.Orderly := by
  constructor
  · exact Status.plan?_isSome_iff
  · exact Status.placement?_isSome_iff
  · exact fun s shared hs => resolve_of_shape? hs shared
  · rintro status head fields rfl
    refine ⟨by simp [shape?, Node.status], fun l hl => ⟨?_, hc.layout l hl⟩⟩
    simp [shape?, Node.status, hl]
  · rintro status head template alternatives staged elements rfl
    refine ⟨by simp [shape?, Node.status], fun plan hplan => ⟨?_, hc.origin plan hplan, ?_⟩⟩
    · simp [shape?, Node.status, hplan]
    · intro e he
      obtain ⟨i, hi⟩ := List.mem_iff_getElem?.1 he
      -- only an array with storage has elements
      cases status with
      | unallocated => cases hplan
      | allocatable =>
        rw [hc.unplaced rfl] at hi
        cases hi
      | allocated plan' p =>
        cases hplan
        exact ((hc.placed plan p rfl).2 i e hi).1

/-- Everything in a sound tree is orderly. -/
theorem Sound.orderly {n c : Node} (hn : n.Sound) {way : List Nat} (hc : n.inside? way = some c) :
    c.Orderly := by
  induction way generalizing n with
  | nil =>
    cases hc
    exact orderly_of_consistent hn.self_of
  | cons k way ih =>
    obtain ⟨m, hm, hc⟩ := Option.bind_eq_some_iff.1 hc
    refine ih ?_ hc
    cases hn with
    | leaf => cases hm
    | record self children =>
      obtain ⟨f, hf, rfl⟩ := Option.map_eq_some_iff.1 hm
      exact children f (List.mem_of_find?_eq_some hf)
    | array self default others built children =>
      exact children m (List.mem_of_getElem? (Option.join_eq_some_iff.1 hm))

end Node

/-! ### Worlds -/

namespace World

variable {w w' : World}

/-- The tree at each index is there, and only moved on. -/
def Onward (w w' : World) : Prop :=
  ∀ (i : Nat) (n : Node), w.trees[i]? = some n → ∃ m, w'.trees[i]? = some m ∧ Advances n m

/-- Whatever happens from a reachable world on, every tree only moves on. -/
theorem Reachable.onward (h : w.Reachable) (hlater : w.Later w') : w.Onward w' :=
  fun _ _ hn => h.moves Visit.respected_advances hlater hn

/-- What holds from a world to a later one. -/
structure Progress (w w' : World) : Prop where
  /-- Every structure is still in its place.  Its stage did not move backwards, its shape and its
  placement are what they were once they were known, and so are the layout and the fields of a record
  and the plan of an array. -/
  onward : ∀ (i : Nat) (n : Node) (way : List Nat) (c : Node), w.trees[i]? = some n →
    n.inside? way = some c → ∃ m d, w'.trees[i]? = some m ∧ m.inside? way = some d ∧
      c.stage.rank ≤ d.stage.rank ∧ (∀ s, c.shape? = some s → d.shape? = some s) ∧
      (∀ p, c.placement? = some p → d.placement? = some p) ∧ Forward c d
  /-- What every structure knows fits its stage and what its parts know now. -/
  orderly : ∀ (n : Node) (way : List Nat) (c : Node), n ∈ w'.trees → n.inside? way = some c →
    c.Orderly
  /-- To resolve a structure a second time changes nothing at all. -/
  again : ∀ (i : Nat) (n m : Node) (steps : List PathStep) (route : List Nat) (s : Shape),
    w'.trees[i]? = some n → n.route? steps = some route → n.at? route = some m →
      m.shape? = some s → w'.call i steps .resolve = w'

/-- To resolve a structure with a shape once more changes nothing in the world. -/
theorem Sound.call_resolve_eq (h : w.Sound) {i : Nat} {n m : Node} {steps : List PathStep}
    {route : List Nat} {s : Shape} (hn : w.trees[i]? = some n) (hroute : n.route? steps = some route)
    (hm : n.at? route = some m) (hs : m.shape? = some s) : w.call i steps .resolve = w := by
  have hsound := h.trees n (List.mem_of_getElem? hn)
  -- at the structure itself the shape is only answered
  have hsame : Call.resolve.visit m w.store = ⟨m, w.store, .ok m⟩ := by
    simp only [Call.visit, Visit.thenNode, Visit.bind, Visit.resolve, Visit.change,
      resolve_of_shape? hs, Outcome.pure, Except.mapError, Visit.read]
  have hnode : (Call.resolve.visit.along steps n w.store).node = n :=
    Visit.node_along_eq hsound hroute hm (by rw [hsame])
  have hstore : (Call.resolve.visit.along steps n w.store).store = w.store := by
    rw [(Visit.reaches_along hsound hroute hm w.store).after, hsame]
  obtain ⟨hi, hget⟩ := List.getElem?_eq_some_iff.1 hn
  simp only [World.call, hn, hnode, hstore]
  rw [← hget, List.set_getElem_self hi]

/-- From a reachable world on, every structure only moves on, and at every moment it knows what fits
its stage and its parts. -/
theorem Reachable.progress (h : w.Reachable) (hlater : w.Later w') : w.Progress w' := by
  have hafter := (h.later hlater).sound
  constructor
  · intro i n way c hn hc
    obtain ⟨m, hm, hadvances⟩ := h.onward hlater i n hn
    obtain ⟨d, hd, hforward⟩ := hadvances way c hc
    have hstatus := hforward.status
    exact ⟨m, d, hm, hd, hstatus.rank_le, hstatus.plan, hstatus.placement, hforward⟩
  · exact fun n way c hn hc => (hafter.trees n hn).orderly hc
  · exact fun i n m steps route s hn hroute hm hs => hafter.call_resolve_eq hn hroute hm hs

/-- A record with a lazy array of two numbers is resolved; later it has storage, and the second number
was made. -/
theorem Reachable.progress_numbers : ∃ w w' : World, w.Reachable ∧ w.Later w' ∧ w.Progress w' ∧
    (w.trees[2]?.bind (inside? [0])).map stage = some .allocatable ∧
      (w'.trees[2]?.bind (inside? [0])).map stage = some .allocated ∧
      (w'.trees[2]?.bind (inside? [0, 1])).map shape? = some (some ⟨2, false, 0, 2, 0⟩) := by
  have number := (Reachable.start 0).leaf (.scalars .u16 1)
  have array := number.uniform 2 true 0 rfl
  have record := array.record ⟨"Numbers", .msvcX64, false, 0⟩
  have filled := record.field 2 1 "items" rfl
  have resolved := filled.call 2 [] (c := .resolve) trivial
  -- the later world is two calls on: storage for the record, and its second number
  obtain ⟨w, w', hw, hlater, hbefore, hafter, hmade⟩ : ∃ w w' : World, w.Reachable ∧ w.Later w' ∧
      (w.trees[2]?.bind (inside? [0])).map stage = some .allocatable ∧
      (w'.trees[2]?.bind (inside? [0])).map stage = some .allocated ∧
      (w'.trees[2]?.bind (inside? [0, 1])).map shape? = some (some ⟨2, false, 0, 2, 0⟩) :=
    ⟨_, _, resolved, (Relation.ReflTransGen.single (.call 2 [] (c := .allocate) trivial)).tail
      (.call 2 [.index 0] (c := .element 1) trivial), by decide +kernel, by decide +kernel,
      by decide +kernel⟩
  exact ⟨w, w', hw, hlater, hw.progress hlater, hbefore, hafter, hmade⟩

end World

end NativeLayout
