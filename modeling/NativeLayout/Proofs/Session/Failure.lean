import NativeLayout.Proofs.Session.Route
import NativeLayout.Proofs.Session.World
import NativeLayout.Proofs.Tree.Failure

namespace NativeLayout

/-!
# What a failed call leaves behind

* `Call.Halfway` — a call for storage that finds room and all elements, and then meets storage that
  is in the way of a part, but not of the first one.
* `Call.visit_alike_iff` — such calls are exactly those whose failure shows.
* `World.Reachable.alike_failed_call_iff` — in a reachable world, a failed call for storage leaves
  every structure of the tree with the stage, the shape and the placement it had, unless the call got
  stuck halfway.
-/

open Node

namespace Visit

variable {α : Type} {v : Visit α} {n : Node} {store : Store}

/-- To answer with the structure does not change it. -/
theorem node_thenNode (v : Visit α) (n : Node) (store : Store) :
    (v.thenNode n store).node = (v n store).node := by
  simp only [thenNode, bind, read]
  cases (v n store).result <;> rfl

/-- Nor does it change what the structure uses. -/
theorem store_thenNode (v : Visit α) (n : Node) (store : Store) :
    (v.thenNode n store).store = (v n store).store := by
  simp only [thenNode, bind, read]
  cases (v n store).result <;> rfl

/-- It fails exactly if the operation before did. -/
theorem thenNode_eq_error_iff {e : SessionError} :
    (v.thenNode n store).result = .error e ↔ (v n store).result = .error e := by
  simp only [thenNode, bind, read]
  cases (v n store).result <;> simp

end Visit

namespace Call

/-- Whether a call asks for storage. -/
inductive ForStorage : Call → Prop where
  | allocate : ForStorage .allocate
  | claim (region : Region) (offset : Nat) : ForStorage (.claim region offset)

/-- A call for storage that gets stuck halfway. -/
def Halfway (store : Store) (n : Node) : Call → Prop
  | .allocate => ∃ s region heap, n.status = .allocatable s ∧
      store.heap.allocate s.footprint s.align = .ok (region, heap) ∧
        Node.Halfway region 0 store.shared n
  | .claim region offset => Node.Halfway region offset store.shared n
  | _ => False

/-- A failed allocation leaves a trace exactly if the structure was placed half-way. -/
theorem allocate_alike_iff {n : Node} {store : Store} (hn : n.Sound)
    (hstore : store.shared.Coherent) {e : SessionError}
    (h : (Visit.allocate n store).result = .error e) :
    Alike n (Visit.allocate n store).node ↔ ¬ Call.Halfway store n .allocate := by
  simp only [Visit.allocate, Node.allocate, Halfway] at h ⊢
  split at h
  next s hs =>
    simp only [hs]
    split at h
    next cause hcause =>
      simp only
      refine ⟨?_, fun _ => .refl n⟩
      -- there is no region of this size, so nothing was placed
      rintro - ⟨t, region, heap, ht, hregion, -⟩
      cases ht
      cases hcause.symm.trans hregion
    next region heap hregion =>
      simp only
      obtain ⟨fault, hfault⟩ : ∃ fault, (claimWithin n.depth region .root .allocate 0 n
          store.shared).result = .error fault := by
        revert h
        cases (claimWithin n.depth region .root .allocate 0 n store.shared).result with
        | error fault => exact fun _ => ⟨fault, rfl⟩
        | ok => rintro ⟨⟩
      -- what the claim leaves behind is what the allocation does
      rw [claimWithin_alike_iff (Nat.le_refl _) hn hstore hfault, not_iff_not]
      constructor
      · intro hhalf
        exact ⟨s, region, heap, rfl, hregion, hhalf⟩
      · rintro ⟨t, other, after, ht, hother, hhalf⟩
        cases ht
        cases hregion.symm.trans hother
        exact hhalf
  next hs =>
    refine ⟨?_, fun _ => ?_⟩
    · rintro - ⟨t, region, heap, ht, -⟩
      exact hs t ht
    · exact .refl n

/-- A failed claim leaves a trace exactly if the structure was placed half-way. -/
theorem claim_alike_iff {n : Node} {store : Store} {region : Region} {offset : Nat} (hn : n.Sound)
    (hstore : store.shared.Coherent) {e : SessionError}
    (h : (Visit.claim region offset n store).result = .error e) :
    Alike n (Visit.claim region offset n store).node ↔
      ¬ Call.Halfway store n (.claim region offset) := by
  obtain ⟨fault, hfault⟩ : ∃ fault, (n.claim region offset store.shared).result = .error fault := by
    revert h
    simp only [Visit.claim, Visit.change]
    cases (n.claim region offset store.shared).result with
    | error fault => exact fun _ => ⟨fault, rfl⟩
    | ok => rintro ⟨⟩
  exact claimWithin_alike_iff (Nat.le_refl _) hn hstore hfault

/-- A failed call for storage shows exactly if it got stuck halfway. -/
theorem visit_alike_iff {c : Call} (hc : c.ForStorage) {n : Node} {store : Store} (hn : n.Sound)
    (hstore : store.shared.Coherent) {e : SessionError}
    (h : (c.visit n store).result = .error e) :
    Alike n (c.visit n store).node ↔ ¬ c.Halfway store n := by
  cases hc with
  | allocate =>
    rw [Call.visit, Visit.node_thenNode]
    exact allocate_alike_iff hn hstore (Visit.thenNode_eq_error_iff.1 h)
  | claim region offset =>
    rw [Call.visit, Visit.node_thenNode]
    exact claim_alike_iff hn hstore (Visit.thenNode_eq_error_iff.1 h)

end Call

namespace World

/-- A call for storage on a structure of a reachable world that fails leaves every structure of the
tree around it as it was, unless it got stuck halfway. -/
theorem Reachable.alike_failed_call_iff {w : World} (h : w.Reachable) {n m : Node}
    {steps : List PathStep} {route : List Nat} (hn : n ∈ w.trees)
    (hroute : n.route? steps = some route) (hm : n.at? route = some m) {c : Call}
    (hc : c.ForStorage) {e : SessionError}
    (hfail : (c.visit.along steps n w.store).result = .error e) :
    Alike n (c.visit.along steps n w.store).node ↔ ¬ c.Halfway w.store m := by
  have hsound := h.sound.trees n hn
  have hreaches : c.visit.Reaches n m w.store (c.visit.along steps n w.store) :=
    Visit.reaches_along hsound hroute hm w.store
  -- the whole tree looks alike exactly if the structure does that was called
  rw [hreaches.alike]
  exact Call.visit_alike_iff hc (hsound.at hm) h.sound.coherent (hreaches.result ▸ hfail)

/-- A record of two numbers, the second of which has storage of its own: the record cannot be
allocated, but afterwards its first field is stored. -/
theorem Reachable.alike_failed_call_pair : ∃ (w : World) (n : Node) (e : SessionError),
    w.Reachable ∧ n ∈ w.trees ∧ (Call.allocate.visit.along [] n w.store).result = .error e ∧
      ¬ Alike n (Call.allocate.visit.along [] n w.store).node ∧ Call.allocate.Halfway w.store n := by
  have number := (Reachable.start 0).leaf (.scalars .i32 1)
  have record := number.record ⟨"Pair", .msvcX64, false, 0⟩
  have first := record.field 1 0 "a" rfl
  have both := first.field 1 0 "b" rfl
  have resolved := both.call 1 [] (c := .resolve) trivial
  have inner := resolved.call 1 [.index 1] (c := .allocate) trivial
  -- the first field is at another stage after the call
  obtain ⟨w, hw, hfail, hbefore, hafter⟩ : ∃ w : World, w.Reachable ∧
      (w.trees[1]?.map fun n => (Call.allocate.visit.along [] n w.store).result.isOk) = some false ∧
      (w.trees[1]?.bind fun n => (n.at? [0]).map stage) = some .allocatable ∧
      (w.trees[1]?.bind fun n =>
        ((Call.allocate.visit.along [] n w.store).node.at? [0]).map stage) = some .allocated :=
    ⟨_, inner, by decide +kernel, by decide +kernel, by decide +kernel⟩
  obtain ⟨n, hn, hresult⟩ := Option.map_eq_some_iff.1 hfail
  rw [hn, Option.bind_some] at hbefore hafter
  obtain ⟨e, he⟩ : ∃ e, (Call.allocate.visit.along [] n w.store).result = .error e := by
    revert hresult
    cases (Call.allocate.visit.along [] n w.store).result with
    | error e => exact fun _ => ⟨e, rfl⟩
    | ok => rintro ⟨⟩
  have hmem := List.mem_of_getElem? hn
  have hchanged : ¬ Alike n (Call.allocate.visit.along [] n w.store).node := by
    intro halike
    have hstage := congrArg (Option.map Status.stage) (halike [0])
    rw [Option.map_map, Option.map_map] at hstage
    cases hbefore.symm.trans (hstage.trans hafter)
  refine ⟨w, n, e, hw, hmem, he, hchanged, ?_⟩
  have hiff : Alike n (Call.allocate.visit.along [] n w.store).node ↔
      ¬ Call.allocate.Halfway w.store n :=
    hw.alike_failed_call_iff hmem rfl (at?_nil n) .allocate he
  exact Classical.not_not.1 fun hhalf => hchanged (hiff.2 hhalf)

end World

end NativeLayout
