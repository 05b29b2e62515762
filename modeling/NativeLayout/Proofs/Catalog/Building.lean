import NativeLayout.Node.Prepare
import NativeLayout.Proofs.Catalog.Oblivious

namespace NativeLayout.Node

/-!
# No array notices what a catalog holds

* `oblivious_build`, `oblivious_stageElements` — whatever the catalogs were used for, an array builds
  the same elements, and counts them in the same way.
* `oblivious_prepare` — so a structure is prepared in the same way.
-/

section elements

variable {prep : Node → Shared → Outcome Node Unit} {status : Status ArrayPlan} {template : Node}
  {alternatives : List (Nat × Node)}

/-- An array builds the same element, if what is inside it is prepared in the same way. -/
theorem oblivious_build (hprep : ∀ n, Oblivious (prep n)) (index : Nat) (head : ArrayHead) :
    Oblivious (build prep status template alternatives index head) := by
  intro shared shared' hs hs'
  cases hplan : status.plan? with
  | none =>
    simp only [build, hplan]
    exact ⟨hs, hs', rfl, rfl⟩
  | some plan =>
    have hmade := oblivious_resolve (choose head.calls alternatives template) _ _
      (hs.count head.counter) (hs'.count head.counter)
    simp only [build, hplan]
    -- the two resolved elements are opaque from here on: only that they agree counts
    generalize (choose head.calls alternatives template).resolve (shared.count head.counter) = made
      at hmade ⊢
    generalize (choose head.calls alternatives template).resolve (shared'.count head.counter) = made'
      at hmade ⊢
    simp only [← hmade.result, ← hmade.state]
    cases made.result with
    | error fault => exact ⟨hmade.left, hmade.right, rfl, rfl⟩
    | ok shape =>
      by_cases hshape : shape = plan.element
      · have hready := hprep made.state _ _ hmade.left hmade.right
        simp only [if_pos hshape, ← hready.result, ← hready.state]
        exact ⟨hready.left, hready.right, rfl, rfl⟩
      · simp only [if_neg hshape]
        exact ⟨hmade.left, hmade.right, rfl, rfl⟩

/-- Many elements are built alike if each is. -/
theorem oblivious_buildMany {one : Nat → ArrayHead → Shared → Outcome ArrayHead Node}
    (hone : ∀ index head, Oblivious (one index head)) (count index : Nat) (head : ArrayHead) :
    Oblivious (buildMany one count index head) := by
  intro shared shared' hs hs'
  induction count generalizing index head shared shared' with
  | zero => exact ⟨hs, hs', rfl, rfl⟩
  | succ count ih =>
    have hfirst := hone index head _ _ hs hs'
    simp only [buildMany, ← hfirst.result, ← hfirst.state]
    cases (one index head shared).result with
    | error fault => exact ⟨hfirst.left, hfirst.right, rfl, rfl⟩
    | ok element =>
      have hothers := ih (index + 1) (one index head shared).state _ _ hfirst.left hfirst.right
      simp only [← hothers.result, ← hothers.state]
      exact ⟨hothers.left, hothers.right, rfl, rfl⟩

/-- What is built in advance does not depend on the catalogs. -/
theorem oblivious_stageElements (hprep : ∀ n, Oblivious (prep n)) (head : ArrayHead)
    (staged : List Node) :
    Oblivious (stageElements prep status head template alternatives staged) := by
  intro shared shared' hs hs'
  by_cases hdone : head.lazy ∨ staged.length = head.length
  · simp only [stageElements, if_pos hdone]
    exact ⟨hs, hs', rfl, rfl⟩
  · have hall : Oblivious (buildMany (build prep status template alternatives) head.length 0 head) :=
      oblivious_buildMany (oblivious_build hprep) head.length 0 head
    have hmade := hall _ _ hs hs'
    simp only [stageElements, if_neg hdone, ← hmade.result, ← hmade.state]
    split <;> exact ⟨hmade.left, hmade.right, rfl, rfl⟩

end elements

/-- Preparing does not depend on the catalogs. -/
theorem oblivious_prepareWithin (fuel : Nat) (n : Node) : Oblivious (prepareWithin fuel n) := by
  -- over the fuel, as the elements that are built are no parts of the structure
  induction fuel generalizing n with
  | zero => exact oblivious_pure n ()
  | succ fuel ih =>
    cases n with
    | leaf status kind => exact oblivious_pure _ ()
    | record status head fields =>
      intro shared shared' hs hs'
      have hfields := oblivious_traverse
        (fun (f : Field Node) (_ : f ∈ fields) => (ih f.child).mapState f.withChild) _ _ hs hs'
      simp only [prepareWithin, ← hfields.result, ← hfields.state]
      exact ⟨hfields.left, hfields.right, rfl, rfl⟩
    | array status head template alternatives staged elements =>
      exact (oblivious_stageElements ih head staged).mapState _

/-- A structure is prepared in the same way, whatever the catalogs were used for. -/
theorem oblivious_prepare (n : Node) : Oblivious n.prepare := oblivious_prepareWithin n.depth n

end NativeLayout.Node
