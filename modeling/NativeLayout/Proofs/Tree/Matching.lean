import Mathlib.Data.List.Forall2
import NativeLayout.Node.Outcome
import NativeLayout.Proofs.Tree.Basic

namespace NativeLayout

/-!
# Operations side by side

* `Outcome.Matches` — two outcomes have the same result, and their states are related.
* `traverse_matches` — so have two runs over lists, if the steps have.
* `Node.forall_true` — every tree is a tree, to argue by induction on its structures.
-/

/-- Two outcomes with the same result and related states.  What is shared may differ, but keeps to an
invariant on both sides. -/
structure Outcome.Matches {σ τ α : Type} (I : Shared → Prop) (R : σ → τ → Prop)
    (o : Outcome σ α) (o' : Outcome τ α) : Prop where
  left : I o.shared
  right : I o'.shared
  state : R o.state o'.state
  result : o.result = o'.result

section traverse

variable {σ τ α : Type} {I : Shared → Prop} {R : σ → τ → Prop} {f : σ → Shared → Outcome σ α}
  {g : τ → Shared → Outcome τ α} {items : List σ} {items' : List τ} {shared shared' : Shared}

/-- Runs over related lists match if the steps on related items do. -/
theorem traverse_matches (hitems : List.Forall₂ R items items')
    (hstep : ∀ s ∈ items, ∀ t ∈ items', R s t → ∀ shared shared' : Shared, I shared → I shared' →
      (f s shared).Matches I R (g t shared')) (h : I shared) (h' : I shared') :
    (traverse f items shared).Matches I (List.Forall₂ R) (traverse g items' shared') := by
  induction hitems generalizing shared shared' with
  | nil => exact ⟨h, h', .nil, rfl⟩
  | @cons s t rest rest' hst hrest ih =>
    have hfirst := hstep s (by simp) t (by simp) hst shared shared' h h'
    have hothers := ih (fun s hs t ht => hstep s (by simp [hs]) t (by simp [ht])) hfirst.left
      hfirst.right
    simp only [traverse, ← hfirst.result]
    split
    -- what is behind a failure stays as it was on both sides
    next fault _ => exact ⟨hfirst.left, hfirst.right, .cons hfirst.state hrest, rfl⟩
    next value _ =>
      exact ⟨hothers.left, hothers.right, .cons hfirst.state hothers.state,
        congrArg (Except.map (value :: ·)) hothers.result⟩

end traverse

namespace Node

/-- Every tree is made of structures. -/
theorem forall_true (n : Node) : n.Forall fun _ => True := by
  suffices h : ∀ (d : Nat) (n : Node), n.depth ≤ d → n.Forall fun _ => True from
    h n.depth n (Nat.le_refl _)
  intro d
  induction d with
  | zero =>
    intro n hn
    have hpos := n.depth_pos
    omega
  | succ d ih =>
    intro n hn
    cases n with
    | leaf => exact .leaf trivial
    | record => exact .record trivial fun f hf => ih _ (depth_record_le_iff.1 hn f hf)
    | array =>
      obtain ⟨⟨htemplate, halternatives⟩, hstaged, helements⟩ := depth_array_le_iff.1 hn
      exact .array trivial (ih _ htemplate) (fun e he => ih _ (halternatives e he))
        (fun e he => ih _ (hstaged e he)) fun e he => ih _ (helements e he)

end Node

end NativeLayout
