import NativeLayout.Node.Element
import NativeLayout.Proofs.Tree.Claim

namespace NativeLayout.Node

/-!
# Making an element keeps an array sound

* `Materialized`, `materialized_materialize` — what making sure of an element does to a sound
  structure: the other children stay as they are, and a success leaves the element behind.
-/

/-- What making sure of an element leaves behind of a sound structure. -/
structure Materialized (index : Nat) (n : Node) (o : Outcome Node Unit) : Prop where
  coherent : o.shared.Coherent
  evolves : Evolves n o.state
  status : o.state.status = n.status
  others : ∀ k, o.state.child? k = n.child? k ∨ k = index ∧ n.child? k = none
  ok : o.result = .ok () → ∃ e, o.state.child? index = some e

variable {index : Nat} {shared : Shared}

theorem Materialized.failed {n : Node} {fault : Fault} (hn : n.Sound) (hshared : shared.Coherent) :
    Materialized index n (.fail shared n fault) :=
  ⟨hshared, .refl hn, rfl, fun _ => .inl rfl, by rintro ⟨⟩⟩

section array

variable {plan : ArrayPlan} {p : Placement} {head : ArrayHead} {template : Node}
  {alternatives : List (Nat × Node)} {staged : List Node} {elements : List (Option Node)}

/-- An array whose count of calls changed, and nothing else. -/
theorem Materialized.counted {status : Status ArrayPlan} {calls : Nat} {result : Except Fault Unit}
    (hn : (Node.array status head template alternatives staged elements).Sound)
    (hshared : shared.Coherent) (hresult : result ≠ .ok ()) :
    Materialized index (.array status head template alternatives staged elements)
      ⟨shared, .array status { head with calls } template alternatives staged elements, result⟩ := by
  obtain ⟨self, rest⟩ := sound_array_iff.1 hn
  refine ⟨hshared, ⟨sound_array_iff.2 ⟨self.counted calls, rest⟩, Nat.le_refl _, ?_⟩, rfl,
    fun _ => .inl rfl, fun h => absurd h hresult⟩
  exact .of_status_eq rfl

/-- An array with a new element where its plan puts it. -/
theorem ArraySound.made {calls : Nat} {e : Node}
    (self : ArraySound (.allocated plan p) head template alternatives staged elements)
    (hshape : e.shape? = some plan.element) (hplaced : e.placement? =
      some ⟨p.region, p.offset + index * plan.stride + plan.element.pre, .claimed⟩) :
    ArraySound (.allocated plan p) { head with calls } template alternatives staged
      (elements.set index (some e)) := by
  obtain ⟨hlength, hat⟩ := self.placed plan p rfl
  refine ⟨self.plan, self.origin, self.stagedAll, self.staged, by rintro ⟨⟩, ?_⟩
  rintro _ _ ⟨⟩
  refine ⟨by simpa using hlength, fun k c hc => ?_⟩
  rw [List.getElem?_set] at hc
  -- the new element is where it belongs, and all others are where they were
  by_cases hk : index = k
  · rw [if_pos hk] at hc
    split at hc
    · cases hc
      rw [← hk]
      exact ⟨hshape, hplaced⟩
    · cases hc
  · rw [if_neg hk] at hc
    exact hat k c hc

/-- A new element that is not too deep does not make an array deeper. -/
theorem depth_made_le {status : Status ArrayPlan} {calls : Nat} {e : Node}
    (hdepth : e.depth + 1 ≤
      (Node.array status head template alternatives staged elements).depth) :
    (Node.array status { head with calls } template alternatives staged
      (elements.set index (some e))).depth ≤
        (Node.array status head template alternatives staged elements).depth := by
  obtain ⟨d, hd⟩ : ∃ d, (Node.array status head template alternatives staged elements).depth =
      d + 1 := Nat.exists_eq_add_one.2 (depth_pos _)
  obtain ⟨htemplates, hstaged, hchildren⟩ := depth_array_le_iff.1 (Nat.le_of_eq hd)
  rw [hd]
  refine depth_array_le_iff.2 ⟨htemplates, hstaged, fun c hc => ?_⟩
  rcases List.mem_or_eq_of_mem_set hc with hc | hc
  · exact hchildren c hc
  · cases hc
    omega

/-- An array that made an element it did not have. -/
theorem Materialized.made {calls : Nat} {e : Node}
    (hn : (Node.array (.allocated plan p) head template alternatives staged elements).Sound)
    (hshared : shared.Coherent) (hindex : index < head.length) (hnone : elements[index]?.join = none)
    (hsound : e.Sound)
    (hdepth : e.depth + 1 ≤
      (Node.array (.allocated plan p) head template alternatives staged elements).depth)
    (hshape : e.shape? = some plan.element) (hplaced : e.placement? =
      some ⟨p.region, p.offset + index * plan.stride + plan.element.pre, .claimed⟩) :
    Materialized index (.array (.allocated plan p) head template alternatives staged elements)
      (.pure shared (.array (.allocated plan p) { head with calls } template alternatives staged
        (elements.set index (some e))) ()) := by
  obtain ⟨self, templates, built, children⟩ := sound_array_iff.1 hn
  obtain ⟨hlength, -⟩ := self.placed plan p rfl
  have hchildren : ∀ c, some c ∈ elements.set index (some e) → c.Sound := by
    intro c hc
    rcases List.mem_or_eq_of_mem_set hc with hc | hc
    · exact children c hc
    · cases hc
      exact hsound
  have hget : (elements.set index (some e))[index]?.join = some e := by
    rw [List.getElem?_set_self (by omega)]
    rfl
  refine ⟨hshared, ⟨sound_array_iff.2 ⟨self.made hshape hplaced, templates, built, hchildren⟩,
    depth_made_le hdepth, .of_status_eq rfl⟩, rfl, fun k => ?_, fun _ => ⟨e, hget⟩⟩
  -- the other elements are as they were
  show (elements.set index (some e))[k]?.join = elements[k]?.join ∨
    k = index ∧ elements[k]?.join = none
  by_cases hk : k = index
  · exact .inr ⟨hk, hk ▸ hnone⟩
  · rw [List.getElem?_set_ne (Ne.symm hk)]
    exact .inl rfl

/-- Making sure of an element of an array with storage. -/
theorem materialized_array
    (hn : (Node.array (.allocated plan p) head template alternatives staged elements).Sound)
    (hshared : shared.Coherent) :
    Materialized index (.array (.allocated plan p) head template alternatives staged elements)
      (materialize index (.array (.allocated plan p) head template alternatives staged elements)
        shared) := by
  simp only [materialize]
  by_cases hindex : index < head.length
  · rw [if_pos hindex]
    cases hjoin : elements[index]?.join with
    | some e => exact ⟨hshared, .refl hn, rfl, fun _ => .inl rfl, fun _ => ⟨e, hjoin⟩⟩
    | none =>
      -- an element is built and then placed; if either fails, only the count of calls is another
      have hmade := fresh_build hn index hshared
      generalize build prepare (.allocated plan p) template alternatives index head shared = made
        at hmade ⊢
      obtain ⟨after, head', result⟩ := made
      obtain ⟨calls, rfl⟩ : ∃ calls, head' = { head with calls } := hmade.counted
      cases result with
      | error fault => exact .counted hn hmade.coherent (by rintro ⟨⟩)
      | ok e =>
        obtain ⟨hsound, hdepth, -, _, ⟨⟩, hshape⟩ := hmade.ok e rfl
        have hclaimed : Claimed p.region (p.offset + index * plan.stride) .claimed e
            (claim p.region (p.offset + index * plan.stride) e after) :=
          claimed_claimWithin (Nat.le_refl _) hsound hmade.coherent
        simp only
        generalize claim p.region (p.offset + index * plan.stride) e after = placed at hclaimed ⊢
        split
        next fault hresult => exact .counted hn hclaimed.coherent (by rintro ⟨⟩)
        next hresult =>
          have hafter := hclaimed.evolves.keeps.shape _ hshape
          obtain ⟨s, -, hstatus⟩ := hclaimed.ok hresult
          obtain rfl : s = plan.element := by
            simpa [shape?, hstatus, Status.plan?] using hafter
          refine .made hn hclaimed.coherent hindex hjoin hclaimed.sound ?_ hafter ?_
          · have hle := hclaimed.depth_le
            have hpos := (Node.array (.allocated plan p) head template alternatives staged
              elements).depth_pos
            omega
          · rw [placement?, hstatus]
            rfl
  · rw [if_neg hindex]
    exact .failed hn hshared

end array

/-- Making sure of an element leaves a sound structure sound. -/
theorem materialized_materialize {n : Node} (hn : n.Sound) (hshared : shared.Coherent) :
    Materialized index n (n.materialize index shared) := by
  cases n with
  | leaf => exact .failed hn hshared
  | record => exact .failed hn hshared
  | array status head template alternatives staged elements =>
    cases status with
    | allocated plan p => exact materialized_array hn hshared
    | unallocated => exact .failed hn hshared
    | allocatable plan => exact .failed hn hshared

end NativeLayout.Node
