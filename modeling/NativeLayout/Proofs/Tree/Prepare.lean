import NativeLayout.Node.Prepare
import NativeLayout.Proofs.Tree.Alike
import NativeLayout.Proofs.Tree.Resolve

namespace NativeLayout.Node

/-!
# Preparing keeps structures sound

* `counted_build`, `counted_stageElements` — building elements changes nothing else in the head.
* `Fresh`, `makes_build`, `makes_buildMany` — the elements that an array builds.
* `build_eq_ok`, `buildMany_eq_ok` — what was done if this succeeds.
* `Prepared`, `prepared_prepare` — what preparing does to a sound structure, whether it succeeds or
  not: it looks alike afterwards, and a success leaves every array with its elements.
* `fresh_build` — so what a sound array builds is sound.
* `prepareWithin_of_ready` — preparing a second time changes nothing and builds nothing.
-/

/-! ### Counting -/

section counted

variable (prep : Node → Shared → Outcome Node Unit) (status : Status ArrayPlan) (head : ArrayHead)
  (template : Node) (alternatives : List (Nat × Node))

/-- Building an element only counts. -/
theorem counted_build (index : Nat) (shared : Shared) :
    ∃ calls, (build prep status template alternatives index head shared).state =
      { head with calls } := by
  simp only [build]
  split
  · exact ⟨head.calls, rfl⟩
  · split
    · exact ⟨_, rfl⟩
    · split <;> exact ⟨_, rfl⟩

/-- Building many elements only counts. -/
theorem counted_buildMany (count index : Nat) (shared : Shared) :
    ∃ calls, (buildMany (build prep status template alternatives) count index head shared).state =
      { head with calls } := by
  -- on the number of elements, each of which starts from the count before it
  induction count generalizing index head shared with
  | zero => exact ⟨head.calls, rfl⟩
  | succ count ih =>
    obtain ⟨calls, hfirst⟩ := counted_build prep status head template alternatives index shared
    simp only [buildMany]
    split
    · exact ⟨calls, hfirst⟩
    · rw [hfirst]
      exact ih _ (index + 1) _

/-- So does building the elements that are wanted in advance, whether or not all of them can be built. -/
theorem counted_stageElements (staged : List Node) (shared : Shared) :
    ∃ calls, (stageElements prep status head template alternatives staged shared).state.1 =
      { head with calls } := by
  obtain ⟨calls, hmade⟩ :=
    counted_buildMany prep status head template alternatives head.length 0 shared
  simp only [stageElements]
  split
  · exact ⟨head.calls, rfl⟩
  · split <;> exact ⟨calls, hmade⟩

end counted

/-! ### Building elements -/

/-- An element that an array built and that has no storage yet. -/
structure Fresh (d : Nat) (status : Status ArrayPlan) (e : Node) : Prop where
  sound : e.Sound
  depth_le : e.depth ≤ d
  ready : e.Ready
  shape : ∃ plan, status.plan? = some plan ∧ e.shape? = some plan.element

/-- What building leaves behind: calls are counted, and what is built has a property. -/
structure Makes {α : Type} (head : ArrayHead) (Q : α → Prop) (o : Outcome ArrayHead α) : Prop where
  coherent : o.shared.Coherent
  counted : ∃ calls, o.state = { head with calls }
  ok : ∀ a, o.result = .ok a → Q a

/-- What preparing leaves behind of a sound structure. -/
structure Prepared (n : Node) (o : Outcome Node Unit) : Prop where
  coherent : o.shared.Coherent
  sound : o.state.Sound
  depth_le : o.state.depth ≤ n.depth
  alike : Alike n o.state
  ready : o.result = .ok () → o.state.Ready

/-- A structure that looks alike keeps its shape and its place. -/
theorem Prepared.keeps {n : Node} {o : Outcome Node Unit} (h : Prepared n o) : Keeps n o.state :=
  .of_status_eq h.alike.status.symm

/-- So a prepared structure has only evolved. -/
theorem Prepared.evolves {n : Node} {o : Outcome Node Unit} (h : Prepared n o) :
    Evolves n o.state :=
  ⟨h.sound, h.depth_le, h.keeps⟩

/-- A structure that is ready may be left as it is. -/
theorem Prepared.unchanged {n : Node} {shared : Shared} (hn : n.Sound) (hshared : shared.Coherent)
    (hready : n.Ready) : Prepared n (.pure shared n ()) :=
  ⟨hshared, hn, Nat.le_refl _, .refl n, fun _ => hready⟩

section build

variable {prep : Node → Shared → Outcome Node Unit} {d : Nat} {status : Status ArrayPlan}
  {head : ArrayHead} {template : Node} {alternatives : List (Nat × Node)} {shared : Shared}

/-- **One element.** It is the chosen template, resolved and prepared, with the shape that the array was
planned for. -/
theorem makes_build
    (hprep : ∀ m : Node, m.depth ≤ d → m.Sound → ∀ shared : Shared, shared.Coherent →
      Prepared m (prep m shared))
    (hdefault : template.Sound ∧ template.depth ≤ d)
    (hothers : ∀ e ∈ alternatives, e.2.Sound ∧ e.2.depth ≤ d) (index calls : Nat)
    (hshared : shared.Coherent) :
    Makes head (Fresh d status)
      (build prep status template alternatives index { head with calls } shared) := by
  -- whichever template is chosen, it is sound and not too deep
  have hchosen : (choose calls alternatives template).Sound ∧
      (choose calls alternatives template).depth ≤ d :=
    choose_induction (P := fun m : Node => m.Sound ∧ m.depth ≤ d) hdefault hothers
  obtain ⟨hsound, hdepth⟩ := hchosen
  have hmade := resolved_resolve hsound (hshared.count head.counter)
  simp only [build]
  generalize (choose calls alternatives template).resolve (shared.count head.counter) = made
    at hmade ⊢
  have hmadeDepth := Nat.le_trans hmade.depth_le hdepth
  -- without a plan nothing is built
  split
  next => exact ⟨hshared, ⟨_, rfl⟩, by rintro _ ⟨⟩⟩
  next plan hplan =>
    -- a template may resolve to a fault, or to a shape that does not match
    split
    next => exact ⟨hmade.coherent, ⟨_, rfl⟩, by rintro _ ⟨⟩⟩
    next shape hshape =>
      split
      next helement =>
        have hready := hprep made.state hmadeDepth hmade.sound made.shared hmade.coherent
        refine ⟨hready.coherent, ⟨_, rfl⟩, ?_⟩
        intro e he
        cases hresult : (prep made.state made.shared).result with
        | error fault =>
          rw [hresult] at he
          cases he
        | ok =>
          rw [hresult] at he
          cases he
          refine ⟨hready.sound, Nat.le_trans hready.depth_le hmadeDepth, hready.ready hresult,
            plan, hplan, ?_⟩
          rw [← helement]
          exact hready.keeps.shape shape (hmade.ok shape hshape)
      next => exact ⟨hmade.coherent, ⟨_, rfl⟩, by rintro _ ⟨⟩⟩

/-- An element that was built: the template that was chosen is resolved and prepared, which is one call. -/
theorem build_eq_ok {index : Nat} {e : Node}
    (h : (build prep status template alternatives index head shared).result = .ok e) :
    let made := (choose head.calls alternatives template).resolve (shared.count head.counter)
    (∃ s, made.result = .ok s) ∧ (prep made.state made.shared).result = .ok () ∧
      e = (prep made.state made.shared).state ∧
      (build prep status template alternatives index head shared).state =
        { head with calls := head.calls + 1 } := by
  simp only [build] at h ⊢
  cases hplan : status.plan? with
  | none =>
    simp only [hplan] at h
    cases h
  | some plan =>
    simp only [hplan] at h ⊢
    generalize (choose head.calls alternatives template).resolve (shared.count head.counter) = made
      at h ⊢
    cases hmade : made.result with
    | error fault =>
      simp only [hmade] at h
      cases h
    | ok s =>
      -- an element of another shape is refused, and so it was none
      by_cases hs : s = plan.element
      · simp only [hmade, if_pos hs] at h ⊢
        cases hready : (prep made.state made.shared).result with
        | error fault =>
          rw [hready] at h
          cases h
        | ok =>
          rw [hready] at h
          cases h
          exact ⟨⟨s, rfl⟩, rfl, rfl, trivial⟩
      · simp only [hmade, if_neg hs] at h
        cases h

/-- Many elements that were built: each of them is one call. -/
theorem buildMany_eq_ok {one : Nat → ArrayHead → Shared → Outcome ArrayHead Node} {Q : Node → Prop}
    (hone : ∀ index calls (shared : Shared), shared.Coherent → ∀ e,
      (one index { head with calls } shared).result = .ok e →
        (one index { head with calls } shared).shared.Coherent ∧
        (one index { head with calls } shared).state = { head with calls := calls + 1 } ∧ Q e)
    {count index : Nat} (calls : Nat) {es : List Node} (hshared : shared.Coherent)
    (h : (buildMany one count index { head with calls } shared).result = .ok es) :
    (buildMany one count index { head with calls } shared).state =
        { head with calls := calls + count } ∧ es.length = count ∧ ∀ e ∈ es, Q e := by
  induction count generalizing index calls shared es with
  | zero =>
    cases h
    exact ⟨rfl, rfl, by simp⟩
  | succ count ih =>
    simp only [buildMany] at h ⊢
    cases hfirst : (one index { head with calls } shared).result with
    | error fault =>
      simp only [hfirst] at h
      cases h
    | ok e =>
      -- the other elements go on from the calls that the first one left
      obtain ⟨hcoherent, hstate, hself⟩ := hone index calls shared hshared e hfirst
      simp only [hfirst, hstate] at h ⊢
      cases hothers : (buildMany one count (index + 1) { head with calls := calls + 1 }
          (one index { head with calls } shared).shared).result with
      | error fault =>
        rw [hothers] at h
        cases h
      | ok others =>
        rw [hothers] at h
        cases h
        obtain ⟨hcalls, hlength, hall⟩ := ih (calls + 1) hcoherent hothers
        refine ⟨?_, congrArg (· + 1) hlength, List.forall_mem_cons.2 ⟨hself, hall⟩⟩
        rw [hcalls, Nat.add_assoc, Nat.add_comm 1]

/-- Building many elements is building each of them; a failure leaves none. -/
theorem makes_buildMany {one : Nat → ArrayHead → Shared → Outcome ArrayHead Node}
    {Q : Node → Prop}
    (hone : ∀ index calls (shared : Shared), shared.Coherent →
      Makes head Q (one index { head with calls } shared)) (count index calls : Nat)
    (hshared : shared.Coherent) :
    Makes head (fun es => es.length = count ∧ ∀ e ∈ es, Q e)
      (buildMany one count index { head with calls } shared) := by
  induction count generalizing index calls shared with
  | zero => exact ⟨hshared, ⟨_, rfl⟩, by rintro _ ⟨⟩; simp⟩
  | succ count ih =>
    have hfirst := hone index calls shared hshared
    simp only [buildMany]
    generalize one index { head with calls } shared = first at hfirst ⊢
    obtain ⟨calls', hstate⟩ := hfirst.counted
    have hothers := ih (index + 1) calls' hfirst.coherent
    split
    next => exact ⟨hfirst.coherent, hfirst.counted, by rintro _ ⟨⟩⟩
    -- a failure later on throws this one away too
    next element helement =>
      rw [hstate]
      refine ⟨hothers.coherent, hothers.counted, fun es hes => ?_⟩
      generalize buildMany one count (index + 1) { head with calls := calls' } first.shared =
        others at hothers hes
      cases hresult : others.result with
      | error fault =>
        simp only [hresult] at hes
        cases hes
      | ok later =>
        simp only [hresult] at hes
        cases hes
        obtain ⟨hlength, hlater⟩ := hothers.ok later hresult
        exact ⟨by simp [hlength], List.forall_mem_cons.2 ⟨hfirst.ok element helement, hlater⟩⟩

/-- What staging leaves behind of a sound array. -/
structure Staged (d : Nat) (status : Status ArrayPlan) (head : ArrayHead) (staged : List Node)
    (o : Outcome (ArrayHead × List Node) Unit) : Prop where
  coherent : o.shared.Coherent
  counted : ∃ calls, o.state.1 = { head with calls }
  built : o.state.2 = staged ∨
    o.state.2.length = head.length ∧ ∀ e ∈ o.state.2, Fresh d status e
  ready : o.result = .ok () → head.lazy = true ∨ o.state.2.length = head.length

/-- **All elements.** They are kept only if each of them could be built. -/
theorem staged_stageElements {staged : List Node}
    (hprep : ∀ m : Node, m.depth ≤ d → m.Sound → ∀ shared : Shared, shared.Coherent →
      Prepared m (prep m shared))
    (hdefault : template.Sound ∧ template.depth ≤ d)
    (hothers : ∀ e ∈ alternatives, e.2.Sound ∧ e.2.depth ≤ d) (hshared : shared.Coherent) :
    Staged d status head staged
      (stageElements prep status head template alternatives staged shared) := by
  simp only [stageElements]
  -- a lazy array builds none, and one that has them builds no others
  split
  next hdone => exact ⟨hshared, ⟨_, rfl⟩, .inl rfl, fun _ => hdone⟩
  next =>
    have hmade : Makes head (fun es : List Node => es.length = head.length ∧
        ∀ e ∈ es, Fresh d status e)
        (buildMany (build prep status template alternatives) head.length 0 head shared) :=
      makes_buildMany (fun index calls _ hs => makes_build hprep hdefault hothers index calls hs)
        head.length 0 head.calls hshared
    split
    next => exact ⟨hmade.coherent, hmade.counted, .inl rfl, by rintro ⟨⟩⟩
    next elements helements =>
      obtain ⟨hlength, hfresh⟩ := hmade.ok elements helements
      exact ⟨hmade.coherent, hmade.counted, .inr ⟨hlength, hfresh⟩, fun _ => .inr hlength⟩

end build

/-! ### Preparing -/

/-- **Records.** Each field is prepared; the ones behind a failure are not, and yet the record looks
alike. -/
theorem prepared_record {status : Status RecordLayout} {head : RecordHead}
    {fields : List (Field Node)} {shared : Shared} {prep : Node → Shared → Outcome Node Unit}
    (hn : (Node.record status head fields).Sound) (hshared : shared.Coherent)
    (ih : ∀ f ∈ fields, ∀ shared : Shared, shared.Coherent → Prepared f.child (prep f.child shared)) :
    let r := traverse (fun f shared => (prep f.child shared).mapState f.withChild) fields shared
    Prepared (.record status head fields)
      ⟨r.shared, .record status head r.state, r.result.map fun _ => ()⟩ := by
  obtain ⟨-, hchildren⟩ := sound_record_iff.1 hn
  -- fields may be prepared when a later one fails, and have to look alike nevertheless
  obtain ⟨hcoherent, hlift⟩ := traverse_forall₂
    (R := Lift fun c c' => Evolves c c' ∧ Alike c c')
    (f := fun (f : Field Node) shared => (prep f.child shared).mapState f.withChild)
    (fun f hf => ⟨rfl, rfl, .refl (hchildren f hf), .refl _⟩)
    (fun f hf shared hs =>
      have h := ih f hf shared hs
      ⟨h.coherent, Lift.withChild ⟨h.evolves, h.alike⟩⟩) hshared
  have hevolves := hlift.imp fun _ _ h => h.imp And.left
  refine ⟨hcoherent, sound_record_of_lift hn hevolves, depth_record_le_of_lift hevolves, ?_, ?_⟩
  · exact alike_record (hlift.imp fun _ _ h => h.imp And.right)
  · intro hok
    obtain ⟨values, hvalues⟩ := Outcome.ok_of_map hok
    have hready := traverse_ok (Q := fun f _ => f.child.Ready)
      (fun f hf shared hs => ⟨(ih f hf shared hs).coherent, fun _ => (ih f hf shared hs).ready⟩)
      hshared hvalues
    refine .record fun f hf => ?_
    obtain ⟨_, -, h⟩ := forall₂_mem hready.flip hf
    exact h

/-- **Arrays.** Whatever elements were built, they are sound, and not deeper than the templates they came
from. -/
theorem prepared_array {status : Status ArrayPlan} {head : ArrayHead} {template : Node}
    {alternatives : List (Nat × Node)} {staged : List Node} {elements : List (Option Node)}
    {o : Outcome (ArrayHead × List Node) Unit} {d : Nat}
    (hn : (Node.array status head template alternatives staged elements).Sound)
    (hdepth : (Node.array status head template alternatives staged elements).depth = d + 1)
    (ho : Staged d status head staged o) :
    Prepared (.array status head template alternatives staged elements)
      (o.mapState fun s => .array status s.1 template alternatives s.2 elements) := by
  obtain ⟨self, templates, built, children⟩ := sound_array_iff.1 hn
  obtain ⟨htemplates, hstaged, hchildren⟩ := depth_array_le_iff.1 (Nat.le_of_eq hdepth)
  obtain ⟨calls, hhead⟩ := ho.counted
  have hself := self.counted calls
  -- the staged elements are the ones there were, or new ones for all indices
  have hbuilt : ArraySound status o.state.1 template alternatives o.state.2 elements ∧
      ∀ e ∈ o.state.2, e.Sound ∧ e.depth ≤ d ∧ e.Ready := by
    rw [hhead]
    rcases ho.built with hsame | ⟨hlength, hfresh⟩
    · rw [hsame]
      exact ⟨hself, fun e he => ⟨built e he, hstaged e he, (self.staged e he).1⟩⟩
    · refine ⟨⟨hself.plan, hself.origin, .inr hlength,
        fun e he => ⟨(hfresh e he).ready, (hfresh e he).shape⟩, hself.unplaced, hself.placed⟩,
        fun e he => ?_⟩
      exact ⟨(hfresh e he).sound, (hfresh e he).depth_le, (hfresh e he).ready⟩
  refine ⟨ho.coherent, ?_, ?_, alike_array, ?_⟩
  · exact sound_array_iff.2 ⟨hbuilt.1, templates, fun e he => (hbuilt.2 e he).1, children⟩
  · rw [hdepth]
    exact depth_array_le_iff.2 ⟨htemplates, fun e he => (hbuilt.2 e he).2.1, hchildren⟩
  · intro hok
    refine .array ?_ fun e he => (hbuilt.2 e he).2.2
    rw [hhead]
    exact ho.ready hok

/-- **Preparing.** Records and arrays in turn, as deep as the structure is. -/
theorem prepared_prepareWithin {fuel : Nat} {n : Node} (hfuel : n.depth ≤ fuel) (hn : n.Sound)
    {shared : Shared} (hshared : shared.Coherent) : Prepared n (prepareWithin fuel n shared) := by
  -- over the fuel and not over the tree: what an array builds is no part of it yet
  induction fuel generalizing n shared with
  | zero =>
    have hpos := n.depth_pos
    omega
  | succ fuel ih =>
    cases n with
    | leaf => exact .unchanged hn hshared .leaf
    | record status head fields =>
      have hchildren := (sound_record_iff.1 hn).2
      have hdepth := depth_record_le_iff.1 hfuel
      exact prepared_record hn hshared fun f hf _ hs => ih (hdepth f hf) (hchildren f hf) hs
    | array status head template alternatives staged elements =>
      obtain ⟨d, hd⟩ : ∃ d, (Node.array status head template alternatives staged elements).depth =
          d + 1 := Nat.exists_eq_add_one.2 (depth_pos _)
      obtain ⟨-, ⟨hdefault, hothers⟩, -, -⟩ := sound_array_iff.1 hn
      obtain ⟨⟨htemplate, halternatives⟩, -, -⟩ := depth_array_le_iff.1 (Nat.le_of_eq hd)
      refine prepared_array hn hd (staged_stageElements (fun m hm hsound shared hs => ?_)
        ⟨hdefault, htemplate⟩ (fun e he => ⟨hothers e he, halternatives e he⟩) hshared)
      exact ih (by omega) hsound hs

/-! ### A second time -/

/-- An array that is lazy, or has its elements, builds nothing. -/
theorem stageElements_of_done {prep : Node → Shared → Outcome Node Unit} {status : Status ArrayPlan}
    {head : ArrayHead} {template : Node} {alternatives : List (Nat × Node)} {staged : List Node}
    {shared : Shared} (h : head.lazy = true ∨ staged.length = head.length) :
    stageElements prep status head template alternatives staged shared =
      .pure shared (head, staged) () := by
  rw [stageElements, if_pos h]

/-- A structure that is ready stays as it is, and nothing is built for it. -/
theorem prepareWithin_of_ready {n : Node} (h : n.Ready) (fuel : Nat) (shared : Shared) :
    prepareWithin fuel n shared = .pure shared n () := by
  induction h generalizing fuel shared with
  | leaf => cases fuel <;> rfl
  | @record status head fields children ih =>
    cases fuel with
    | zero => rfl
    | succ fuel =>
      -- each field stays, and so the traversal only answers
      have hsame : traverse (fun f shared => (prepareWithin fuel f.child shared).mapState f.withChild)
          fields shared = .pure shared fields (fields.map fun _ => ()) := by
        apply traverse_of_pure
        intro f hf shared
        rw [ih f hf]
        rfl
      simp only [prepareWithin, hsame]
      rfl
  | array all =>
    cases fuel with
    | zero => rfl
    | succ fuel =>
      simp only [prepareWithin, stageElements_of_done all]
      rfl

/-- Preparing what is ready does nothing, so that it may be done at every level above. -/
theorem prepare_of_ready {n : Node} (h : n.Ready) (shared : Shared) :
    n.prepare shared = .pure shared n () :=
  prepareWithin_of_ready h n.depth shared

/-- Preparing leaves a sound structure sound. -/
theorem prepared_prepare {n : Node} (hn : n.Sound) {shared : Shared} (hshared : shared.Coherent) :
    Prepared n (n.prepare shared) :=
  prepared_prepareWithin (Nat.le_refl _) hn hshared

/-- Whatever a sound array builds is sound, and not as deep as the array. -/
theorem fresh_build {status : Status ArrayPlan} {head : ArrayHead} {template : Node}
    {alternatives : List (Nat × Node)} {staged : List Node} {elements : List (Option Node)}
    (hn : (Node.array status head template alternatives staged elements).Sound) (index : Nat)
    {shared : Shared} (hshared : shared.Coherent) :
    Makes head (Fresh ((Node.array status head template alternatives staged elements).depth - 1) status)
      (build prepare status template alternatives index head shared) := by
  obtain ⟨-, ⟨hdefault, hothers⟩, -, -⟩ := sound_array_iff.1 hn
  obtain ⟨d, hd⟩ : ∃ d, (Node.array status head template alternatives staged elements).depth = d + 1 :=
    Nat.exists_eq_add_one.2 (depth_pos _)
  obtain ⟨⟨htemplate, halternatives⟩, -, -⟩ := depth_array_le_iff.1 (Nat.le_of_eq hd)
  rw [hd, Nat.add_sub_cancel]
  exact makes_build (fun m _ hm _ hs => prepared_prepare hm hs) ⟨hdefault, htemplate⟩
    (fun e he => ⟨hothers e he, halternatives e he⟩) index head.calls hshared

end NativeLayout.Node
