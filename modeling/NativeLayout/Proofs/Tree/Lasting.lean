import NativeLayout.Proofs.Catalog.Oblivious
import NativeLayout.Proofs.Tree.Claim

namespace NativeLayout.Node

/-!
# Properties that building elements leaves

* `Learns`, `Learns.resolve` — properties that a structure keeps when it is resolved.
* `Lasting` — a property that neither a shape nor new elements take away from a structure.
* `Lasting.resolve`, `Lasting.prepare` — when every structure of a tree has it, this stays so while the
  tree is resolved and its arrays build their elements.
* `ResolvesAlike`, `Steady` — all that an array builds resolves alike, and so does all that the arrays
  in a structure build.
* `Steady.prepare` — then preparing a resolved structure succeeds.
-/

variable {n : Node} {Q : Node → Prop} {shared : Shared} {d fuel : Nat}
  {prep : Node → Shared → Outcome Node Unit}

/-! ### Resolving -/

/-- A property that a structure without storage keeps when it learns its shape: a record has it for its
fields, and for an array neither the plan nor the count of calls matters. -/
structure Learns (P : Node → Prop) : Prop where
  leaf : ∀ {shape kind}, P (.leaf .unallocated kind) → P (.leaf (.allocatable shape) kind)
  fields : ∀ {head fields}, P (.record .unallocated head fields) → ∀ f ∈ fields, P f.child
  record : ∀ {status : Status RecordLayout} {head fields}, status.placement? = none →
    (∀ f ∈ fields, P f.child) → P (.record status head fields)
  array : ∀ {status : Status ArrayPlan} {head template alternatives staged elements} (calls : Nat),
    status.placement? = none → P (.array .unallocated head template alternatives staged elements) →
      P (.array status { head with calls } template alternatives staged elements)

/-- Resolving keeps such a property. -/
theorem Learns.resolve {P : Node → Prop} (hP : Learns P) (hn : P n) (hshared : shared.Coherent) :
    P (n.resolve shared).state := by
  induction n.forall_true generalizing shared with
  | @leaf status kind =>
    cases status with
    | unallocated =>
      simp only [Node.resolve, Status.plan?]
      split
      · exact hn
      · exact hP.leaf hn
    | allocatable => exact hn
    | allocated => exact hn
  | @record status head fields _ _ ih =>
    cases status with
    | unallocated =>
      obtain ⟨-, hlift⟩ := traverse_forall₂ (R := fun _ (g : Field Node) => P g.child)
        (f := fun (f : Field Node) shared => (f.child.resolve shared).mapState f.withChild)
        (hP.fields hn)
        (fun f hf shared hs => ⟨(f.child.oblivious_resolve shared shared hs hs).left,
          ih f hf (hP.fields hn f hf) hs⟩) hshared
      -- whatever comes out for the record, its fields have the property already
      have hafter : ∀ g ∈ (traverse (fun f shared =>
          (f.child.resolve shared).mapState f.withChild) fields shared).state, P g.child := by
        intro g hg
        obtain ⟨_, -, h⟩ := forall₂_mem hlift hg
        exact h
      rw [resolve_record]
      simp only
      split
      · exact hP.record rfl hafter
      · split <;> exact hP.record rfl hafter
    | allocatable => exact hn
    | allocated => exact hn
  | @array status head template alternatives staged elements =>
    cases status with
    | unallocated =>
      by_cases hlength : head.length = 0
      · simp only [Node.resolve, Status.plan?, if_pos hlength]
        exact hn
      · rw [resolve_array _ _ _ _ _ _ hlength]
        simp only
        split
        · exact hP.array _ rfl hn
        · split <;> exact hP.array _ rfl hn
    | allocatable => exact hn
    | allocated => exact hn

/-- A property that neither a shape nor new elements take away from a structure. -/
structure Lasting (Q : Node → Prop) : Prop where
  leaf : ∀ {shape : Shape} {kind : Leaf}, Q (.leaf .unallocated kind) →
    Q (.leaf (.allocatable shape) kind)
  record : ∀ {status : Status RecordLayout} {head fields}, status.placement? = none →
    Q (.record status head fields)
  fields : ∀ {status : Status RecordLayout} {head fields} (fields' : List (Field Node)),
    Q (.record status head fields) → Q (.record status head fields')
  planned : ∀ {status : Status ArrayPlan} {head template alternatives staged elements},
    status.placement? = none → Q (.array .unallocated head template alternatives staged elements) →
      Q (.array status head template alternatives staged elements)
  array : ∀ {status : Status ArrayPlan} {head template alternatives staged elements} (calls : Nat)
    (staged' : List Node), Q (.array status head template alternatives staged elements) →
      Q (.array status { head with calls } template alternatives staged' elements)

/-- What lasts while structures are built lasts while they resolve. -/
theorem Lasting.learns (hQ : Lasting Q) : Learns fun n => n.Forall Q where
  leaf h := .leaf (hQ.leaf h.self_of)
  fields h := (forall_record_iff.1 h).2
  record hnone h := .record (hQ.record hnone) h
  array calls hnone h := by
    obtain ⟨self, templates, built, children⟩ := forall_array_iff.1 h
    exact forall_array_iff.2 ⟨hQ.array calls _ (hQ.planned hnone self), templates, built, children⟩

/-- A property that lasts is not lost when a structure resolves. -/
theorem Lasting.resolve (hQ : Lasting Q) (h : n.Forall Q) (hshared : shared.Coherent) :
    (n.resolve shared).state.Forall Q :=
  hQ.learns.resolve h hshared

/-! ### Preparing -/

/-- An operation that prepares every sound structure that is not too deep, and leaves a property of
the structures in it. -/
def PreparesWith (d : Nat) (Q : Node → Prop) (prep : Node → Shared → Outcome Node Unit) : Prop :=
  ∀ m : Node, m.depth ≤ d → m.Sound → m.Forall Q → ∀ shared : Shared, shared.Coherent →
    Prepared m (prep m shared) ∧ (prep m shared).state.Forall Q

section array

variable {status : Status ArrayPlan} {head : ArrayHead} {template : Node}
  {alternatives : List (Nat × Node)} {staged : List Node} {elements : List (Option Node)}

/-- What an array builds has the property if its templates have. -/
theorem Lasting.build (hQ : Lasting Q) (hprep : PreparesWith d Q prep)
    (hdefault : template.Sound ∧ template.depth ≤ d ∧ template.Forall Q)
    (hothers : ∀ e ∈ alternatives, e.2.Sound ∧ e.2.depth ≤ d ∧ e.2.Forall Q) (index calls : Nat)
    (hshared : shared.Coherent) :
    Makes head (fun e => e.Forall Q)
      (build prep status template alternatives index { head with calls } shared) := by
  obtain ⟨hsound, hdepth, hforall⟩ : (choose calls alternatives template).Sound ∧
      (choose calls alternatives template).depth ≤ d ∧
      (choose calls alternatives template).Forall Q :=
    choose_induction (P := fun m : Node => m.Sound ∧ m.depth ≤ d ∧ m.Forall Q) hdefault hothers
  have hcounted := hshared.count head.counter
  have hmade := resolved_resolve hsound hcounted
  have hafter := hQ.resolve hforall hcounted
  simp only [Node.build]
  -- the template or an alternative, resolved: what follows only prepares it
  generalize (choose calls alternatives template).resolve (shared.count head.counter) = made
    at hmade hafter ⊢
  split
  next => exact ⟨hshared, ⟨_, rfl⟩, by rintro _ ⟨⟩⟩
  next =>
    split
    next => exact ⟨hmade.coherent, ⟨_, rfl⟩, by rintro _ ⟨⟩⟩
    next =>
      split
      next =>
        obtain ⟨hready, hprepared⟩ := hprep made.state (Nat.le_trans hmade.depth_le hdepth) hmade.sound
          hafter made.shared hmade.coherent
        refine ⟨hready.coherent, ⟨_, rfl⟩, fun e he => ?_⟩
        cases hresult : (prep made.state made.shared).result with
        | error fault =>
          rw [hresult] at he
          cases he
        | ok =>
          rw [hresult] at he
          cases he
          exact hprepared
      next => exact ⟨hmade.coherent, ⟨_, rfl⟩, by rintro _ ⟨⟩⟩

/-- The elements that an array builds in advance have what its templates have. -/
theorem Lasting.stageElements (hQ : Lasting Q) (hprep : PreparesWith d Q prep)
    (hdefault : template.Sound ∧ template.depth ≤ d ∧ template.Forall Q)
    (hothers : ∀ e ∈ alternatives, e.2.Sound ∧ e.2.depth ≤ d ∧ e.2.Forall Q)
    (hstaged : ∀ e ∈ staged, e.Forall Q) (hshared : shared.Coherent) :
    ∀ e ∈ (stageElements prep status head template alternatives staged shared).state.2,
      e.Forall Q := by
  simp only [Node.stageElements]
  split
  next => exact hstaged
  next =>
    have hmade : Makes head (fun es : List Node => es.length = head.length ∧ ∀ e ∈ es, e.Forall Q)
        (buildMany (Node.build prep status template alternatives) head.length 0 head shared) :=
      makes_buildMany (fun index calls _ hs => hQ.build hprep hdefault hothers index calls hs)
        head.length 0 head.calls hshared
    split
    next => exact hstaged
    next es hes => exact (hmade.ok es hes).2

end array

/-- A property that lasts is not lost when a structure is prepared, and what is built has it. -/
theorem Lasting.prepareWithin (hQ : Lasting Q) (hfuel : n.depth ≤ fuel) (hn : n.Sound)
    (h : n.Forall Q) (hshared : shared.Coherent) :
    (prepareWithin fuel n shared).state.Forall Q := by
  -- over the fuel, as the elements that are built are no parts of the structure yet
  induction fuel generalizing n shared with
  | zero => exact h
  | succ fuel ih =>
    have hprep : PreparesWith fuel Q (Node.prepareWithin fuel) :=
      fun m hm hsound hforall _ hs => ⟨prepared_prepareWithin hm hsound hs, ih hm hsound hforall hs⟩
    cases n with
    | leaf => exact h
    | record status head fields =>
      obtain ⟨self, children⟩ := forall_record_iff.1 h
      have hsound := (sound_record_iff.1 hn).2
      have hdepth := depth_record_le_iff.1 hfuel
      obtain ⟨-, hlift⟩ := traverse_forall₂ (R := fun _ (g : Field Node) => g.child.Forall Q)
        (f := fun (f : Field Node) shared =>
          (Node.prepareWithin fuel f.child shared).mapState f.withChild)
        children
        (fun f hf shared hs =>
          have hfirst := hprep f.child (hdepth f hf) (hsound f hf) (children f hf) shared hs
          ⟨hfirst.1.coherent, hfirst.2⟩) hshared
      refine forall_record_iff.2 ⟨hQ.fields _ self, fun g hg => ?_⟩
      obtain ⟨_, -, hafter⟩ := forall₂_mem hlift hg
      exact hafter
    | array status head template alternatives staged elements =>
      obtain ⟨self, ⟨hdefault, hothers⟩, hstaged, children⟩ := forall_array_iff.1 h
      obtain ⟨-, ⟨hdefaultSound, hothersSound⟩, -, -⟩ := sound_array_iff.1 hn
      obtain ⟨⟨htemplate, halternatives⟩, -, -⟩ := depth_array_le_iff.1 hfuel
      have hbuilt : ∀ e ∈ (Node.stageElements (Node.prepareWithin fuel) status head template
          alternatives staged shared).state.2, e.Forall Q :=
        hQ.stageElements hprep ⟨hdefaultSound, htemplate, hdefault⟩
        (fun e he => ⟨hothersSound e he, halternatives e he, hothers e he⟩) hstaged hshared
      obtain ⟨calls, hhead⟩ := counted_stageElements (Node.prepareWithin fuel) status head template
        alternatives staged shared
      simp only [Node.prepareWithin, Outcome.mapState, hhead]
      exact forall_array_iff.2 ⟨hQ.array calls _ self, ⟨hdefault, hothers⟩, hbuilt, children⟩

/-- The same for the fuel that preparing is given. -/
theorem Lasting.prepare (hQ : Lasting Q) (hn : n.Sound) (h : n.Forall Q)
    (hshared : shared.Coherent) : (n.prepare shared).state.Forall Q :=
  hQ.prepareWithin (Nat.le_refl _) hn h hshared

/-! ### Arrays that build one shape -/

/-- What an array builds resolves alike, whichever call it is. -/
def ResolvesAlike (template : Node) (alternatives : List (Nat × Node)) : Prop :=
  ∀ call call', ((choose call alternatives template).resolve .empty).result =
    ((choose call' alternatives template).resolve .empty).result

/-- If the structure is an array, what it builds resolves alike. -/
def SteadyHere : Node → Prop
  | .array _ _ template alternatives _ _ => ResolvesAlike template alternatives
  | _ => True

/-- All that an array in the structure builds resolves alike. -/
abbrev Steady (n : Node) : Prop := n.Forall SteadyHere

/-- Whether templates resolve alike does not change with what is built. -/
theorem lasting_steadyHere : Lasting SteadyHere where
  leaf _ := trivial
  record _ := trivial
  fields _ _ := trivial
  planned _ h := h
  array _ _ h := h

/-- The fields of a resolved record are resolved. -/
theorem RecordSound.isSome_shape? {status : Status RecordLayout} {head : RecordHead}
    {fields : List (Field Node)} (h : RecordSound status head fields) (hplan : status.plan?.isSome)
    {f : Field Node} (hf : f ∈ fields) : f.child.shape?.isSome := by
  obtain ⟨l, hl⟩ := Option.isSome_iff_exists.1 hplan
  obtain ⟨shapes, hshapes, -⟩ := h.layout l hl
  obtain ⟨_, -, hs⟩ := forall₂_mem hshapes.flip hf
  rw [hs]
  rfl

/-- An operation that prepares every steady and resolved structure that is not too deep. -/
def PreparesSteady (d : Nat) (prep : Node → Shared → Outcome Node Unit) : Prop :=
  ∀ m : Node, m.depth ≤ d → m.Sound → m.Steady → m.shape?.isSome → ∀ shared : Shared,
    shared.Coherent → (prep m shared).result = .ok ()

section array

variable {status : Status ArrayPlan} {head : ArrayHead} {template : Node}
  {alternatives : List (Nat × Node)} {staged : List Node} {elements : List (Option Node)}
  {plan : ArrayPlan}

/-- What an array was planned for is what any of its calls resolves to. -/
theorem ResolvesAlike.resolve_choose (h : ResolvesAlike template alternatives)
    (hn : ArraySound status head template alternatives staged elements)
    (hplan : status.plan? = some plan) (call : Nat) (hshared : shared.Coherent) :
    ((choose call alternatives template).resolve shared).result = .ok plan.element := by
  obtain ⟨first, shared', hshared', hresult, -⟩ := hn.origin plan hplan
  have hempty := Shared.coherent_empty
  calc ((choose call alternatives template).resolve shared).result
      = ((choose call alternatives template).resolve .empty).result :=
        (oblivious_resolve _ _ _ hshared hempty).result
    _ = ((choose first alternatives template).resolve .empty).result := h call first
    _ = ((choose first alternatives template).resolve shared').result :=
        (oblivious_resolve _ _ _ hempty hshared').result
    _ = .ok plan.element := hresult

/-- An array whose templates are steady and resolve alike can build an element at any time. -/
theorem ResolvesAlike.build (h : ResolvesAlike template alternatives)
    (hn : ArraySound status head template alternatives staged elements)
    (hplan : status.plan? = some plan) (hprep : PreparesSteady d prep)
    (hdefault : template.Sound ∧ template.depth ≤ d ∧ template.Steady)
    (hothers : ∀ e ∈ alternatives, e.2.Sound ∧ e.2.depth ≤ d ∧ e.2.Steady)
    (index calls : Nat) (hshared : shared.Coherent) :
    ∃ e, (build prep status template alternatives index { head with calls } shared).result =
      .ok e := by
  obtain ⟨hsound, hdepth, hsteady⟩ : (choose calls alternatives template).Sound ∧
      (choose calls alternatives template).depth ≤ d ∧ (choose calls alternatives template).Steady :=
    choose_induction (P := fun m : Node => m.Sound ∧ m.depth ≤ d ∧ m.Steady) hdefault hothers
  have hcounted := hshared.count head.counter
  have hresult := h.resolve_choose hn hplan calls hcounted
  have hresolved := resolved_resolve hsound hcounted
  have hafter := lasting_steadyHere.resolve hsteady hcounted
  simp only [Node.build, hplan]
  generalize (choose calls alternatives template).resolve (shared.count head.counter) = made
    at hresult hresolved hafter ⊢
  have hshape : made.state.shape?.isSome := by
    rw [hresolved.ok plan.element hresult]
    rfl
  -- it has the shape that was planned, so it is accepted, and preparing it cannot fail
  have hok := hprep made.state (Nat.le_trans hresolved.depth_le hdepth) hresolved.sound hafter hshape
    made.shared hresolved.coherent
  refine ⟨(prep made.state made.shared).state, ?_⟩
  simp only [hresult, if_true, hok]
  rfl

/-- Building many elements succeeds if building each of them does. -/
theorem exists_buildMany {one : Nat → ArrayHead → Shared → Outcome ArrayHead Node} {Q : Node → Prop}
    (hone : ∀ index calls (shared : Shared), shared.Coherent →
      Makes head Q (one index { head with calls } shared) ∧
        ∃ e, (one index { head with calls } shared).result = .ok e)
    (count index calls : Nat) (hshared : shared.Coherent) :
    ∃ es, (buildMany one count index { head with calls } shared).result = .ok es := by
  induction count generalizing index calls shared with
  | zero => exact ⟨[], rfl⟩
  | succ count ih =>
    obtain ⟨hmakes, e, he⟩ := hone index calls shared hshared
    obtain ⟨calls', hstate⟩ := hmakes.counted
    obtain ⟨es, hes⟩ := ih (index + 1) calls' hmakes.coherent
    refine ⟨e :: es, ?_⟩
    simp only [buildMany, he, hstate, hes]
    rfl

/-- Where all templates resolve alike, building in advance succeeds: every element has the shape that was
planned. -/
theorem ResolvesAlike.stageElements (h : ResolvesAlike template alternatives)
    (hn : ArraySound status head template alternatives staged elements)
    (hplan : status.plan? = some plan) (hsteady : PreparesSteady d prep)
    (hprepared : ∀ m : Node, m.depth ≤ d → m.Sound → ∀ shared : Shared, shared.Coherent →
      Prepared m (prep m shared))
    (hdefault : template.Sound ∧ template.depth ≤ d ∧ template.Steady)
    (hothers : ∀ e ∈ alternatives, e.2.Sound ∧ e.2.depth ≤ d ∧ e.2.Steady)
    (hshared : shared.Coherent) :
    (stageElements prep status head template alternatives staged shared).result = .ok () := by
  simp only [Node.stageElements]
  split
  next => rfl
  next =>
    obtain ⟨es, hes⟩ : ∃ es, (buildMany (Node.build prep status template alternatives) head.length 0
        head shared).result = .ok es := by
      -- many elements can be built where any one can, whatever was built before it
      refine exists_buildMany (Q := Fresh d status) (fun index calls shared hs => ⟨?_, ?_⟩) head.length
        0 head.calls hshared
      · exact makes_build hprepared ⟨hdefault.1, hdefault.2.1⟩
          (fun e he => ⟨(hothers e he).1, (hothers e he).2.1⟩) index calls hs
      · exact h.build hn hplan hsteady hdefault hothers index calls hs
    rw [hes]
    rfl

end array

/-- **Preparing cannot fail** in a resolved structure whose arrays build what resolves alike. -/
theorem preparesSteady_prepareWithin (fuel : Nat) : PreparesSteady fuel (prepareWithin fuel) := by
  induction fuel with
  | zero =>
    intro m hm
    have hpos := m.depth_pos
    omega
  | succ fuel ih =>
    intro n hfuel hn hsteady hs shared hshared
    cases n with
    | leaf => rfl
    | record status head fields =>
      obtain ⟨self, hsound⟩ := sound_record_iff.1 hn
      have hsteady := (forall_record_iff.1 hsteady).2
      have hdepth := depth_record_le_iff.1 hfuel
      have hplan : status.plan?.isSome := by simpa [shape?, Node.status] using hs
      obtain ⟨values, hvalues⟩ := traverse_succeeds
        (f := fun (f : Field Node) shared => (prepareWithin fuel f.child shared).mapState f.withChild)
        (fun f hf shared hs =>
          ⟨(prepared_prepareWithin (hdepth f hf) (hsound f hf) hs).coherent, (),
            ih f.child (hdepth f hf) (hsound f hf) (hsteady f hf) (self.isSome_shape? hplan hf) shared
              hs⟩) hshared
      simp only [prepareWithin, hvalues]
      rfl
    | array status head template alternatives staged elements =>
      obtain ⟨⟨htemplate, halternatives⟩, -, -⟩ := depth_array_le_iff.1 hfuel
      obtain ⟨plan, hplan⟩ : ∃ plan, status.plan? = some plan :=
        Option.isSome_iff_exists.1 (by simpa [shape?, Node.status] using hs)
      obtain ⟨self, ⟨hdefaultSound, hothersSound⟩, -, -⟩ := sound_array_iff.1 hn
      -- only arrays could fail, when they build what is different
      obtain ⟨halike, ⟨hdefault, hothers⟩, -, -⟩ := forall_array_iff.1 hsteady
      exact ResolvesAlike.stageElements halike self hplan ih
        (fun m hm hsound shared hs => prepared_prepareWithin hm hsound hs)
        ⟨hdefaultSound, htemplate, hdefault⟩
        (fun e he => ⟨hothersSound e he, halternatives e he, hothers e he⟩) hshared

/-- Preparing a resolved structure succeeds if all that its arrays may build resolves alike. -/
theorem Steady.prepare (h : n.Steady) (hn : n.Sound) (hs : n.shape?.isSome)
    (hshared : shared.Coherent) : (n.prepare shared).result = .ok () :=
  preparesSteady_prepareWithin n.depth n (Nat.le_refl _) hn h hs shared hshared

end NativeLayout.Node
