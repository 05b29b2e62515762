import NativeLayout.Proofs.Lazy.Twin
import NativeLayout.Proofs.Tree.Failure

namespace NativeLayout.Node

/-!
# Building the elements of regular arrays

An array that repeats one template cannot fail to build an element once it is resolved, whenever it
does so.

* `exists_build` — the element that is built, with the outline of the resolved template.
* `Tame.prepare` — preparing succeeds, and leaves a twin behind.
* `Vacant.free` — a resolved structure without storage can be placed.
-/

variable {n m : Node} {shared : Shared}

/-! ### Building -/

/-- An array that repeats one template always resolves the same. -/
theorem Tame.steady (hn : n.Tame) : n.Steady := by
  refine hn.regular.imp fun m hm => ?_
  cases m with
  | leaf => trivial
  | record => trivial
  | array =>
    intro call call'
    rw [hm.choose, hm.choose]

section array

variable {status : Status ArrayPlan} {head : ArrayHead} {template : Node}
  {alternatives : List (Nat × Node)} {staged : List Node} {elements : List (Option Node)}
  {plan : ArrayPlan} {prep : Node → Shared → Outcome Node Unit} {d : Nat}

/-- What an array was planned for is what its template always resolves to. -/
theorem Tame.resolve_template
    (hn : (Node.array status head template alternatives staged elements).Tame)
    (hplan : status.plan? = some plan) (hshared : shared.Coherent) :
    (template.resolve shared).result = .ok plan.element := by
  rw [← hn.uniform.choose 0]
  exact ResolvesAlike.resolve_choose hn.steady.self_of (sound_array_iff.1 hn.sound).1 hplan 0 hshared

/-- An operation that prepares every tame and resolved structure that is not too deep. -/
def Prepares (d : Nat) (prep : Node → Shared → Outcome Node Unit) : Prop :=
  ∀ m : Node, m.depth ≤ d → m.Tame → m.shape?.isSome → ∀ shared : Shared, shared.Coherent →
    (prep m shared).result = .ok () ∧ Twin m (prep m shared).state

/-- A tame array that is resolved can build an element, which shows what the resolved template shows. -/
theorem exists_build (hn : (Node.array status head template alternatives staged elements).Tame)
    (hplan : status.plan? = some plan) (hprep : Prepares d prep) (hdepth : template.depth ≤ d)
    (index calls : Nat) (hshared : shared.Coherent) :
    ∃ e, (build prep status template alternatives index { head with calls } shared).result = .ok e ∧
      e.Tame ∧ e.outline = template.resolved.outline := by
  have hcounted := hshared.count head.counter
  have hresult := hn.resolve_template hplan hcounted
  have hresolved := resolved_resolve hn.default.sound hcounted
  have hstate : (template.resolve (shared.count head.counter)).state = template.resolved :=
    state_resolve template hcounted
  simp only [build, hplan, hn.uniform.choose]
  -- the element is the resolved template, prepared with the fuel that is left
  generalize template.resolve (shared.count head.counter) = made at hresult hresolved hstate ⊢
  have hshape : made.state.shape?.isSome := by
    rw [hresolved.ok plan.element hresult]
    rfl
  obtain ⟨hok, htwin⟩ := hprep made.state (Nat.le_trans hresolved.depth_le hdepth)
    (hstate ▸ hn.default.resolved) hshape made.shared hresolved.coherent
  refine ⟨(prep made.state made.shared).state, ?_, htwin.right, ?_⟩
  · simp only [hresult, if_true, hok]
    rfl
  · rw [← htwin.outline, hstate]

/-- Each staged element of a resolved array has the outline of the template. -/
theorem outline_stageElements
    (hn : (Node.array status head template alternatives staged elements).Tame)
    (hplan : status.plan? = some plan) (hprep : Prepares d prep)
    (hprepared : ∀ m : Node, m.depth ≤ d → m.Sound → ∀ shared : Shared, shared.Coherent →
      Prepared m (prep m shared))
    (hdepth : template.depth ≤ d) (halternatives : ∀ e ∈ alternatives, e.2.depth ≤ d)
    (hshared : shared.Coherent) :
    ∀ e ∈ (stageElements prep status head template alternatives staged shared).state.2,
      e.Regular ∧ e.outline = template.resolved.outline := by
  obtain ⟨-, ⟨hdefault, hothers⟩, -⟩ := sound_array_iff.1 hn.sound
  have hone : ∀ index calls (shared : Shared), shared.Coherent →
      Makes head (fun e => e.Regular ∧ e.outline = template.resolved.outline)
        (build prep status template alternatives index { head with calls } shared) := by
    intro index calls shared hshared
    have hmakes : Makes head (Fresh d status)
        (build prep status template alternatives index { head with calls } shared) :=
      makes_build hprepared ⟨hdefault, hdepth⟩ (fun e he => ⟨hothers e he, halternatives e he⟩) index
        calls hshared
    obtain ⟨e, he, htame, houtline⟩ := exists_build hn hplan hprep hdepth index calls hshared
    refine ⟨hmakes.coherent, hmakes.counted, fun a ha => ?_⟩
    -- there is only one result, and it is the element that was found
    cases he.symm.trans ha
    exact ⟨htame.regular, houtline⟩
  simp only [stageElements]
  split
  next => exact fun e he => ⟨(hn.built he).regular, hn.uniform.staged e he⟩
  next =>
    have hall := makes_buildMany hone head.length 0 head.calls hshared
    split
    next => exact fun e he => ⟨(hn.built he).regular, hn.uniform.staged e he⟩
    next es hes => exact (hall.ok es hes).2

end array

/-! ### Preparing -/

/-- Preparing the fields of a tame record shows nothing. -/
theorem twin_prepareWithin_record {fuel : Nat} (ih : Prepares fuel (prepareWithin fuel))
    {status : Status RecordLayout} {head : RecordHead} {fields : List (Field Node)}
    (hdepth : (Node.record status head fields).depth ≤ fuel + 1)
    (hn : (Node.record status head fields).Tame) (hplan : status.plan?.isSome)
    (hshared : shared.Coherent) :
    Twin (.record status head fields)
      (prepareWithin (fuel + 1) (.record status head fields) shared).state := by
  have hsound := (prepared_prepareWithin hdepth hn.sound hshared).sound
  replace hdepth := depth_record_le_iff.1 hdepth
  obtain ⟨-, hlift⟩ := traverse_forall₂ (R := Lift Twin)
    (f := fun (f : Field Node) shared => (prepareWithin fuel f.child shared).mapState f.withChild)
    (fun f hf => ⟨rfl, rfl, .refl (hn.field hf)⟩)
    (fun f hf shared hs =>
      have hshape := (sound_record_iff.1 hn.sound).1.isSome_shape? hplan hf
      ⟨(prepared_prepareWithin (hdepth f hf) (hn.field hf).sound hs).coherent,
        .withChild (ih f.child (hdepth f hf) (hn.field hf) hshape shared hs).2⟩) hshared
  refine ⟨hn, ⟨hsound, regular_record_iff.2 fun g hg => ?_⟩, outline_record_eq
    (hlift.imp fun f g hfg => hfg.imp Twin.outline)⟩
  obtain ⟨f, -, hfg⟩ := forall₂_mem hlift hg
  exact hfg.child.right.regular

/-- Preparing the elements of a tame array shows nothing: those staged show what the template does. -/
theorem twin_prepareWithin_array {fuel : Nat} (ih : Prepares fuel (prepareWithin fuel))
    {status : Status ArrayPlan} {head : ArrayHead} {template : Node}
    {alternatives : List (Nat × Node)} {staged : List Node} {elements : List (Option Node)}
    (hdepth : (Node.array status head template alternatives staged elements).depth ≤ fuel + 1)
    (hn : (Node.array status head template alternatives staged elements).Tame)
    (hplan : status.plan?.isSome) (hshared : shared.Coherent) :
    Twin (.array status head template alternatives staged elements) (prepareWithin (fuel + 1)
      (.array status head template alternatives staged elements) shared).state := by
  have hsound := (prepared_prepareWithin hdepth hn.sound hshared).sound
  obtain ⟨plan, hplan⟩ := Option.isSome_iff_exists.1 hplan
  obtain ⟨⟨htemplate, halternatives⟩, -, -⟩ := depth_array_le_iff.1 hdepth
  have hstaged := outline_stageElements hn hplan ih
    (fun m hm hsound shared hs => prepared_prepareWithin hm hsound hs) htemplate halternatives
    hshared
  obtain ⟨calls, hhead⟩ := counted_stageElements (prepareWithin fuel) status head template
    alternatives staged shared
  obtain ⟨self, templates, -, children⟩ := regular_array_iff.1 hn.regular
  simp only [prepareWithin, Outcome.mapState, hhead] at hsound ⊢
  refine ⟨hn, ⟨hsound, regular_array_iff.2 ⟨?_, templates, fun e he => (hstaged e he).1,
    children⟩⟩, rfl⟩
  -- only the staged elements are new
  exact ⟨self.repeats, self.vacant, fun e he => (hstaged e he).2, self.room, self.elements⟩

/-- Preparing a tame structure that is resolved succeeds and shows nothing. -/
theorem prepares_prepareWithin (fuel : Nat) : Prepares fuel (prepareWithin fuel) := by
  -- over the fuel, as the elements that are built are no parts of the structure yet
  induction fuel with
  | zero =>
    intro m hm
    have hpos := m.depth_pos
    omega
  | succ fuel ih =>
    intro n hfuel hn hs shared hshared
    refine ⟨preparesSteady_prepareWithin _ n hfuel hn.sound hn.steady hs shared hshared, ?_⟩
    cases n with
    | leaf => exact .refl hn
    | record status head fields =>
      exact twin_prepareWithin_record ih hfuel hn (by simpa [shape?, Node.status] using hs) hshared
    | array status head template alternatives staged elements =>
      exact twin_prepareWithin_array ih hfuel hn (by simpa [shape?, Node.status] using hs) hshared

/-- Preparing a resolved structure succeeds, and leaves a twin behind. -/
theorem Tame.prepare (hn : n.Tame) (hs : n.shape?.isSome) (hshared : shared.Coherent) :
    (n.prepare shared).result = .ok () ∧ Twin n (n.prepare shared).state :=
  prepares_prepareWithin n.depth n (Nat.le_refl _) hn hs shared hshared

/-! ### Structures that can be placed -/

/-- A resolved structure without storage can be placed with everything it has built. -/
theorem Vacant.free (hv : n.Vacant) (hn : n.Tame) (hs : n.shape?.isSome) : n.Free := by
  induction n.forall_true with
  | @leaf status kind =>
    cases hv with
    | leaf here =>
      cases status with
      | unallocated => cases hs
      | allocatable => exact .leaf
      | allocated => cases here
  | @record status head fields _ _ ih =>
    cases hv with
    | record here children =>
      cases status with
      | unallocated => cases hs
      | allocatable =>
        have self := (sound_record_iff.1 hn.sound).1
        exact .record fun f hf =>
          ih f hf (children f hf) (hn.field hf) (self.isSome_shape? rfl hf)
      | allocated => cases here
  | @array status head template alternatives staged elements _ _ _ _ _ _ _ ih =>
    cases hv with
    | array here =>
      cases status with
      | unallocated => cases hs
      | allocatable =>
        refine .array fun _ e he => ih e he ?_ (hn.built he) ?_
        · -- a staged element shows what the resolved template shows, which has no storage
          have hvacant := hn.uniform.vacant.resolved
          exact hvacant.of_outline (hn.uniform.staged e he).symm
        · obtain ⟨-, _, -, hshape⟩ := (sound_array_iff.1 hn.sound).1.staged e he
          rw [hshape]
          rfl
      | allocated => cases here

end NativeLayout.Node
