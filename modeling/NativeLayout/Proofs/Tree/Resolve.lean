import NativeLayout.Proofs.Tree.Outcome
import NativeLayout.Proofs.Tree.Sound

namespace NativeLayout.Node

/-!
# Resolving keeps structures sound

* `resolve_of_shape?` — a structure that has a shape stays as it is, and nothing is counted.
* `resolve_record_eq_ok`, `resolve_array_eq_ok` — what succeeded before a record or an array did.
* `Resolved`, `resolved_resolve` — what resolving does to a sound structure, whether it succeeds or
  not: what was known stays known, nothing gets storage, and a success leaves the shape behind.
-/

/-- A structure that has a shape answers with it. -/
theorem resolve_of_shape? {n : Node} {s : Shape} (h : n.shape? = some s) (shared : Shared) :
    n.resolve shared = .pure shared n s := by
  cases n with
  | leaf status kind => cases status <;> cases h <;> rfl
  | record status head fields => cases status <;> cases h <;> rfl
  | array status head template alternatives staged elements => cases status <;> cases h <;> rfl

/-- A stored structure stays as it is. -/
theorem state_resolve_of_allocated {n : Node} (hn : n.stage = .allocated) (shared : Shared) :
    (n.resolve shared).state = n := by
  obtain ⟨s, hs⟩ : ∃ s, n.shape? = some s := by
    refine Option.isSome_iff_exists.1 (Status.plan?_isSome_iff.2 ?_)
    rw [show n.status.stage = .allocated from hn]
    simp
  rw [resolve_of_shape? hs]
  rfl

/-! ### The steps of an unresolved structure -/

/-- The fields are resolved one after the other, up to the first fault. -/
theorem resolveFields_eq_traverse (fields : List (Field Node)) (shared : Shared) :
    resolveFields fields shared =
      traverse (fun f shared => (f.child.resolve shared).mapState f.withChild) fields shared := by
  induction fields generalizing shared with
  | nil => rfl
  | cons f rest ih =>
    obtain ⟨index, name, child⟩ := f
    simp only [resolveFields, traverse, Outcome.mapState, Field.withChild, ih]
    cases (child.resolve shared).result <;> rfl

/-- **A record.** Its fields are resolved, and then its layout is requested. -/
theorem resolve_record (head : RecordHead) (fields : List (Field Node)) (shared : Shared) :
    resolve (.record .unallocated head fields) shared =
      let r := traverse (fun f shared => (f.child.resolve shared).mapState f.withChild) fields shared
      match r.result with
      | .error fault => .fail r.shared (.record .unallocated head r.state) fault
      | .ok shapes =>
        let answer := r.shared.request head.catalog ⟨head.typeName, head.abi, head.packed⟩ shapes
        match answer.1 with
        | .error e => .fail answer.2 (.record .unallocated head r.state) (.layout e)
        | .ok layout =>
          .pure answer.2 (.record (.allocatable layout) head r.state) layout.shape := by
  simp only [resolve, Status.plan?, resolveFields_eq_traverse]
  -- whatever the fields answer, the two go on alike
  generalize traverse (fun f shared => (f.child.resolve shared).mapState f.withChild) fields
    shared = r
  cases r.result with
  | error fault => rfl
  | ok shapes =>
    simp only
    generalize r.shared.request head.catalog ⟨head.typeName, head.abi, head.packed⟩ shapes = answer
    obtain ⟨answer, after⟩ := answer
    cases answer <;> rfl

/-- **An array.** It makes a prototype, resolves it and plans for it; the call counts whatever follows. -/
theorem resolve_array (head : ArrayHead) (template : Node) (alternatives : List (Nat × Node))
    (staged : List Node) (elements : List (Option Node)) (shared : Shared)
    (hlength : head.length ≠ 0) :
    resolve (.array .unallocated head template alternatives staged elements) shared =
      let first := (choose head.calls alternatives template).resolve (shared.count head.counter)
      let after (status : Status ArrayPlan) : Node :=
        .array status { head with calls := head.calls + 1 } template alternatives staged elements
      match first.result with
      | .error fault => .fail first.shared (after .unallocated) fault
      | .ok element =>
        match planArray head.length element first.state with
        | .error e => .fail first.shared (after .unallocated) (.layout e)
        | .ok plan => .pure first.shared (after (.allocatable plan)) plan.shape := by
  -- an array chooses among the answers of its templates, not among the templates
  have hchoose : choose head.calls (resolveAlternatives alternatives) template.resolve =
      (choose head.calls alternatives template).resolve := by
    rw [resolveAlternatives_eq_map]
    exact choose_map resolve head.calls alternatives template
  cases hfirst : ((choose head.calls alternatives template).resolve
      (shared.count head.counter)).result with
  | error fault => simp only [resolve, Status.plan?, if_neg hlength, hchoose, hfirst]
  | ok element =>
    simp only [hfirst]
    cases hplan : planArray head.length element
        ((choose head.calls alternatives template).resolve (shared.count head.counter)).state with
    | error e => simp only [resolve, Status.plan?, if_neg hlength, hchoose, hfirst, hplan]
    | ok plan => simp only [resolve, Status.plan?, if_neg hlength, hchoose, hfirst, hplan]

/-- What a plan says of the element it was made for. -/
theorem planArray_eq_ok {length : Nat} {element : Shape} {first : Node} {plan : ArrayPlan}
    (h : planArray length element first = .ok plan) :
    plan.element = element ∧ arrayShape? length element = .ok (plan.stride, plan.shape) ∧
      plan.facade = first.facade ∧ plan.records = first.records.toOption.getD [] := by
  unfold planArray at h
  cases hshape : arrayShape? length element with
  | error e =>
    rw [hshape] at h
    cases h
  | ok pair =>
    rw [hshape] at h
    cases h
    exact ⟨rfl, rfl, rfl, rfl⟩

/-- When a record resolves, so did its fields, and they have a layout together. -/
theorem resolve_record_eq_ok {head : RecordHead} {fields : List (Field Node)} {shared : Shared}
    {s : Shape} {r : Outcome (List (Field Node)) (List Shape)}
    (hr : traverse (fun f shared => (f.child.resolve shared).mapState f.withChild) fields shared = r)
    (hcoherent : r.shared.Coherent)
    (h : (resolve (.record .unallocated head fields) shared).result = .ok s) :
    ∃ shapes l, r.result = .ok shapes ∧ head.layout shapes = .ok l ∧ s = l.shape ∧
      (resolve (.record .unallocated head fields) shared).state =
        .record (.allocatable l) head r.state := by
  rw [resolve_record, hr] at h ⊢
  -- the fields failed, or the layout failed, or there is a layout
  cases hresult : r.result with
  | error fault =>
    simp only [hresult] at h
    cases h
  | ok shapes =>
    obtain ⟨hanswer, -⟩ := hcoherent.request_eq head.catalog
      ⟨head.typeName, head.abi, head.packed⟩ shapes
    simp only [hresult, hanswer] at h ⊢
    cases hlayout : Catalog.Key.layout ⟨head.typeName, head.abi, head.packed⟩ shapes with
    | error e =>
      simp only [hlayout] at h
      cases h
    | ok l =>
      simp only [hlayout] at h ⊢
      cases h
      exact ⟨shapes, l, rfl, hlayout, rfl, rfl⟩

/-- When an array resolves, so did the template that it chose, and the array is planned for it. -/
theorem resolve_array_eq_ok {head : ArrayHead} {template : Node} {alternatives : List (Nat × Node)}
    {staged : List Node} {elements : List (Option Node)} {shared : Shared} {s : Shape}
    {first : Outcome Node Shape}
    (hfirst : (choose head.calls alternatives template).resolve (shared.count head.counter) = first)
    (h : (resolve (.array .unallocated head template alternatives staged elements) shared).result =
      .ok s) :
    ∃ plan, first.result = .ok plan.element ∧
      planArray head.length plan.element first.state = .ok plan ∧ s = plan.shape ∧
      (resolve (.array .unallocated head template alternatives staged elements) shared).state =
        .array (.allocatable plan) { head with calls := head.calls + 1 } template alternatives
          staged elements := by
  -- an array without a length does not even make a prototype
  by_cases hlength : head.length = 0
  · simp only [resolve, Status.plan?, if_pos hlength] at h
    cases h
  · rw [resolve_array _ _ _ _ _ _ hlength, hfirst] at h ⊢
    cases helement : first.result with
    | error fault =>
      simp only [helement] at h
      cases h
    | ok element =>
      cases hplan : planArray head.length element first.state with
      | error e =>
        simp only [helement, hplan] at h
        cases h
      | ok plan =>
        simp only [helement, hplan] at h ⊢
        cases h
        obtain ⟨rfl, -⟩ := planArray_eq_ok hplan
        exact ⟨plan, rfl, hplan, rfl, rfl⟩

/-! ### What resolving does -/

/-- What resolving leaves behind of a sound structure. -/
structure Resolved (n : Node) (o : Outcome Node Shape) : Prop where
  coherent : o.shared.Coherent
  sound : o.state.Sound
  depth_le : o.state.depth ≤ n.depth
  keeps : Keeps n o.state
  placement : o.state.placement? = n.placement?
  ok : ∀ s, o.result = .ok s → o.state.shape? = some s
  error : ∀ e, o.result = .error e → o.state.status = n.status

/-- A structure that has a shape is left alone. -/
theorem Resolved.unchanged {n : Node} {shared : Shared} {s : Shape} (hn : n.Sound)
    (hshared : shared.Coherent) (h : n.shape? = some s) : Resolved n (.pure shared n s) where
  coherent := hshared
  sound := hn
  depth_le := Nat.le_refl _
  keeps := .refl n
  placement := rfl
  ok := by
    rintro _ ⟨⟩
    exact h
  error := by rintro _ ⟨⟩

/-- A structure without a shape has nothing to lose. -/
theorem keeps_of_shape?_eq_none {n m : Node} (h : n.shape? = none) : Keeps n m := by
  have hstatus : n.status = .unallocated := by
    cases hs : n.status <;> simp [shape?, hs, Status.plan?] at h ⊢
  constructor
  · intro s hs
    rw [h] at hs
    cases hs
  · intro p hp
    rw [placement?, hstatus] at hp
    cases hp

/-- A failure may only have changed what is inside the structure. -/
theorem Resolved.failed {n m : Node} {shared : Shared} {fault : Fault} (hm : m.Sound)
    (hshared : shared.Coherent) (hdepth : m.depth ≤ n.depth) (hstatus : m.status = n.status) :
    Resolved n (.fail shared m fault) where
  coherent := hshared
  sound := hm
  depth_le := hdepth
  keeps := .of_status_eq hstatus
  placement := congrArg Status.placement? hstatus
  ok := by rintro _ ⟨⟩
  error := fun _ _ => hstatus

/-- A leaf learns its shape, or tells why it has none. -/
theorem resolved_leaf {kind : Leaf} {shared : Shared} (hshared : shared.Coherent) :
    Resolved (.leaf .unallocated kind) (resolve (.leaf .unallocated kind) shared) := by
  simp only [resolve, Status.plan?]
  split
  next e he =>
    exact .failed (.leaf (by rintro _ ⟨⟩)) hshared (Nat.le_refl _) rfl
  next shape hshape =>
    refine ⟨hshared, .leaf ?_, Nat.le_refl _, keeps_of_shape?_eq_none rfl, rfl, ?_, by rintro _ ⟨⟩⟩
    · rintro _ ⟨⟩
      exact hshape
    · rintro _ ⟨⟩
      rfl

/-- A record keeps the fields that are resolved, even if it does not get a layout. -/
theorem resolved_record {head : RecordHead} {fields : List (Field Node)} {shared : Shared}
    (hn : (Node.record .unallocated head fields).Sound) (hshared : shared.Coherent)
    (ih : ∀ f ∈ fields, ∀ shared : Shared, shared.Coherent →
      Resolved f.child (f.child.resolve shared)) :
    Resolved (.record .unallocated head fields)
      (resolve (.record .unallocated head fields) shared) := by
  obtain ⟨hself, hchildren⟩ := sound_record_iff.1 hn
  rw [resolve_record]
  -- a failure keeps the fields that are resolved already, so this is shown of every run
  obtain ⟨hcoherent, hlift⟩ := traverse_forall₂
    (R := Lift Evolves) (f := fun f shared => (f.child.resolve shared).mapState f.withChild)
    (fun f hf => ⟨rfl, rfl, .refl (hchildren f hf)⟩)
    (fun f hf shared hs =>
      have h := ih f hf shared hs
      ⟨h.coherent, Lift.withChild ⟨h.sound, h.depth_le, h.keeps⟩⟩) hshared
  -- for any shapes, as the run is forgotten before it is known which shapes it found
  have hvalues := fun shapes : List Shape => @traverse_ok _ _
    (fun f shared => (f.child.resolve shared).mapState f.withChild) _ _
    (fun f s => f.child.shape? = some s) shapes
    (fun f hf shared hs => ⟨(ih f hf shared hs).coherent, (ih f hf shared hs).ok⟩) hshared
  generalize traverse (fun f shared => (f.child.resolve shared).mapState f.withChild) fields
    shared = r at hcoherent hlift hvalues ⊢
  have hfields : ∀ g ∈ r.state, g.child.Sound := by
    intro g hg
    obtain ⟨f, -, hfg⟩ := forall₂_mem hlift hg
    exact hfg.child.sound
  have hdepth : ∀ status, (Node.record status head r.state).depth ≤
      (Node.record .unallocated head fields).depth :=
    fun _ => depth_record_le_of_lift hlift
  have hasc := ascending_of_lift hlift hself.ascending
  have hfailed : (Node.record .unallocated head r.state).Sound :=
    sound_record_iff.2 ⟨⟨hasc, by rintro _ ⟨⟩, by rintro _ _ ⟨⟩⟩, hfields⟩
  simp only
  split
  next => exact .failed hfailed hcoherent (hdepth _) rfl
  next shapes hshapes =>
    obtain ⟨hanswer, hafter⟩ := hcoherent.request_eq head.catalog
      ⟨head.typeName, head.abi, head.packed⟩ shapes
    simp only [hanswer]
    split
    next => exact .failed hfailed hafter (hdepth _) rfl
    next layout hlayout =>
      refine ⟨hafter, sound_record_iff.2 ⟨⟨hasc, ?_, by rintro _ _ ⟨⟩⟩, hfields⟩, hdepth _,
        keeps_of_shape?_eq_none rfl, rfl, ?_, by rintro _ ⟨⟩⟩
      · rintro _ ⟨⟩
        exact ⟨shapes, hvalues shapes hshapes, hlayout⟩
      · rintro _ ⟨⟩
        rfl

/-- An array learns its plan; the prototype is not kept. -/
theorem resolved_array {head : ArrayHead} {template : Node} {alternatives : List (Nat × Node)}
    {staged : List Node} {elements : List (Option Node)} {shared : Shared}
    (hn : (Node.array .unallocated head template alternatives staged elements).Sound)
    (hshared : shared.Coherent)
    (ih : ∀ shared : Shared, shared.Coherent →
      Resolved (choose head.calls alternatives template)
        ((choose head.calls alternatives template).resolve shared)) :
    Resolved (.array .unallocated head template alternatives staged elements)
      (resolve (.array .unallocated head template alternatives staged elements) shared) := by
  obtain ⟨hself, htemplates, -, -⟩ := sound_array_iff.1 hn
  -- nothing is staged and there are no elements, so nothing depends on the plan
  obtain rfl : elements = [] := hself.unplaced rfl
  obtain rfl : staged = [] := by
    refine List.eq_nil_iff_forall_not_mem.2 fun e he => ?_
    obtain ⟨-, _, ⟨⟩, -⟩ := hself.staged e he
  have hafter : ∀ {status : Status ArrayPlan} {calls : Nat}, status.placement? = none →
      (∀ plan, status.plan? = some plan → 0 < head.length ∧
        plan.ArisesFrom head.length (choose head.calls alternatives template)) →
      (Node.array status { head with calls } template alternatives [] []).Sound := by
    intro status calls hnone hplan
    refine sound_array_iff.2 ⟨⟨fun plan h => ?_, fun plan h => ⟨_, (hplan plan h).2⟩, .inl rfl,
      by simp, fun _ => rfl, ?_⟩, htemplates, by simp, by simp⟩
    · obtain ⟨hlength, _, -, -, hplanned⟩ := hplan plan h
      exact ⟨hlength, (planArray_eq_ok hplanned).2.1⟩
    · rintro plan p rfl
      cases hnone
  by_cases hlength : head.length = 0
  · simp only [resolve, Status.plan?, if_pos hlength]
    exact .failed hn hshared (Nat.le_refl _) rfl
  · rw [resolve_array _ _ _ _ _ _ hlength]
    have hcounted := hshared.count head.counter
    have hfirst := ih _ hcounted
    generalize hgives : (choose head.calls alternatives template).resolve
      (shared.count head.counter) = first at hfirst ⊢
    simp only
    split
    next => exact .failed (hafter rfl (by rintro _ ⟨⟩)) hfirst.coherent (Nat.le_refl _) rfl
    next element helement =>
      split
      next => exact .failed (hafter rfl (by rintro _ ⟨⟩)) hfirst.coherent (Nat.le_refl _) rfl
      next plan hplan =>
        obtain ⟨rfl, -⟩ := planArray_eq_ok hplan
        refine ⟨hfirst.coherent, hafter rfl ?_, Nat.le_refl _, keeps_of_shape?_eq_none rfl, rfl, ?_,
          by rintro _ ⟨⟩⟩
        · rintro _ ⟨⟩
          exact ⟨Nat.pos_of_ne_zero hlength, _, hcounted, by rw [hgives]; exact helement,
            by rw [hgives]; exact hplan⟩
        · rintro _ ⟨⟩
          rfl

/-- Resolving leaves a sound structure sound. -/
theorem resolved_resolve {n : Node} (hn : n.Sound) {shared : Shared} (hshared : shared.Coherent) :
    Resolved n (n.resolve shared) := by
  -- over the tree, templates included: an array asks the one that it chooses
  induction hn generalizing shared with
  | @leaf status kind self =>
    cases status with
    | unallocated => exact resolved_leaf hshared
    | allocatable => exact .unchanged (.leaf self) hshared rfl
    | allocated => exact .unchanged (.leaf self) hshared rfl
  | @record status head fields self children ih =>
    have hn : (Node.record status head fields).Sound := .record self children
    cases status with
    | unallocated => exact resolved_record hn hshared fun f hf _ hs => ih f hf hs
    | allocatable => exact .unchanged hn hshared rfl
    | allocated => exact .unchanged hn hshared rfl
  | @array status head template alternatives staged elements self default others built children
      ihDefault ihOthers _ _ =>
    have hn : (Node.array status head template alternatives staged elements).Sound :=
      .array self default others built children
    cases status with
    | unallocated =>
      refine resolved_array hn hshared fun shared hs => ?_
      exact choose_induction
        (P := fun m => ∀ shared : Shared, shared.Coherent → Resolved m (m.resolve shared))
        (fun _ hs => ihDefault hs) (fun e he _ hs => ihOthers e he hs) shared hs
    | allocatable => exact .unchanged hn hshared rfl
    | allocated => exact .unchanged hn hshared rfl

end NativeLayout.Node
