import NativeLayout.Proofs.Catalog.Events
import NativeLayout.Proofs.Command.Shapes
import NativeLayout.Proofs.Lazy.Outline
import NativeLayout.Proofs.Tree.Matching

namespace NativeLayout.Node

/-!
# Structures and their types

The type of a member that holds a structure says what shape the structure gets.

* `Simple`, `OneType` — structures without records, and arrays whose elements are of one type.
* `facade_resolve` — resolving a structure does not change its type.
* `typed_of_sound` — a structure without records resolves exactly to the shape of its type.
* `lays_iff` — a record of such structures resolves exactly to the layout of the types of its members.
* `memberType_asked` — asking for the type does not change it, if all elements are of one type.
-/

/-- Whether the structure, its parts aside, is a plain leaf or an array. -/
def Simple : Node → Prop
  | .leaf _ kind => kind.Plain
  | .record .. => False
  | .array .. => True

/-- Whatever an array builds is of one type. -/
def OneType : Node → Prop
  | .array _ _ template alternatives _ _ =>
    ∀ e ∈ alternatives, e.2.facade.memberType = template.facade.memberType
  | _ => True

variable {n : Node} {s : Shape} {shared : Shared}

/-! ### Types and resolving -/

/-- To choose a template and ask for its type is to choose among the types. -/
theorem choose_facade (call : Nat) (alternatives : List (Nat × Node)) (template : Node) :
    choose call (facadeAlternatives alternatives) template.facade =
      (choose call alternatives template).facade := by
  rw [facadeAlternatives_eq_map]
  exact choose_map facade call alternatives template

/-- A structure that resolves keeps its type, an array the type of the element that it was asked
for. -/
theorem facade_resolve (h : (n.resolve shared).result = .ok s) :
    (n.resolve shared).state.facade = n.facade := by
  induction n.forall_true generalizing shared s with
  | @leaf status kind =>
    simp only [resolve] at h ⊢
    split
    next => rfl
    next => split <;> rfl
  | @record status head fields =>
    cases status with
    | unallocated =>
      rw [resolve_record]
      dsimp only
      split
      next => rfl
      next => split <;> rfl
    | allocatable => rfl
    | allocated => rfl
  | @array status head template alternatives staged elements _ _ _ _ _ ih ihs =>
    cases status with
    | unallocated =>
      obtain ⟨plan, hfirst, hplan, -, hstate⟩ := resolve_array_eq_ok rfl h
      obtain ⟨-, -, hfacade, -⟩ := planArray_eq_ok hplan
      -- the element that was asked for is the template or an alternative, which keep their types
      have hchosen := choose_induction
        (P := fun m : Node => ∀ shared s, (m.resolve shared).result = .ok s →
          (m.resolve shared).state.facade = m.facade)
        (fun _ _ => ih) (fun e he _ _ => ihs e he) _ _ hfirst
      rw [hstate]
      simp only [facade, Status.plan?, hfacade, hchosen, choose_facade]
    | allocatable => rfl
    | allocated => rfl

/-- Asked again, an array builds another element, but one of the same type. -/
theorem memberType_asked (h : n.OneType) : n.asked.facade.memberType = n.facade.memberType := by
  cases n with
  | leaf => rfl
  | record => rfl
  | array status head template alternatives staged elements =>
    cases status with
    | unallocated =>
      have hchosen (call : Nat) : (choose call alternatives template).facade.memberType =
          template.facade.memberType :=
        choose_induction (P := fun m : Node => m.facade.memberType = template.facade.memberType) rfl h
      simp only [asked, facade, Status.plan?, choose_facade, hchosen]
    | allocatable => rfl
    | allocated => rfl

/-- Asking leaves the templates as they are. -/
theorem OneType.asked (h : n.OneType) : n.asked.OneType := by
  cases n with
  | leaf => exact h
  | record => exact h
  | array status => cases status <;> exact h

/-- Asking for a type does not make any structure less simple. -/
theorem forall_simple_asked (h : n.Forall Simple) : n.asked.Forall Simple := by
  cases n with
  | leaf => exact h
  | record => exact h
  | array status =>
    cases status with
    | unallocated =>
      obtain ⟨-, parts⟩ := forall_array_iff.1 h
      exact forall_array_iff.2 ⟨trivial, parts⟩
    | allocatable => exact h
    | allocated => exact h

/-! ### The shape of a type -/

/-- The structure resolves exactly to the shape of its type. -/
def Typed (n : Node) : Prop :=
  ∀ shared : Shared, shared.Coherent → ∀ s,
    (n.resolve shared).result = .ok s ↔ Command.shapeOfType n.facade.memberType = .ok s

/-- Where a structure has a shape, its type is read as that shape. -/
theorem Typed.of_shape? (h : n.Typed) (hs : n.shape? = some s) :
    Command.shapeOfType n.facade.memberType = .ok s := by
  rw [← h .empty Shared.coherent_empty, resolve_of_shape? hs]
  rfl

/-- A structure that has a shape already stays as it is. -/
theorem typed_of_shape? (hs : n.shape? = some s)
    (h : Command.shapeOfType n.facade.memberType = .ok s) : n.Typed := by
  intro shared _ t
  rw [resolve_of_shape? hs, h]
  show Except.ok s = Except.ok t ↔ _
  rw [Except.ok.injEq, Except.ok.injEq]

/-- The type of a plain leaf is read as the shape of the leaf. -/
theorem typed_leaf {status : Status Shape} {kind : Leaf} (self : (Node.leaf status kind).Consistent)
    (plain : kind.Plain) : (Node.leaf status kind).Typed := by
  cases hplan : status.plan? with
  | some shape =>
    exact typed_of_shape? hplan ((Command.shapeOfType_memberType_eq_ok_iff plain).2 (self shape hplan))
  | none =>
    intro shared _ s
    show _ ↔ Command.shapeOfType kind.memberType = .ok s
    rw [Command.shapeOfType_memberType_eq_ok_iff plain]
    simp only [resolve, hplan]
    cases kind.shape? with
    | error e => simp [Outcome.fail]
    | ok shape => simp [Outcome.pure]

section array

variable {status : Status ArrayPlan} {head : ArrayHead} {template : Node}
  {alternatives : List (Nat × Node)} {staged : List Node} {elements : List (Option Node)}

/-- An array resolves if it has a length, the template that it chooses resolves, and there is room
for as many elements. -/
theorem result_resolve_array_iff :
    (resolve (.array .unallocated head template alternatives staged elements) shared).result = .ok s ↔
      0 < head.length ∧ ∃ element stride,
        ((choose head.calls alternatives template).resolve (shared.count head.counter)).result =
          .ok element ∧ arrayShape? head.length element = .ok (stride, s) := by
  by_cases hlength : head.length = 0
  · simp [resolve, Status.plan?, hlength, Outcome.fail]
  · rw [resolve_array _ _ _ _ _ _ hlength]
    -- which element was chosen is of no account, only what it answers
    generalize (choose head.calls alternatives template).resolve (shared.count head.counter) = first
    cases hfirst : first.result with
    | error fault => simp [hfirst, Outcome.fail]
    | ok element =>
      cases hshape : arrayShape? head.length element with
      | error e => simp [hfirst, planArray, hshape, Except.map, Outcome.fail]
      | ok pair =>
        obtain ⟨stride, shape⟩ := pair
        simp [hfirst, planArray, hshape, Except.map, Outcome.pure, Nat.pos_of_ne_zero hlength]

/-- The type of an array is read as its shape, if that of every possible prototype is. -/
theorem typed_array (self : ArraySound status head template alternatives staged elements)
    (ih : ∀ call, (choose call alternatives template).Typed) :
    (Node.array status head template alternatives staged elements).Typed := by
  cases hplan : status.plan? with
  | some plan =>
    -- the element that the plan was made for is of the type that the plan says
    obtain ⟨call, shared, hshared, hfirst, hplanned⟩ := self.origin plan hplan
    obtain ⟨hlength, hshape⟩ := self.plan plan hplan
    obtain ⟨-, -, hfacade, -⟩ := planArray_eq_ok hplanned
    refine typed_of_shape? (shape?_array_eq_some_iff.2 ⟨plan, hplan, rfl⟩) ?_
    simp only [facade, hplan, hfacade, facade_resolve hfirst]
    exact Command.shapeOfType_array_eq_ok_iff.2
      ⟨hlength, _, _, (ih call shared hshared _).1 hfirst, hshape⟩
  | none =>
    intro shared hshared s
    have hstatus : status = .unallocated := by
      cases status <;> simp [Status.plan?] at hplan ⊢
    subst hstatus
    rw [result_resolve_array_iff]
    simp only [facade, Status.plan?, choose_facade, Command.shapeOfType_array_eq_ok_iff,
      ih head.calls _ (hshared.count head.counter)]

end array

/-- A sound structure without records resolves exactly to the shape of its type. -/
theorem typed_of_sound (hn : n.Sound) (hsimple : n.Forall Simple) : n.Typed := by
  induction hn with
  | leaf self => exact typed_leaf self hsimple.self_of
  | record => exact hsimple.self_of.elim
  | array self _ _ _ _ ihDefault ihOthers _ _ =>
    obtain ⟨-, ⟨default, others⟩, -, -⟩ := forall_array_iff.1 hsimple
    exact typed_array self fun call =>
      choose_induction (ihDefault default) fun e he => ihOthers e he (others e he)

/-! ### The layout of a definition -/

/-- Resolving the structure succeeds, and leaves a record with this layout behind. -/
def Lays (n : Node) (shared : Shared) (l : RecordLayout) : Prop :=
  (n.resolve shared).result = .ok l.shape ∧ ∃ status head fields,
    (n.resolve shared).state = .record status head fields ∧ status.plan? = some l

/-- Every member of the definition has one of the shapes. -/
def Shaped (d : RecordDef) (shapes : List Shape) : Prop :=
  List.Forall₂ (fun (m : Member) s => Command.shapeOfType m.type = .ok s) d.members shapes

section record

variable {status : Status RecordLayout} {head : RecordHead} {fields : List (Field Node)}
  {l : RecordLayout} {shapes : List Shape}

/-- The definition of a record has some shapes if the types of the fields do. -/
theorem shaped_definition_iff : Shaped (definition head fields) shapes ↔
    List.Forall₂ (fun f s => Command.shapeOfType f.child.facade.memberType = .ok s) fields shapes :=
  List.forall₂_map_left_iff

/-- The name of a record only matters for the error of an empty one. -/
theorem layout_eq_ok_iff : head.layout shapes = .ok l ↔
    head.abi.layout head.packed RecordLayout.anonymous shapes = .ok l := by
  show Catalog.Key.layout ⟨head.typeName, head.abi, head.packed⟩ shapes = .ok l ↔ _
  exact Catalog.Key.layout_eq_ok_iff

/-- A record that has a layout already keeps it, and its fields are of the types that lead to it. -/
theorem lays_iff_of_plan? {l' : RecordLayout} (self : RecordSound status head fields)
    (htyped : ∀ f ∈ fields, f.child.Typed) (hplan : status.plan? = some l') :
    (Node.record status head fields).Lays shared l ↔ ∃ shapes,
      Shaped (definition head fields) shapes ∧ head.layout shapes = .ok l := by
  obtain ⟨shapes', hshapes', hlayout'⟩ := self.layout l' hplan
  have hfields := ((List.forall₂_and_left fields shapes').2 ⟨htyped, hshapes'⟩).imp
    fun f s h => h.1.of_shape? h.2
  rw [Lays, resolve_of_shape? (shape?_record_eq_some_iff.2 ⟨l', hplan, rfl⟩)]
  simp only [shaped_definition_iff]
  constructor
  · rintro ⟨-, _, _, _, ⟨⟩, hl⟩
    cases hl.symm.trans hplan
    exact ⟨shapes', hfields, hlayout'⟩
  · rintro ⟨shapes, hshapes, hlayout⟩
    -- every type has one shape
    obtain rfl : shapes = shapes' := List.right_unique_forall₂'
      (fun f s s' h h' => Except.ok.inj (h.symm.trans h')) hshapes hfields
    cases hlayout.symm.trans hlayout'
    exact ⟨rfl, _, _, _, rfl, hplan⟩

/-- A record without a layout resolves its fields and lays them out. -/
theorem lays_unallocated_iff (hn : (Node.record .unallocated head fields).Sound)
    (htyped : ∀ f ∈ fields, f.child.Typed) (hshared : shared.Coherent) :
    (Node.record .unallocated head fields).Lays shared l ↔ ∃ shapes,
      Shaped (definition head fields) shapes ∧ head.layout shapes = .ok l := by
  obtain ⟨-, children⟩ := sound_record_iff.1 hn
  -- the fields resolve one after the other, each from what the ones before it left in the catalogs
  have hcoherent := (traverse_forall₂
    (R := fun _ _ => True) (f := fun f shared => (f.child.resolve shared).mapState f.withChild)
    (fun _ _ => trivial)
    (fun f hf shared hs => ⟨(resolved_resolve (children f hf) hs).coherent, trivial⟩) hshared).1
  have hrun (shapes : List Shape) :
      (traverse (fun f shared => (f.child.resolve shared).mapState f.withChild) fields shared).result =
          .ok shapes ↔
        List.Forall₂ (fun f s => Command.shapeOfType f.child.facade.memberType = .ok s) fields shapes :=
    traverse_eq_ok_iff (fun f hf shared hs =>
      ⟨(resolved_resolve (children f hf) hs).coherent, htyped f hf shared hs⟩) hshared
  simp only [shaped_definition_iff, ← hrun]
  constructor
  · rintro ⟨hresult, _, _, _, hstate, hl⟩
    obtain ⟨shapes, l', hshapes, hlayout, -, hstate'⟩ := resolve_record_eq_ok rfl hcoherent hresult
    cases hstate'.symm.trans hstate
    cases hl
    exact ⟨shapes, hshapes, hlayout⟩
  · rintro ⟨shapes, hshapes, hlayout⟩
    obtain ⟨hanswer, -⟩ := hcoherent.request_eq head.catalog
      ⟨head.typeName, head.abi, head.packed⟩ shapes
    have hlayout : Catalog.Key.layout ⟨head.typeName, head.abi, head.packed⟩ shapes = .ok l := hlayout
    rw [Lays, resolve_record]
    simp only [hshapes, hanswer, hlayout]
    exact ⟨rfl, _, _, _, rfl, rfl⟩

/-- A record is laid out as its definition says. -/
theorem lays_iff (hn : (Node.record status head fields).Sound)
    (htyped : ∀ f ∈ fields, f.child.Typed) (hshared : shared.Coherent) :
    (Node.record status head fields).Lays shared l ↔ ∃ shapes,
      Shaped (definition head fields) shapes ∧
        head.abi.layout head.packed RecordLayout.anonymous shapes = .ok l := by
  obtain ⟨self, -⟩ := sound_record_iff.1 hn
  simp only [← layout_eq_ok_iff]
  cases status with
  | unallocated => exact lays_unallocated_iff hn htyped hshared
  | allocatable => exact lays_iff_of_plan? self htyped rfl
  | allocated => exact lays_iff_of_plan? self htyped rfl

end record

end NativeLayout.Node
