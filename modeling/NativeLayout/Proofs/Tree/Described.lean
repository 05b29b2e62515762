import NativeLayout.Node.Facade
import NativeLayout.Proofs.Layout.Whole
import NativeLayout.Proofs.Tree.Resolve

namespace NativeLayout

/-!
# What structures say about themselves

A resolved structure has a shape, a member type and the records it is made of.

* `Leaf.Plain`, `Node.Plain` — leaves of the built-in types.
* `Leaf.exists_run` — such a leaf is a run of scalars.
* `Described` — member types with the shape and the records that belong to them.
* `Described.whole` — such shapes are whole.
* `Node.describes_of_shape?` — what a sound structure of plain leaves says about itself belongs
  together.
-/

/-- A leaf of a built-in type: anything but bytes that only their owner understands. -/
def Leaf.Plain : Leaf → Prop
  | .custom .. => False
  | _ => True

/-- Whether the structure, its parts aside, is no custom leaf. -/
def Node.Plain : Node → Prop
  | .leaf _ kind => kind.Plain
  | _ => True

/-- A part of a record: its member, its shape and the records it is made of. -/
structure Part where
  member : Member
  shape : Shape
  records : List (RecordDef × RecordLayout)

/-- The definition of a record with these parts. -/
def RecordHead.definition (head : RecordHead) (parts : List Part) : RecordDef :=
  ⟨head.typeName, parts.map Part.member⟩

/-- A member type, with its shape and the records that it is made of, inner ones first. -/
inductive Described : MemberType → Shape → List (RecordDef × RecordLayout) → Prop where
  | leaf {kind : Leaf} {s : Shape} (plain : kind.Plain) (shape : kind.shape? = .ok s) :
      Described kind.memberType s []
  | record {head : RecordHead} {parts : List Part} {l : RecordLayout}
      (inner : ∀ p ∈ parts, Described p.member.type p.shape p.records)
      (layout : head.layout (parts.map Part.shape) = .ok l) :
      Described (.named head.typeName) l.shape
        (parts.flatMap Part.records ++ [(head.definition parts, l)])
  | array {length stride : Nat} {t : MemberType} {element s : Shape}
      {rs : List (RecordDef × RecordLayout)} (inner : Described t element rs)
      (shape : Node.arrayShape? length element = .ok (stride, s)) :
      Described (.array t length) s rs

/-- A plain leaf is a run of scalars, and its member type says so. -/
theorem Leaf.exists_run {kind : Leaf} {s : Shape} (plain : kind.Plain) (h : kind.shape? = .ok s) :
    ∃ type count, ScalarType.run? type count = .ok s ∧
      (kind.memberType = (MemberType.scalar type).repeated count ∨
        kind.memberType = .array (.scalar type) count ∨
        type = .address ∧ count = 1 ∧ ∃ pointee, kind.memberType = .pointer pointee) := by
  cases kind with
  | scalars type count => exact ⟨type, count, h, .inl rfl⟩
  | text capacity =>
    simp only [shape?] at h
    split at h
    next => cases h
    -- a text is an array of characters even if it holds only one
    next => exact ⟨.char, capacity, h, .inr (.inl rfl)⟩
  | enum type => exact ⟨.i32, 1, h, .inl rfl⟩
  | pointer pointee => exact ⟨.address, 1, h, .inr (.inr ⟨rfl, rfl, pointee, rfl⟩)⟩
  | custom => exact plain.elim

/-- A leaf whose owner chose the shape has that shape, if there is one. -/
theorem Leaf.shape?_custom_eq_ok_iff {name : String} {wanted s : Shape} {type : MemberType} :
    (Leaf.custom name wanted type).shape? = .ok s ↔
      wanted.packed = true ∧ s = .compressed wanted.size ∨ wanted.packed = false ∧
        Shape.padded? wanted.size wanted.align wanted.pre wanted.post = .ok s := by
  cases hpacked : wanted.packed with
  | true => simp [shape?, hpacked, @eq_comm _ s]
  | false => simp [shape?, hpacked]

/-- What types describe has no leading padding and fills multiples of its alignment. -/
theorem Described.whole {t : MemberType} {s : Shape} {rs : List (RecordDef × RecordLayout)}
    (h : Described t s rs) : s.Whole := by
  induction h with
  | leaf plain shape =>
    obtain ⟨type, count, hrun, -⟩ := Leaf.exists_run plain shape
    exact (ScalarType.whole_of_run? hrun).1
  | @record head _ _ _ layout => exact RecordLayout.whole_of_compute head.abi.cap_isPowerOfTwo layout
  | array _ shape ih => exact (Node.whole_of_arrayShape? ih shape).1

namespace Node

/-- The shape of a consistent structure is whole, unless its owner chose it. -/
theorem whole_of_consistent {n : Node} {s : Shape} (hn : n.Consistent) (hs : n.shape? = some s)
    (hplain : ∀ status kind, n = .leaf status kind → kind.Plain) : s.Whole := by
  cases n with
  | leaf status kind =>
    obtain ⟨type, count, hrun, -⟩ := Leaf.exists_run (hplain status kind rfl) (hn s hs)
    exact (ScalarType.whole_of_run? hrun).1
  | record status head fields =>
    obtain ⟨l, hl, rfl⟩ := shape?_record_eq_some_iff.1 hs
    obtain ⟨shapes, -, hlayout⟩ := RecordSound.layout hn l hl
    exact RecordLayout.whole_of_compute head.abi.cap_isPowerOfTwo hlayout
  | array status head template alternatives staged elements =>
    obtain ⟨plan, hplan, rfl⟩ := shape?_array_eq_some_iff.1 hs
    exact whole_array (ArraySound.plan hn plan hplan).2

/-- What the structure says about itself belongs together with a shape. -/
def Describes (n : Node) (s : Shape) : Prop :=
  ∃ rs, n.records = .ok rs ∧ Described n.facade.memberType s rs

/-! ### Records -/

/-- The fields of a record as parts, once each of them says what belongs together. -/
theorem exists_parts {fields : List (Field Node)} {shapes : List Shape}
    (h : List.Forall₂ (fun f s => f.child.Describes s) fields shapes) :
    ∃ parts : List Part, parts.map Part.shape = shapes ∧
      parts.map Part.member = fields.map (fun f => ⟨f.name, f.child.facade.memberType⟩) ∧
      recordsFields fields = .ok (parts.flatMap Part.records) ∧
      ∀ p ∈ parts, Described p.member.type p.shape p.records := by
  induction h with
  | nil => exact ⟨[], rfl, rfl, rfl, by simp⟩
  | @cons f s fields shapes hf _ ih =>
    obtain ⟨rs, hrs, hdescribed⟩ := hf
    obtain ⟨parts, hshapes, hmembers, hrecords, hparts⟩ := ih
    obtain ⟨index, name, child⟩ := f
    refine ⟨⟨⟨name, child.facade.memberType⟩, s, rs⟩ :: parts, ?_, ?_, ?_, ?_⟩
    · rw [List.map_cons, hshapes]
    · rw [List.map_cons, List.map_cons, hmembers]
    · have hchild : child.records = .ok rs := hrs
      simp only [recordsFields, hchild, hrecords, List.flatMap_cons]
    · exact List.forall_mem_cons.2 ⟨hdescribed, hparts⟩

/-- A record is described by its layout and the types of its fields. -/
theorem describes_record {status : Status RecordLayout} {head : RecordHead}
    {fields : List (Field Node)} {shapes : List Shape} {l : RecordLayout}
    (hplan : status.plan? = some l)
    (hfields : List.Forall₂ (fun f s => f.child.Describes s) fields shapes)
    (hlayout : head.layout shapes = .ok l) : (Node.record status head fields).Describes l.shape := by
  obtain ⟨parts, rfl, hmembers, hrecords, hparts⟩ := exists_parts hfields
  have hdefinition : definition head fields = head.definition parts := by
    rw [RecordHead.definition, hmembers]
    rfl
  refine ⟨parts.flatMap Part.records ++ [(head.definition parts, l)], ?_, ?_⟩
  · simp only [records, hplan, hrecords, hdefinition]
  · exact .record hparts hlayout

/-! ### Arrays -/

/-- An array says what the element said that it was planned for. -/
theorem describes_array {status : Status ArrayPlan} {head : ArrayHead} {template : Node}
    {alternatives : List (Nat × Node)} {staged : List Node} {elements : List (Option Node)}
    {plan : ArrayPlan} {first : Node} (hplan : status.plan? = some plan)
    (hfirst : first.Describes plan.element)
    (hplanned : planArray head.length plan.element first = .ok plan) :
    (Node.array status head template alternatives staged elements).Describes plan.shape := by
  obtain ⟨rs, hrs, hdescribed⟩ := hfirst
  obtain ⟨-, hshape, hfacade, hrecords⟩ := planArray_eq_ok hplanned
  rw [hrs] at hrecords
  refine ⟨rs, ?_, ?_⟩
  · simp only [records, hplan]
    exact congrArg Except.ok hrecords
  · have hmember : (Node.array status head template alternatives staged elements).facade.memberType =
        .array first.facade.memberType head.length := by
      simp only [facade, hplan, hfacade]
    rw [hmember]
    exact .array hdescribed hshape

/-! ### Trees -/

/-- Whatever the structure resolves to says what belongs together. -/
def Candid (n : Node) : Prop :=
  ∀ shared : Shared, shared.Coherent → ∀ s, (n.resolve shared).result = .ok s →
    (n.resolve shared).state.Describes s

/-- A candid structure describes its shape as soon as it has one. -/
theorem Candid.of_shape? {n : Node} {s : Shape} (h : n.Candid) (hs : n.shape? = some s) :
    n.Describes s := by
  have hresolved := h .empty Shared.coherent_empty s
  rw [resolve_of_shape? hs] at hresolved
  exact hresolved rfl

/-- A structure that has a shape already stays as it is. -/
theorem candid_of_shape? {n : Node} {s : Shape} (hs : n.shape? = some s) (h : n.Describes s) :
    n.Candid := by
  intro shared _ t ht
  rw [resolve_of_shape? hs] at ht ⊢
  cases ht
  exact h

/-- A plain leaf tells its type as it is. -/
theorem candid_leaf {status : Status Shape} {kind : Leaf}
    (self : (Node.leaf status kind).Consistent) (plain : kind.Plain) :
    (Node.leaf status kind).Candid := by
  have hleaf : ∀ {status : Status Shape} {s : Shape}, kind.shape? = .ok s →
      (Node.leaf status kind).Describes s := fun hs => ⟨[], rfl, .leaf plain hs⟩
  cases hplan : status.plan? with
  | some shape => exact candid_of_shape? hplan (hleaf (self shape hplan))
  | none =>
    intro shared _ s h
    cases hshape : kind.shape? with
    | error e =>
      simp only [resolve, hplan, hshape] at h
      cases h
    | ok shape =>
      simp only [resolve, hplan, hshape] at h ⊢
      cases h
      exact hleaf hshape

/-- A record of candid fields is candid. -/
theorem candid_record {status : Status RecordLayout} {head : RecordHead}
    {fields : List (Field Node)} (hn : (Node.record status head fields).Sound)
    (ih : ∀ f ∈ fields, f.child.Candid) : (Node.record status head fields).Candid := by
  obtain ⟨self, children⟩ := sound_record_iff.1 hn
  have hresolved : ∀ l, status.plan? = some l → (Node.record status head fields).Describes l.shape := by
    intro l hl
    obtain ⟨shapes, hshapes, hlayout⟩ := self.layout l hl
    have hfields := (List.forall₂_and_left fields shapes).2 ⟨ih, hshapes⟩
    exact describes_record hl (hfields.imp fun f s h => h.1.of_shape? h.2) hlayout
  cases status with
  | allocatable l => exact candid_of_shape? rfl (hresolved l rfl)
  | allocated l p => exact candid_of_shape? rfl (hresolved l rfl)
  | unallocated =>
    intro shared hshared s h
    -- resolved just now, the shapes of the fields are those that they answered with
    have hcoherent := (traverse_forall₂
      (R := fun _ _ => True) (f := fun f shared => (f.child.resolve shared).mapState f.withChild)
      (fun _ _ => trivial)
      (fun f hf shared hs => ⟨(resolved_resolve (children f hf) hs).coherent, trivial⟩) hshared).1
    obtain ⟨shapes, l, hshapes, hlayout, rfl, hstate⟩ := resolve_record_eq_ok rfl hcoherent h
    have hfields := traverse_ok (Q := fun f s => f.child.Describes s)
      (fun f hf shared hs => ⟨(resolved_resolve (children f hf) hs).coherent, ih f hf shared hs⟩)
      hshared hshapes
    rw [hstate]
    exact describes_record rfl hfields hlayout

/-- An array is candid if whatever it may have been planned with is. -/
theorem candid_array {status : Status ArrayPlan} {head : ArrayHead} {template : Node}
    {alternatives : List (Nat × Node)} {staged : List Node} {elements : List (Option Node)}
    (self : ArraySound status head template alternatives staged elements)
    (ih : ∀ call, (choose call alternatives template).Candid) :
    (Node.array status head template alternatives staged elements).Candid := by
  have hresolved : ∀ plan, status.plan? = some plan →
      (Node.array status head template alternatives staged elements).Describes plan.shape := by
    intro plan hplan
    -- the plan comes from what some call chose and resolved
    obtain ⟨call, shared, hshared, hfirst, hplanned⟩ := self.origin plan hplan
    exact describes_array hplan (ih call shared hshared _ hfirst) hplanned
  cases status with
  | allocatable plan => exact candid_of_shape? rfl (hresolved plan rfl)
  | allocated plan p => exact candid_of_shape? rfl (hresolved plan rfl)
  | unallocated =>
    intro shared hshared s h
    obtain ⟨plan, hfirst, hplanned, rfl, hstate⟩ := resolve_array_eq_ok rfl h
    have hdescribes := ih head.calls _ (hshared.count head.counter) _ hfirst
    rw [hstate]
    exact describes_array rfl hdescribes hplanned

/-- **Plain structures are candid**, at every depth. -/
theorem candid_of_sound {n : Node} (hn : n.Sound) (hplain : n.Forall Plain) : n.Candid := by
  -- over the tree, templates included: an array says what an element from a template said
  induction hn with
  | leaf self => exact candid_leaf self hplain.self_of
  | record self children ih =>
    cases hplain with
    | record _ hfields => exact candid_record (.record self children) fun f hf => ih f hf (hfields f hf)
  | array self _ _ _ _ ihDefault ihOthers _ _ =>
    cases hplain with
    | array _ default others =>
      exact candid_array self fun call =>
        choose_induction (ihDefault default) fun e he => ihOthers e he (others e he)

/-- What a sound structure of plain leaves says about itself belongs together, as soon as it has a
shape. -/
theorem describes_of_shape? {n : Node} (hn : n.Sound) (hplain : n.Forall Plain) {s : Shape}
    (hs : n.shape? = some s) : n.Describes s :=
  (candid_of_sound hn hplain).of_shape? hs

end Node

end NativeLayout
