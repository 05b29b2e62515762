import Mathlib.Data.List.Forall2
import NativeLayout.Node.Resolve
import NativeLayout.Proofs.Coherence
import NativeLayout.Proofs.Tree.Basic

namespace NativeLayout

/-!
# Sound structures

What every structure in a tree keeps to, whatever happened to it and to the structures around it.

* `Ready` — every array that builds its elements in advance has built them.
* `RecordSound`, `ArraySound` — what a record and an array know of their parts: the layout is that
  of the fields' shapes, the plan is that of an element which a template gives
  (`ArrayPlan.ArisesFrom`), and once there is storage each part is where the layout puts it.
* `Sound` — this holds everywhere in a tree, templates and staged elements included.
* `Keeps`, `Evolves` — what is known of a structure stays known; a part that changes this way
  leaves the structure around it sound (`RecordSound.lift`, `ArraySound.setElement`).
-/

/-- The layout of a record with these shapes of fields. -/
def RecordHead.layout (head : RecordHead) (shapes : List Shape) : Except LayoutError RecordLayout :=
  head.abi.layout head.packed head.typeName shapes

/-- The plan of an array of some length whose first element is what a template resolves to. -/
def ArrayPlan.ArisesFrom (plan : ArrayPlan) (length : Nat) (template : Node) : Prop :=
  ∃ shared : Shared, shared.Coherent ∧ (template.resolve shared).result = .ok plan.element ∧
    Node.planArray length plan.element (template.resolve shared).state = .ok plan

namespace Node

/-- Every array in the structure is lazy or has an element for each index. -/
inductive Ready : Node → Prop where
  | leaf {status : Status Shape} {kind : Leaf} : Ready (.leaf status kind)
  | record {status : Status RecordLayout} {head : RecordHead} {fields : List (Field Node)}
      (children : ∀ f ∈ fields, Ready f.child) : Ready (.record status head fields)
  | array {status : Status ArrayPlan} {head : ArrayHead} {template : Node}
      {alternatives : List (Nat × Node)} {staged : List Node} {elements : List (Option Node)}
      (all : head.lazy = true ∨ staged.length = head.length) (built : ∀ e ∈ staged, Ready e) :
      Ready (.array status head template alternatives staged elements)

/-- A record and its fields. -/
structure RecordSound (status : Status RecordLayout) (head : RecordHead)
    (fields : List (Field Node)) : Prop where
  ascending : fields.Pairwise fun f g => f.index < g.index
  layout : ∀ l, status.plan? = some l → ∃ shapes,
    List.Forall₂ (fun f s => f.child.shape? = some s) fields shapes ∧ head.layout shapes = .ok l
  placed : ∀ l p, status = .allocated l p → ∀ (k : Nat) (f : Field Node) (offset : Nat),
    fields[k]? = some f → l.offsets[k]? = some offset →
      f.child.placement? = some ⟨p.region, p.offset + offset, .claimed⟩

/-- An array and its elements. -/
structure ArraySound (status : Status ArrayPlan) (head : ArrayHead) (template : Node)
    (alternatives : List (Nat × Node)) (staged : List Node) (elements : List (Option Node)) :
    Prop where
  plan : ∀ plan, status.plan? = some plan →
    0 < head.length ∧ arrayShape? head.length plan.element = .ok (plan.stride, plan.shape)
  origin : ∀ plan, status.plan? = some plan →
    ∃ call, plan.ArisesFrom head.length (choose call alternatives template)
  stagedAll : staged = [] ∨ staged.length = head.length
  staged : ∀ e ∈ staged, e.Ready ∧
    ∃ plan, status.plan? = some plan ∧ e.shape? = some plan.element
  unplaced : status.placement? = none → elements = []
  placed : ∀ plan p, status = .allocated plan p → elements.length = head.length ∧
    ∀ (i : Nat) (e : Node), elements[i]? = some (some e) → e.shape? = some plan.element ∧
      e.placement? = some ⟨p.region, p.offset + i * plan.stride + plan.element.pre, .claimed⟩

/-- What a structure knows of its own parts. -/
def Consistent : Node → Prop
  | .leaf status kind => ∀ shape, status.plan? = some shape → kind.shape? = .ok shape
  | .record status head fields => RecordSound status head fields
  | .array status head template alternatives staged elements =>
    ArraySound status head template alternatives staged elements

/-- Every structure in the tree is consistent. -/
abbrev Sound (n : Node) : Prop := n.Forall Consistent

variable {status : Status RecordLayout} {head : RecordHead} {fields fields' : List (Field Node)}

/-- A record is sound if it knows its fields and these are sound. -/
theorem sound_record_iff :
    (Node.record status head fields).Sound ↔
      RecordSound status head fields ∧ ∀ f ∈ fields, f.child.Sound :=
  forall_record_iff

section array

variable {status : Status ArrayPlan} {head : ArrayHead} {template : Node}
  {alternatives : List (Nat × Node)} {staged : List Node} {elements : List (Option Node)}

/-- An array is sound if it knows its parts, and everything it was given or has built is sound. -/
theorem sound_array_iff :
    (Node.array status head template alternatives staged elements).Sound ↔
      ArraySound status head template alternatives staged elements ∧
        (template.Sound ∧ ∀ e ∈ alternatives, e.2.Sound) ∧
        (∀ e ∈ staged, e.Sound) ∧ ∀ e, some e ∈ elements → e.Sound :=
  forall_array_iff

/-- New structures know nothing yet. -/
theorem sound_ofLeaf (kind : Leaf) : (ofLeaf kind).Sound := .leaf (by rintro _ ⟨⟩)

/-- A new record has no fields and no layout. -/
theorem sound_newRecord (head : RecordHead) : (newRecord head).Sound :=
  sound_record_iff.2 ⟨⟨.nil, by rintro _ ⟨⟩, by rintro _ _ ⟨⟩⟩, by simp⟩

/-- A new array is sound if its templates are. -/
theorem sound_newArray (length : Nat) (lazy : Bool) (counter : Option String)
    (default : template.Sound) (others : ∀ e ∈ alternatives, e.2.Sound) :
    (newArray length lazy counter template alternatives).Sound :=
  sound_array_iff.2 ⟨⟨by rintro _ ⟨⟩, by rintro _ ⟨⟩, .inl rfl, by simp, fun _ => rfl,
    by rintro _ _ ⟨⟩⟩, ⟨default, others⟩, by simp, by simp⟩

end array

/-! ### What stays known -/

/-- What is known of a structure stays known. -/
structure Keeps (n m : Node) : Prop where
  shape : ∀ s, n.shape? = some s → m.shape? = some s
  placement : ∀ p, n.placement? = some p → m.placement? = some p

@[refl] theorem Keeps.refl (n : Node) : Keeps n n := ⟨fun _ h => h, fun _ h => h⟩

theorem Keeps.trans {a b c : Node} (hab : Keeps a b) (hbc : Keeps b c) : Keeps a c :=
  ⟨fun s h => hbc.shape s (hab.shape s h), fun p h => hbc.placement p (hab.placement p h)⟩

/-- Shape and place are in the status, so a structure with the same status keeps them. -/
theorem Keeps.of_status_eq {n m : Node} (h : m.status = n.status) : Keeps n m := by
  constructor
  · intro s hs
    rwa [shape?, h]
  · intro p hp
    rwa [placement?, h]

/-- A sound structure that is not deeper than before, with all that was known of it. -/
structure Evolves (n m : Node) : Prop where
  sound : m.Sound
  depth_le : m.depth ≤ n.depth
  keeps : Keeps n m

/-- A sound structure that is left alone. -/
theorem Evolves.refl {n : Node} (h : n.Sound) : Evolves n n := ⟨h, Nat.le_refl _, .refl n⟩

/-- A field whose child changed. -/
structure Lift (R : Node → Node → Prop) (f g : Field Node) : Prop where
  index : g.index = f.index
  name : g.name = f.name
  child : R f.child g.child

/-- A field under its old index and name. -/
theorem Lift.withChild {R : Node → Node → Prop} {f : Field Node} {c : Node} (h : R f.child c) :
    Lift R f (f.withChild c) := ⟨rfl, rfl, h⟩

/-- A weaker relation between the children. -/
theorem Lift.imp {R S : Node → Node → Prop} {f g : Field Node} (h : Lift R f g)
    (himp : R f.child g.child → S f.child g.child) : Lift S f g :=
  ⟨h.index, h.name, himp h.child⟩

end Node

/-- The partner of an item in a list that is related to another, rank by rank. -/
theorem forall₂_getElem? {α β : Type} {R : α → β → Prop} {xs : List α} {ys : List β}
    (h : List.Forall₂ R xs ys) {k : Nat} {y : β} (hy : ys[k]? = some y) :
    ∃ x, xs[k]? = some x ∧ R x y := by
  induction h generalizing k with
  | nil => simp at hy
  | cons hxy _ ih =>
    cases k with
    | zero =>
      cases hy
      exact ⟨_, rfl, hxy⟩
    | succ k => exact ih (by simpa using hy)

/-- A list with another item in one place. -/
theorem forall₂_set {α : Type} {R : α → α → Prop} {xs : List α} {k : Nat} {x y : α}
    (hrefl : ∀ z ∈ xs, R z z) (hx : xs[k]? = some x) (hxy : R x y) :
    List.Forall₂ R xs (xs.set k y) := by
  induction xs generalizing k with
  | nil => simp at hx
  | cons z xs ih =>
    obtain ⟨hz, hrest⟩ := List.forall_mem_cons.1 hrefl
    cases k with
    | zero =>
      cases hx
      exact .cons hxy (List.forall₂_same.2 hrest)
    | succ k => exact .cons hz (ih hrest (by simpa using hx))

/-- Related lists end at the same rank. -/
theorem forall₂_getElem?_none {α β : Type} {R : α → β → Prop} {xs : List α} {ys : List β}
    (h : List.Forall₂ R xs ys) {k : Nat} (hy : ys[k]? = none) : xs[k]? = none := by
  have hlength := h.length_eq
  rw [List.getElem?_eq_none_iff] at hy ⊢
  omega

/-- Every item of a related list has a partner. -/
theorem forall₂_mem {α β : Type} {R : α → β → Prop} {xs : List α} {ys : List β}
    (h : List.Forall₂ R xs ys) {y : β} (hy : y ∈ ys) : ∃ x ∈ xs, R x y := by
  obtain ⟨k, hk⟩ := List.mem_iff_getElem?.1 hy
  obtain ⟨x, hx, hxy⟩ := forall₂_getElem? h hk
  exact ⟨x, List.mem_of_getElem? hx, hxy⟩

namespace Node

variable {status : Status RecordLayout} {head : RecordHead} {fields fields' : List (Field Node)}

/-- Fields that change one by one keep their indices. -/
theorem map_index_eq_of_lift {R : Node → Node → Prop} (h : List.Forall₂ (Lift R) fields fields') :
    fields'.map Field.index = fields.map Field.index := by
  induction h with
  | nil => rfl
  | cons hfg _ ih => simp [hfg.index, ih]

/-- Fields that change one by one stay in order. -/
theorem ascending_of_lift {R : Node → Node → Prop} (h : List.Forall₂ (Lift R) fields fields')
    (hfields : fields.Pairwise fun f g => f.index < g.index) :
    fields'.Pairwise fun f g => f.index < g.index := by
  rw [← List.pairwise_map] at hfields ⊢
  rwa [map_index_eq_of_lift h]

/-- Fields that keep what is known of them leave the record sound. -/
theorem RecordSound.lift (h : RecordSound status head fields)
    (hlift : List.Forall₂ (Lift Keeps) fields fields') : RecordSound status head fields' := by
  refine ⟨ascending_of_lift hlift h.ascending, ?_, ?_⟩
  · intro l hl
    obtain ⟨shapes, hshapes, hlayout⟩ := h.layout l hl
    refine ⟨shapes, ?_, hlayout⟩
    -- the layout is that of all fields, so the induction over them leaves it aside
    clear hlayout h
    induction hlift generalizing shapes with
    | nil => exact hshapes
    | cons hfg _ ih =>
      cases hshapes with
      | cons hs hrest => exact .cons (hfg.child.shape _ hs) (ih _ hrest)
  · intro l p hstatus k g offset hg hoffset
    obtain ⟨f, hf, hfg⟩ := forall₂_getElem? hlift hg
    exact hfg.child.placement _ (h.placed l p hstatus k f offset hf hoffset)

/-- A record with fields that are not deeper is not deeper. -/
theorem depth_record_le_of_lift {status' : Status RecordLayout} {head' : RecordHead}
    (h : List.Forall₂ (Lift Evolves) fields fields') :
    (Node.record status' head' fields').depth ≤ (Node.record status head fields).depth := by
  obtain ⟨d, hd⟩ : ∃ d, (Node.record status head fields).depth = d + 1 :=
    Nat.exists_eq_add_one.2 (depth_pos _)
  rw [hd, depth_record_le_iff]
  intro g hg
  obtain ⟨f, hf, hfg⟩ := forall₂_mem h hg
  exact Nat.le_trans hfg.child.depth_le (depth_record_le_iff.1 (Nat.le_of_eq hd) f hf)

/-- A record stays sound when its fields do and keep what is known of them. -/
theorem sound_record_of_lift (h : (Node.record status head fields).Sound)
    (hlift : List.Forall₂ (Lift Evolves) fields fields') :
    (Node.record status head fields').Sound := by
  obtain ⟨self, -⟩ := sound_record_iff.1 h
  refine sound_record_iff.2 ⟨self.lift (hlift.imp fun _ _ hfg => hfg.imp Evolves.keeps), ?_⟩
  intro g hg
  obtain ⟨f, -, hfg⟩ := forall₂_mem hlift hg
  exact hfg.child.sound

/-- A record stays sound when one of its fields does and keeps what is known of it. -/
theorem sound_record_setField (h : (Node.record status head fields).Sound) {k : Nat}
    {f : Field Node} {c : Node} (hf : fields[k]? = some f) (hc : c.Sound)
    (hkeeps : Keeps f.child c) :
    (Node.record status head (fields.set k (f.withChild c))).Sound := by
  obtain ⟨self, children⟩ := sound_record_iff.1 h
  have hlift : List.Forall₂ (Lift Keeps) fields (fields.set k (f.withChild c)) :=
    forall₂_set (fun _ _ => ⟨rfl, rfl, .refl _⟩) hf (.withChild hkeeps)
  refine sound_record_iff.2 ⟨self.lift hlift, fun g hg => ?_⟩
  rcases List.mem_or_eq_of_mem_set hg with hg | rfl
  · exact children g hg
  · exact hc

section array

variable {status : Status ArrayPlan} {head : ArrayHead} {template : Node}
  {alternatives : List (Nat × Node)} {staged : List Node} {elements : List (Option Node)}

/-- How often the array built something does not matter. -/
theorem ArraySound.counted (h : ArraySound status head template alternatives staged elements)
    (calls : Nat) :
    ArraySound status { head with calls } template alternatives staged elements :=
  ⟨h.plan, h.origin, h.stagedAll, h.staged, h.unplaced, h.placed⟩

/-- An element that keeps what is known of it leaves the array sound. -/
theorem ArraySound.setElement (h : ArraySound status head template alternatives staged elements)
    {i : Nat} {e e' : Node} (he : elements[i]? = some (some e)) (hkeeps : Keeps e e') :
    ArraySound status head template alternatives staged (elements.set i (some e')) := by
  refine ⟨h.plan, h.origin, h.stagedAll, h.staged, ?_, ?_⟩
  · intro hnone
    simp [h.unplaced hnone]
  · intro plan p hstatus
    obtain ⟨hlength, hplaced⟩ := h.placed plan p hstatus
    refine ⟨by simpa using hlength, fun k c hc => ?_⟩
    -- the element that is exchanged keeps its shape and its place; the others are the same
    rw [List.getElem?_set] at hc
    split at hc
    next hik =>
      subst hik
      obtain ⟨hshape, hplacement⟩ := hplaced i e he
      rw [if_pos (List.getElem?_eq_some_iff.1 he).1] at hc
      cases hc
      exact ⟨hkeeps.shape _ hshape, hkeeps.placement _ hplacement⟩
    next => exact hplaced k c hc

/-- An array stays sound when one of its elements does and keeps what is known of it. -/
theorem sound_array_setElement
    (h : (Node.array status head template alternatives staged elements).Sound) {i : Nat}
    {e e' : Node} (he : elements[i]? = some (some e)) (he' : e'.Sound) (hkeeps : Keeps e e') :
    (Node.array status head template alternatives staged (elements.set i (some e'))).Sound := by
  obtain ⟨self, templates, built, children⟩ := sound_array_iff.1 h
  refine sound_array_iff.2 ⟨self.setElement he hkeeps, templates, built, ?_⟩
  intro c hc
  rcases List.mem_or_eq_of_mem_set hc with hc | hc
  · exact children c hc
  · cases hc
    exact he'

end array

end Node

end NativeLayout
