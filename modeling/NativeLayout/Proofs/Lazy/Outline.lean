import Mathlib.Data.List.Forall2
import NativeLayout.Node.Facade
import NativeLayout.Proofs.Tree.Sound

namespace NativeLayout.Node

/-!
# Outlines

What is left of a structure when it is forgotten which elements its arrays built, when, and how often.

* `outline` — a structure with arrays that have no elements and count nothing.
* `outline_eq_record`, `outline_eq_array` — structures with the outline of a record or an array.
* `Repeats` — every array in the structure builds all its elements from one template.
* `facade_eq_of_outline`, `records_eq_of_outline` — how such a structure presents itself is in its
  outline.
* `Vacant` — nothing in the structure is stored.
-/

mutual

/-- The structure without the elements of its arrays. -/
def outline : Node → Node
  | .leaf status kind => .leaf status kind
  | .record status head fields => .record status head (outlineFields fields)
  | .array status head template _ _ _ =>
    .array status ⟨head.length, true, 0, none⟩ template.outline [] [] []

def outlineFields : List (Field Node) → List (Field Node)
  | [] => []
  | ⟨index, name, child⟩ :: rest => ⟨index, name, child.outline⟩ :: outlineFields rest

end

/-- Each field has an outline of its own. -/
theorem outlineFields_eq_map (fields : List (Field Node)) :
    outlineFields fields = fields.map fun f => f.withChild f.child.outline := by
  induction fields with
  | nil => rfl
  | cons f rest ih => rw [outlineFields, ih]; rfl

/-- How far a structure is belongs to its outline. -/
@[simp] theorem status_outline (n : Node) : n.outline.status = n.status := by
  cases n <;> rfl

/-- Fields with the same indices and names and with children of the same outlines. -/
theorem outlineFields_eq_iff {fields fields' : List (Field Node)} :
    outlineFields fields = outlineFields fields' ↔
      List.Forall₂ (Lift fun n m => n.outline = m.outline) fields fields' := by
  rw [outlineFields_eq_map, outlineFields_eq_map, ← List.forall₂_eq_eq_eq,
    List.forall₂_map_left_iff, List.forall₂_map_right_iff]
  refine ⟨fun h => h.imp fun f g hfg => ?_, fun h => h.imp fun f g hfg => ?_⟩
  · obtain ⟨hindex, hname, hchild⟩ := Field.mk.inj hfg
    exact ⟨hindex.symm, hname.symm, hchild⟩
  · simp only [Field.withChild, hfg.index, hfg.name, hfg.child]

variable {n m : Node}

/-- Structures with the same outline are equally far, and stored in the same place. -/
theorem status_eq_of_outline (h : n.outline = m.outline) : n.status = m.status := by
  rw [← status_outline n, h, status_outline]

/-- They also have the same shape. -/
theorem shape?_eq_of_outline (h : n.outline = m.outline) : n.shape? = m.shape? :=
  congrArg Status.plan? (status_eq_of_outline h)

/-- A leaf is its own outline. -/
theorem outline_eq_leaf {status : Status Shape} {kind : Leaf}
    (h : (Node.leaf status kind).outline = m.outline) : m = .leaf status kind := by
  cases m with
  | leaf => exact h.symm
  | record => cases h
  | array => cases h

/-- A structure with the outline of a record is that record, with fields of the same outlines. -/
theorem outline_eq_record {status : Status RecordLayout} {head : RecordHead}
    {fields : List (Field Node)} (h : (Node.record status head fields).outline = m.outline) :
    ∃ fields', m = .record status head fields' ∧
      List.Forall₂ (Lift fun n m => n.outline = m.outline) fields fields' := by
  cases m with
  | leaf => cases h
  | record status' head' fields' =>
    obtain ⟨rfl, rfl, hfields⟩ := Node.record.inj h
    exact ⟨fields', rfl, outlineFields_eq_iff.1 hfields⟩
  | array => cases h

/-- A structure with the outline of an array is an array of that length and plan; only its template is
known, up to its outline. -/
theorem outline_eq_array {status : Status ArrayPlan} {head : ArrayHead} {template : Node}
    {alternatives : List (Nat × Node)} {staged : List Node} {elements : List (Option Node)}
    (h : (Node.array status head template alternatives staged elements).outline = m.outline) :
    ∃ lazy calls counter template' alternatives' staged' elements',
      m = .array status ⟨head.length, lazy, calls, counter⟩ template' alternatives' staged' elements' ∧
        template.outline = template'.outline := by
  cases m with
  | leaf => cases h
  | record => cases h
  | array status' head' template' alternatives' staged' elements' =>
    obtain ⟨length', lazy', calls', counter'⟩ := head'
    obtain ⟨rfl, hhead, htemplate, -⟩ := Node.array.inj h
    obtain rfl : length' = head.length := (ArrayHead.mk.inj hhead).1.symm
    exact ⟨lazy', calls', counter', template', alternatives', staged', elements', rfl, htemplate⟩

/-- Records whose fields have the same outlines have the same outline. -/
theorem outline_record_eq {status : Status RecordLayout} {head : RecordHead}
    {fields fields' : List (Field Node)}
    (h : List.Forall₂ (Lift fun n m => n.outline = m.outline) fields fields') :
    (Node.record status head fields).outline = (Node.record status head fields').outline :=
  congrArg (Node.record status head) (outlineFields_eq_iff.2 h)

/-- To note a place does not concern the elements. -/
theorem outline_withPlacement (p : Placement) (n : Node) :
    (n.withPlacement p).outline = n.outline.withPlacement p := by
  cases n <;> rfl

/-- To ask for a type only counts, and outlines do not. -/
theorem outline_asked (n : Node) : n.asked.outline = n.outline := by
  cases n with
  | leaf => rfl
  | record => rfl
  | array status => cases status <;> rfl

/-! ### Arrays that repeat one template -/

/-- An array that builds the same structure every time. -/
def RepeatsHere : Node → Prop
  | .array _ _ template alternatives _ _ => ∀ e ∈ alternatives, e.2 = template
  | _ => True

/-- Every array in the structure builds the same structure every time. -/
abbrev Repeats (n : Node) : Prop := n.Forall RepeatsHere

/-- If all alternatives are the same structure, so is whatever is chosen. -/
theorem choose_of_forall {α : Type} {call : Nat} {alternatives : List (Nat × α)} {default : α}
    (h : ∀ e ∈ alternatives, e.2 = default) : choose call alternatives default = default :=
  choose_induction (P := fun a => a = default) rfl h

/-- Each alternative presents itself under the call it stands for. -/
theorem facadeAlternatives_eq_map (alternatives : List (Nat × Node)) :
    facadeAlternatives alternatives = alternatives.map fun e => (e.1, e.2.facade) := by
  induction alternatives with
  | nil => rfl
  | cons e rest ih => rw [facadeAlternatives, ih]; rfl

/-- The outline presents itself as the structure does. -/
theorem facade_outline (h : n.Repeats) : n.outline.facade = n.facade := by
  -- on the structure, whose arrays all repeat a template
  induction h with
  | leaf => rfl
  | record => rfl
  | @array status head template alternatives staged elements self _ _ _ _ ih =>
    cases hplan : status.plan? with
    | some plan => simp only [outline, facade, hplan]
    | none =>
      have hchoose : choose head.calls (facadeAlternatives alternatives) template.facade =
          template.facade := by
        refine choose_of_forall fun e he => ?_
        rw [facadeAlternatives_eq_map] at he
        obtain ⟨e', he', rfl⟩ := List.mem_map.1 he
        rw [show e'.2 = template from self e' he']
      simp only [outline, facade, hplan, ih, hchoose]
      rfl

/-- So structures that repeat templates present themselves alike if their outlines are the same. -/
theorem facade_eq_of_outline (hn : n.Repeats) (hm : m.Repeats) (h : n.outline = m.outline) :
    n.facade = m.facade := by
  rw [← facade_outline hn, h, facade_outline hm]

/-- The definition of a record tells its fields only by how they present themselves. -/
theorem definition_eq_of_lift {head : RecordHead} {fields fields' : List (Field Node)}
    (h : List.Forall₂ (Lift fun n m => n.facade = m.facade) fields fields') :
    definition head fields = definition head fields' := by
  have hmembers : (fields.map fun f => (⟨f.name, f.child.facade.memberType⟩ : Member)) =
      fields'.map fun f => ⟨f.name, f.child.facade.memberType⟩ := by
    rw [← List.forall₂_eq_eq_eq, List.forall₂_map_left_iff, List.forall₂_map_right_iff]
    exact h.imp fun f g hfg => by rw [hfg.name, hfg.child]
  exact congrArg (RecordDef.mk head.typeName) hmembers

/-- The records of a record are those of its fields. -/
theorem recordsFields_outlineFields {fields : List (Field Node)}
    (h : ∀ f ∈ fields, f.child.outline.records = f.child.records) :
    recordsFields (outlineFields fields) = recordsFields fields := by
  induction fields with
  | nil => rfl
  | cons f rest ih =>
    obtain ⟨hfirst, hrest⟩ := List.forall_mem_cons.1 h
    simp only [outlineFields, recordsFields, hfirst, ih hrest]

/-- The outline is made of the same records as the structure. -/
theorem records_outline (h : n.Repeats) : n.outline.records = n.records := by
  induction h with
  | leaf => rfl
  | @record status head fields self children ih =>
    have hdefinition : definition head (outlineFields fields) = definition head fields := by
      refine definition_eq_of_lift ?_
      rw [outlineFields_eq_map, List.forall₂_map_left_iff, List.forall₂_same]
      exact fun f hf => ⟨rfl, rfl, facade_outline (children f hf)⟩
    simp only [outline, records, recordsFields_outlineFields ih, hdefinition]
  | array => rfl

/-- Structures that repeat templates are made of the same records if their outlines are the same. -/
theorem records_eq_of_outline (hn : n.Repeats) (hm : m.Repeats) (h : n.outline = m.outline) :
    n.records = m.records := by
  rw [← records_outline hn, h, records_outline hm]

/-! ### Structures without storage -/

/-- A structure that is not stored and has no stored fields. -/
inductive Vacant : Node → Prop where
  | leaf {status : Status Shape} {kind : Leaf} (here : status.placement? = none) :
      Vacant (.leaf status kind)
  | record {status : Status RecordLayout} {head : RecordHead} {fields : List (Field Node)}
      (here : status.placement? = none) (children : ∀ f ∈ fields, Vacant f.child) :
      Vacant (.record status head fields)
  | array {status : Status ArrayPlan} {head : ArrayHead} {template : Node}
      {alternatives : List (Nat × Node)} {staged : List Node} {elements : List (Option Node)}
      (here : status.placement? = none) :
      Vacant (.array status head template alternatives staged elements)

/-- Whether a structure is vacant is in its outline. -/
theorem Vacant.of_outline (hn : n.Vacant) (h : n.outline = m.outline) : m.Vacant := by
  induction hn generalizing m with
  | leaf here =>
    obtain rfl := outline_eq_leaf h
    exact .leaf here
  | record here _ ih =>
    obtain ⟨fields', rfl, hfields⟩ := outline_eq_record h
    refine .record here fun g hg => ?_
    obtain ⟨f, hf, hfg⟩ := forall₂_mem hfields hg
    exact ih f hf hfg.child
  | array here =>
    obtain ⟨_, _, _, _, _, _, _, rfl, -⟩ := outline_eq_array h
    exact .array here

end NativeLayout.Node
