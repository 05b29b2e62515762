import NativeLayout.Proofs.Catalog.Oblivious
import NativeLayout.Proofs.Lazy.Outline
import NativeLayout.Proofs.Tree.Lasting

namespace NativeLayout.Node

/-!
# Twins

Two structures are twins if they only differ in which elements their arrays have built, when they
did, and how often.

* `resolved`, `sample` — a template once it is resolved, and the element that it becomes at a place.
* `Regular` — every array repeats one template without storage, and what it built looks like that.
* `Twin` — sound and regular structures with the same outline.
* `Twin.resolve` — twins resolve to the same shape, and are twins afterwards.
-/

/-- The structure once it is resolved, as if it were the first one. -/
def resolved (n : Node) : Node := (n.resolve .empty).state

/-- The structure as an element that is stored from an offset of a region on. -/
def sample (n : Node) (region : Region) (offset : Nat) : Node :=
  (n.resolved.claim region offset .empty).state

/-- An array that repeats one template: everything it built has the outline of the template, and the
storage has room for all elements. -/
structure Uniform (status : Status ArrayPlan) (template : Node) (alternatives : List (Nat × Node))
    (staged : List Node) (elements : List (Option Node)) : Prop where
  repeats : ∀ e ∈ alternatives, e.2 = template
  vacant : template.Vacant
  staged : ∀ e ∈ staged, e.outline = template.resolved.outline
  room : ∀ plan p, status = .allocated plan p → plan.shape.size ≤ p.region.length - p.offset
  elements : ∀ plan p, status = .allocated plan p → ∀ (i : Nat) (e : Node),
    elements[i]? = some (some e) →
      e.outline = (template.sample p.region (p.offset + i * plan.stride)).outline

/-- Every array in the structure repeats one template. -/
abbrev Regular (n : Node) : Prop := n.Forall fun
  | .array status _ template alternatives staged elements =>
    Uniform status template alternatives staged elements
  | _ => True

section regular

variable {status : Status RecordLayout} {head : RecordHead} {fields : List (Field Node)}

/-- Nothing is required of a record itself. -/
theorem regular_record_iff :
    (Node.record status head fields).Regular ↔ ∀ f ∈ fields, f.child.Regular :=
  forall_record_iff.trans (and_iff_right trivial)

end regular

section array

variable {status status' : Status ArrayPlan} {head : ArrayHead} {template : Node}
  {alternatives : List (Nat × Node)} {staged : List Node} {elements : List (Option Node)}

/-- An array is regular if it repeats its template, and everything it holds is regular. -/
theorem regular_array_iff :
    (Node.array status head template alternatives staged elements).Regular ↔
      Uniform status template alternatives staged elements ∧
        (template.Regular ∧ ∀ e ∈ alternatives, e.2.Regular) ∧
        (∀ e ∈ staged, e.Regular) ∧ ∀ e, some e ∈ elements → e.Regular :=
  forall_array_iff

/-- Whichever call it is, the template is the same one. -/
theorem Uniform.choose (h : Uniform status template alternatives staged elements) (call : Nat) :
    choose call alternatives template = template :=
  choose_of_forall h.repeats

/-- An array that is not stored may learn its plan. -/
theorem Uniform.unplaced (h : Uniform status template alternatives staged elements)
    (hstatus : status'.placement? = none) :
    Uniform status' template alternatives staged elements := by
  refine ⟨h.repeats, h.vacant, h.staged, ?_, ?_⟩
  · rintro plan p rfl
    cases hstatus
  · rintro plan p rfl
    cases hstatus

/-- An array stays regular when an element is what the template becomes at its place. -/
theorem regular_setElement {head' : ArrayHead} {k : Nat} {c : Node}
    (h : (Node.array status head template alternatives staged elements).Regular) (hc : c.Regular)
    (houtline : ∀ plan p, status = .allocated plan p →
      c.outline = (template.sample p.region (p.offset + k * plan.stride)).outline) :
    (Node.array status head' template alternatives staged (elements.set k (some c))).Regular := by
  obtain ⟨self, templates, built, children⟩ := regular_array_iff.1 h
  refine regular_array_iff.2 ⟨⟨self.repeats, self.vacant, self.staged, self.room, ?_⟩, templates,
    built, fun d hd => ?_⟩
  · intro plan p hstatus i d hd
    rw [List.getElem?_set] at hd
    -- either the element is the one just set, or it was there before
    by_cases hi : k = i
    · rw [if_pos hi] at hd
      split at hd
      · cases hd
        rw [← hi]
        exact houtline plan p hstatus
      · cases hd
    · rw [if_neg hi] at hd
      exact self.elements plan p hstatus i d hd
  · rcases List.mem_or_eq_of_mem_set hd with hd | hd
    · exact children d hd
    · cases hd
      exact hc

end array

/-- The weaker property, which is all that plans and facades depend on. -/
theorem Regular.repeats {n : Node} (h : n.Regular) : n.Repeats := by
  refine h.imp fun m hm => ?_
  cases m with
  | array => exact hm.repeats
  | leaf => trivial
  | record => trivial

/-- A sound structure whose arrays repeat one template each. -/
structure Tame (n : Node) : Prop where
  sound : n.Sound
  regular : n.Regular

section tame

variable {n : Node}

/-- The fields of a tame record are tame. -/
theorem Tame.field {status : Status RecordLayout} {head : RecordHead} {fields : List (Field Node)}
    (h : (Node.record status head fields).Tame) {f : Field Node} (hf : f ∈ fields) :
    f.child.Tame :=
  ⟨(sound_record_iff.1 h.sound).2 f hf, regular_record_iff.1 h.regular f hf⟩

variable {status : Status ArrayPlan} {head : ArrayHead} {template : Node}
  {alternatives : List (Nat × Node)} {staged : List Node} {elements : List (Option Node)}

/-- The template of a tame array is tame. -/
theorem Tame.default (h : (Node.array status head template alternatives staged elements).Tame) :
    template.Tame :=
  ⟨(sound_array_iff.1 h.sound).2.1.1, (regular_array_iff.1 h.regular).2.1.1⟩

/-- What a tame array built in advance is tame. -/
theorem Tame.built (h : (Node.array status head template alternatives staged elements).Tame)
    {e : Node} (he : e ∈ staged) : e.Tame :=
  ⟨(sound_array_iff.1 h.sound).2.2.1 e he, (regular_array_iff.1 h.regular).2.2.1 e he⟩

/-- The elements of a tame array are tame. -/
theorem Tame.element (h : (Node.array status head template alternatives staged elements).Tame)
    {e : Node} (he : some e ∈ elements) : e.Tame :=
  ⟨(sound_array_iff.1 h.sound).2.2.2 e he, (regular_array_iff.1 h.regular).2.2.2 e he⟩

/-- What an array without alternatives knows about itself. -/
theorem Tame.uniform (h : (Node.array status head template alternatives staged elements).Tame) :
    Uniform status template alternatives staged elements :=
  (regular_array_iff.1 h.regular).1

end tame

/-- Two structures that only differ in what their arrays have built. -/
structure Twin (n m : Node) : Prop where
  left : n.Tame
  right : m.Tame
  outline : n.outline = m.outline

section twin

variable {n m k : Node}

theorem Twin.refl (h : n.Tame) : Twin n n := ⟨h, h, rfl⟩

theorem Twin.symm (h : Twin n m) : Twin m n := ⟨h.right, h.left, h.outline.symm⟩

theorem Twin.trans (h : Twin n m) (h' : Twin m k) : Twin n k :=
  ⟨h.left, h'.right, h.outline.trans h'.outline⟩

/-- How far a structure is, and its shape, are in the outline. -/
theorem Twin.status (h : Twin n m) : n.status = m.status := status_eq_of_outline h.outline

/-- Twins take the same room. -/
theorem Twin.shape? (h : Twin n m) : n.shape? = m.shape? := shape?_eq_of_outline h.outline

/-- Fields with the same outlines are twins, one by one. -/
theorem lift_twin {fields fields' : List (Field Node)}
    (h : List.Forall₂ (Lift fun n m => n.outline = m.outline) fields fields')
    (hfields : ∀ f ∈ fields, f.child.Tame) (hfields' : ∀ g ∈ fields', g.child.Tame) :
    List.Forall₂ (Lift Twin) fields fields' := by
  induction h with
  | nil => exact .nil
  | cons hfg _ ih =>
    obtain ⟨hfirst, hrest⟩ := List.forall_mem_cons.1 hfields
    obtain ⟨hfirst', hrest'⟩ := List.forall_mem_cons.1 hfields'
    exact .cons (hfg.imp fun houtline => ⟨hfirst, hfirst', houtline⟩) (ih hrest hrest')

/-- The twin of a record is a record with twins as fields. -/
theorem Twin.record {status : Status RecordLayout} {head : RecordHead} {fields : List (Field Node)}
    (h : Twin (.record status head fields) m) :
    ∃ fields', m = .record status head fields' ∧ List.Forall₂ (Lift Twin) fields fields' := by
  obtain ⟨fields', rfl, hfields⟩ := outline_eq_record h.outline
  exact ⟨fields', rfl, lift_twin hfields (fun _ hf => h.left.field hf) fun _ hg => h.right.field hg⟩

/-- The twin of an array is an array with a twin as template. -/
theorem Twin.array {status : Status ArrayPlan} {head : ArrayHead} {template : Node}
    {alternatives : List (Nat × Node)} {staged : List Node} {elements : List (Option Node)}
    (h : Twin (.array status head template alternatives staged elements) m) :
    ∃ lazy calls counter template' alternatives' staged' elements',
      m = .array status ⟨head.length, lazy, calls, counter⟩ template' alternatives' staged' elements' ∧
        Twin template template' := by
  obtain ⟨lazy, calls, counter, template', alternatives', staged', elements', rfl, htemplate⟩ :=
    outline_eq_array h.outline
  exact ⟨lazy, calls, counter, template', alternatives', staged', elements', rfl, h.left.default,
    h.right.default, htemplate⟩

end twin

/-! ### Resolving -/

variable {n m : Node} {shared shared' : Shared}

/-- Which catalogs there are does not matter for a template. -/
theorem state_resolve (n : Node) (hshared : shared.Coherent) :
    (n.resolve shared).state = n.resolved :=
  (n.oblivious_resolve shared .empty hshared Shared.coherent_empty).state

/-- Resolving keeps a structure regular: an array that learns its plan has nothing stored yet. -/
theorem learns_regular : Learns Regular where
  leaf _ := .leaf trivial
  fields h := regular_record_iff.1 h
  record _ h := regular_record_iff.2 h
  -- what is stored is only spoken of for an array with a placement
  array _ hnone h := by
    obtain ⟨self, rest⟩ := regular_array_iff.1 h
    exact regular_array_iff.2 ⟨self.unplaced hnone, rest⟩

/-- Resolving stores nothing. -/
theorem learns_vacant : Learns Vacant where
  leaf _ := .leaf rfl
  fields h := by
    cases h with
    | record _ children => exact children
  record hnone h := .record hnone h
  array _ hnone _ := .array hnone

/-- A tame structure stays tame when it is resolved, with whatever catalogs there are. -/
theorem Tame.resolve (hn : n.Tame) (hshared : shared.Coherent) : (n.resolve shared).state.Tame :=
  ⟨(resolved_resolve hn.sound hshared).sound, learns_regular.resolve hn.regular hshared⟩

/-- A tame template stays tame once it is resolved. -/
theorem Tame.resolved (hn : n.Tame) : n.resolved.Tame := hn.resolve Shared.coherent_empty

/-- A template without storage has none after it is resolved. -/
theorem Vacant.resolved (hn : n.Vacant) : n.resolved.Vacant :=
  learns_vacant.resolve hn Shared.coherent_empty

/-- The plan of an array looks at its prototype, but only at what the outline shows: its facade and its
records. -/
theorem planArray_eq_of_outline {length : Nat} {element : Shape} (hn : n.Repeats) (hm : m.Repeats)
    (h : n.outline = m.outline) : planArray length element n = planArray length element m := by
  unfold planArray
  rw [facade_eq_of_outline hn hm h, records_eq_of_outline hn hm h]

/-- Outcomes with the same result and states of the same outline. -/
abbrev MatchesOutline {α : Type} (o o' : Outcome Node α) : Prop :=
  o.Matches Shared.Coherent (fun n m => n.outline = m.outline) o'

/-- A structure with a shape stays as it is. -/
theorem matchesOutline_of_shape? {s : Shape} (hs : n.shape? = some s) (h : n.outline = m.outline)
    (hshared : shared.Coherent) (hshared' : shared'.Coherent) :
    MatchesOutline (n.resolve shared) (m.resolve shared') := by
  rw [resolve_of_shape? hs, resolve_of_shape? ((shape?_eq_of_outline h).symm.trans hs)]
  exact ⟨hshared, hshared', h, rfl⟩

/-- Records of the same outline, if their fields resolve alike: the layout is computed from the same
shapes. -/
theorem matchesOutline_resolve_record (head : RecordHead) {fields fields' : List (Field Node)}
    (hfields : List.Forall₂ (Lift fun n m => n.outline = m.outline) fields fields')
    (hchild : ∀ f ∈ fields, ∀ g ∈ fields', f.child.outline = g.child.outline →
      ∀ shared shared' : Shared, shared.Coherent → shared'.Coherent →
        MatchesOutline (f.child.resolve shared) (g.child.resolve shared'))
    (hshared : shared.Coherent) (hshared' : shared'.Coherent) :
    MatchesOutline ((Node.record .unallocated head fields).resolve shared)
      ((Node.record .unallocated head fields').resolve shared') := by
  have hrun : (traverse (fun f shared => (f.child.resolve shared).mapState f.withChild) fields
      shared).Matches Shared.Coherent (List.Forall₂ (Lift fun n m => n.outline = m.outline))
        (traverse (fun f shared => (f.child.resolve shared).mapState f.withChild) fields'
          shared') := by
    -- the fields one after the other, each with the catalogs that the ones before it left
    refine traverse_matches hfields (fun f hf g hg hfg shared shared' hs hs' => ?_) hshared hshared'
    have hfirst := hchild f hf g hg hfg.child shared shared' hs hs'
    exact ⟨hfirst.left, hfirst.right, ⟨hfg.index, hfg.name, hfirst.state⟩, hfirst.result⟩
  rw [resolve_record, resolve_record]
  generalize traverse (fun f shared => (f.child.resolve shared).mapState f.withChild) fields
    shared = r at hrun ⊢
  generalize traverse (fun f shared => (f.child.resolve shared).mapState f.withChild) fields'
    shared' = r' at hrun ⊢
  have houtline : ∀ status, (Node.record status head r.state).outline =
      (Node.record status head r'.state).outline := fun _ => outline_record_eq hrun.state
  simp only [← hrun.result]
  cases r.result with
  | error fault => exact ⟨hrun.left, hrun.right, houtline _, rfl⟩
  | ok shapes =>
    -- coherent catalogs give the same layout, whatever they remember
    obtain ⟨hanswer, hafter⟩ := hrun.left.request_eq head.catalog
      ⟨head.typeName, head.abi, head.packed⟩ shapes
    obtain ⟨hanswer', hafter'⟩ := hrun.right.request_eq head.catalog
      ⟨head.typeName, head.abi, head.packed⟩ shapes
    simp only [hanswer, hanswer']
    split <;> exact ⟨hafter, hafter', houtline _, rfl⟩

section array

variable {head : ArrayHead} {lazy : Bool} {calls : Nat} {counter : Option String}
  {template template' : Node} {alternatives alternatives' : List (Nat × Node)}
  {staged staged' : List Node} {elements elements' : List (Option Node)}

/-- Arrays of the same outline, if their templates resolve alike: the prototype is the template in both,
however often either array called for it. -/
theorem matchesOutline_resolve_array
    (hn : (Node.array .unallocated head template alternatives staged elements).Tame)
    (hm : (Node.array .unallocated ⟨head.length, lazy, calls, counter⟩ template' alternatives' staged'
      elements').Tame)
    (htemplates : template.outline = template'.outline)
    (hfirst : ∀ shared shared' : Shared, shared.Coherent → shared'.Coherent →
      MatchesOutline (template.resolve shared) (template'.resolve shared'))
    (hshared : shared.Coherent) (hshared' : shared'.Coherent) :
    MatchesOutline
      ((Node.array .unallocated head template alternatives staged elements).resolve shared)
      ((Node.array .unallocated ⟨head.length, lazy, calls, counter⟩ template' alternatives' staged'
        elements').resolve shared') := by
  have houtline : ∀ (status : Status ArrayPlan) (here there : Nat),
      (Node.array status { head with calls := here } template alternatives staged
        elements).outline = (Node.array status ⟨head.length, lazy, there, counter⟩ template'
          alternatives' staged' elements').outline := by
    intro status here there
    simp only [Node.outline, htemplates]
  -- without a length no prototype is made at all
  by_cases hlength : head.length = 0
  · simp only [resolve, Status.plan?, if_pos hlength]
    exact ⟨hshared, hshared', houtline _ _ _, rfl⟩
  · have hcounted := hshared.count head.counter
    have hcounted' := hshared'.count counter
    replace hfirst := hfirst _ _ hcounted hcounted'
    have hrepeats := (hn.default.resolve hcounted).regular.repeats
    have hrepeats' := (hm.default.resolve hcounted').regular.repeats
    rw [resolve_array head _ _ _ _ _ hlength,
      resolve_array ⟨head.length, lazy, calls, counter⟩ _ _ _ _ _ hlength, hn.uniform.choose,
      hm.uniform.choose]
    generalize template.resolve (shared.count head.counter) = first at hfirst hrepeats ⊢
    generalize template'.resolve (shared'.count counter) = first' at hfirst hrepeats' ⊢
    simp only [← hfirst.result]
    cases first.result with
    | error fault => exact ⟨hfirst.left, hfirst.right, houtline _ _ _, rfl⟩
    | ok element =>
      simp only [← planArray_eq_of_outline hrepeats hrepeats' hfirst.state]
      split <;> exact ⟨hfirst.left, hfirst.right, houtline _ _ _, rfl⟩

end array

/-- Structures of the same outline resolve to the same result, and have the same outline afterwards. -/
theorem matchesOutline_resolve (hn : n.Tame) (hm : m.Tame) (h : n.outline = m.outline)
    (hshared : shared.Coherent) (hshared' : shared'.Coherent) :
    MatchesOutline (n.resolve shared) (m.resolve shared') := by
  -- on the first structure; the outline gives the second one the same constructor
  induction n.forall_true generalizing m shared shared' with
  | @leaf status kind =>
    obtain rfl := outline_eq_leaf h
    have hsame := (Node.leaf status kind).oblivious_resolve shared shared' hshared hshared'
    exact ⟨hsame.left, hsame.right, congrArg Node.outline hsame.state, hsame.result⟩
  | @record status head fields _ _ ih =>
    obtain ⟨fields', rfl, hfields⟩ := outline_eq_record h
    cases status with
    | unallocated =>
      exact matchesOutline_resolve_record head hfields (fun f hf g hg hfg _ _ hs hs' =>
        ih f hf (hn.field hf) (hm.field hg) hfg hs hs') hshared hshared'
    | allocatable layout => exact matchesOutline_of_shape? rfl h hshared hshared'
    | allocated layout p => exact matchesOutline_of_shape? rfl h hshared hshared'
  | @array status head template alternatives staged elements _ _ _ _ _ ih =>
    obtain ⟨lazy, calls, counter, template', alternatives', staged', elements', rfl, htemplates⟩ :=
      outline_eq_array h
    cases status with
    | unallocated =>
      exact matchesOutline_resolve_array hn hm htemplates (fun _ _ hs hs' =>
        ih hn.default hm.default htemplates hs hs') hshared hshared'
    | allocatable plan => exact matchesOutline_of_shape? rfl h hshared hshared'
    | allocated plan p => exact matchesOutline_of_shape? rfl h hshared hshared'

/-- Twins resolve to the same shape, and are twins afterwards. -/
theorem Twin.resolve (h : Twin n m) (hshared : shared.Coherent) (hshared' : shared'.Coherent) :
    (n.resolve shared).Matches Shared.Coherent Twin (m.resolve shared') := by
  have hmatch := matchesOutline_resolve h.left h.right h.outline hshared hshared'
  exact ⟨hmatch.left, hmatch.right, ⟨h.left.resolve hshared, h.right.resolve hshared', hmatch.state⟩,
    hmatch.result⟩

/-- Templates that are twins stay twins. -/
theorem Twin.resolved (h : Twin n m) : Twin n.resolved m.resolved :=
  (h.resolve Shared.coherent_empty Shared.coherent_empty).state

end NativeLayout.Node
