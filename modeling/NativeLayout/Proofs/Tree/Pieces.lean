import Mathlib.Logic.Relation
import NativeLayout.Proofs.Tree.Described
import NativeLayout.Proofs.Tree.Lasting

namespace NativeLayout

/-!
# What structures are made of

* `ArrayPlan.MadeWith` — the element that an array was planned with.
* `Node.Piece`, `Node.Inside` — the fields of a record; for an array the element that it was planned
  with, and those of its elements that count.
* `ArrayPlan.Repeats` — an element that says the same about itself as the one planned with.
* `Node.Known` — a sound structure that is resolved; so is everything inside it (`Known.inside`).
* `Node.Contains` — the definition and the layout of a record inside a structure.
* `Node.plain_of_inside` — inside a structure of plain leaves there are plain leaves.
-/

/-- What a template resolves to, if the plan of an array is made with that. -/
def ArrayPlan.MadeWith (plan : ArrayPlan) (length : Nat) (template p : Node) : Prop :=
  ∃ shared : Shared, shared.Coherent ∧ (template.resolve shared).result = .ok plan.element ∧
    (template.resolve shared).state = p ∧ Node.planArray length plan.element p = .ok plan

/-- An element that presents itself and is made of records like the one that the array was planned
with. -/
def ArrayPlan.Repeats (plan : ArrayPlan) (e : Node) : Prop :=
  e.facade = plan.facade ∧ e.records = .ok plan.records

/-- A plan that arises from a template was made with an element. -/
theorem ArrayPlan.ArisesFrom.exists_madeWith {plan : ArrayPlan} {length : Nat} {template : Node}
    (h : plan.ArisesFrom length template) : ∃ p, plan.MadeWith length template p := by
  obtain ⟨shared, hshared, hresult, hplanned⟩ := h
  exact ⟨_, shared, hshared, hresult, rfl, hplanned⟩

namespace Node

/-- A field of a record, the element that an array was planned with, or an element of the array if it
counts. -/
inductive Piece (counts : ArrayPlan → Node → Prop) : Node → Node → Prop where
  | field {status : Status RecordLayout} {head : RecordHead} {fields : List (Field Node)}
      {f : Field Node} (hf : f ∈ fields) : Piece counts (.record status head fields) f.child
  | first {status : Status ArrayPlan} {head : ArrayHead} {template : Node}
      {alternatives : List (Nat × Node)} {staged : List Node} {elements : List (Option Node)}
      {plan : ArrayPlan} {call : Nat} {p : Node} (hplan : status.plan? = some plan)
      (hfirst : plan.MadeWith head.length (choose call alternatives template) p) :
      Piece counts (.array status head template alternatives staged elements) p
  | element {status : Status ArrayPlan} {head : ArrayHead} {template : Node}
      {alternatives : List (Nat × Node)} {staged : List Node} {elements : List (Option Node)}
      {plan : ArrayPlan} {e : Node} (hplan : status.plan? = some plan) (he : some e ∈ elements)
      (hcounts : counts plan e) :
      Piece counts (.array status head template alternatives staged elements) e

/-- A structure with everything that is inside it. -/
abbrev Inside (counts : ArrayPlan → Node → Prop) : Node → Node → Prop :=
  Relation.ReflTransGen (Piece counts)

/-- The definition and the layout of a resolved record. -/
def record? : Node → Option (RecordDef × RecordLayout)
  | .record status head fields => status.plan?.map fun l => (definition head fields, l)
  | _ => none

/-- A record is inside the structure. -/
def Contains (counts : ArrayPlan → Node → Prop) (n : Node) (r : RecordDef × RecordLayout) : Prop :=
  ∃ m, Inside counts n m ∧ m.record? = some r

/-- A leaf that only its owner understands is inside the structure, and its type goes by this name. -/
def HasCustom (counts : ArrayPlan → Node → Prop) (n : Node) (name : String) : Prop :=
  ∃ status own wanted type, Inside counts n (.leaf status (.custom own wanted type)) ∧
    type.base = .named name

variable {counts : ArrayPlan → Node → Prop} {n m : Node} {r : RecordDef × RecordLayout}
  {name : String}

/-- A record inside a piece is inside the structure. -/
theorem Contains.of_piece (h : m.Contains counts r) (hnm : Piece counts n m) :
    n.Contains counts r := by
  obtain ⟨c, hmc, hc⟩ := h
  exact ⟨c, hmc.head hnm, hc⟩

/-- A leaf that only its owner understands is inside the structure if it is inside a piece. -/
theorem HasCustom.of_piece (h : m.HasCustom counts name) (hnm : Piece counts n m) :
    n.HasCustom counts name := by
  obtain ⟨status, own, wanted, type, hmc, hname⟩ := h
  exact ⟨status, own, wanted, type, hmc.head hnm, hname⟩

/-- A record inside a structure is the structure itself or inside one of its pieces. -/
theorem contains_iff : n.Contains counts r ↔
    n.record? = some r ∨ ∃ m, Piece counts n m ∧ m.Contains counts r := by
  constructor
  · intro ⟨c, hnc, hc⟩
    rcases hnc.cases_head with rfl | ⟨m, hnm, hmc⟩
    · exact .inl hc
    · exact .inr ⟨m, hnm, c, hmc, hc⟩
  · intro h
    rcases h with hn | ⟨m, hnm, hm⟩
    · exact ⟨n, .refl, hn⟩
    · exact hm.of_piece hnm

/-- A record with a layout tells its definition. -/
theorem record?_of_plan {status : Status RecordLayout} {head : RecordHead}
    {fields : List (Field Node)} {l : RecordLayout} (hplan : status.plan? = some l) :
    (Node.record status head fields).record? = some (definition head fields, l) := by
  rw [record?, hplan, Option.map_some]

/-- As a member of another one, a record is known by its name. -/
theorem facade_of_record? (h : n.record? = some r) : n.facade.memberType = .named r.1.name := by
  cases n with
  | leaf => cases h
  | record status head fields =>
    obtain ⟨l, -, rfl⟩ := Option.map_eq_some_iff.1 h
    rfl
  | array => cases h

/-! ### Resolved structures -/

/-- A sound structure that has a shape. -/
structure Known (n : Node) : Prop where
  sound : n.Sound
  shape : n.shape?.isSome

/-- A structure that resolved is known from then on. -/
theorem known_of_resolve {shared : Shared} {s : Shape} (hn : n.Sound) (hshared : shared.Coherent)
    (h : (n.resolve shared).result = .ok s) : (n.resolve shared).state.Known := by
  have hresolved := resolved_resolve hn hshared
  refine ⟨hresolved.sound, ?_⟩
  rw [hresolved.ok s h]
  rfl

/-- A known record has a layout. -/
theorem Known.plan_record {status : Status RecordLayout} {head : RecordHead}
    {fields : List (Field Node)} (h : (Node.record status head fields).Known) :
    ∃ l, status.plan? = some l := by
  obtain ⟨s, hs⟩ := Option.isSome_iff_exists.1 h.shape
  obtain ⟨l, hl, -⟩ := shape?_record_eq_some_iff.1 hs
  exact ⟨l, hl⟩

/-- The fields of a known record are known, since its layout was made of their shapes. -/
theorem Known.fields {status : Status RecordLayout} {head : RecordHead} {fields : List (Field Node)}
    (h : (Node.record status head fields).Known) {f : Field Node} (hf : f ∈ fields) :
    f.child.Known := by
  obtain ⟨self, children⟩ := sound_record_iff.1 h.sound
  obtain ⟨l, hl⟩ := h.plan_record
  exact ⟨children f hf, self.isSome_shape? (Option.isSome_of_eq_some hl) hf⟩

/-- Whatever an array was planned with is resolved, and not deeper than the templates. -/
theorem known_of_madeWith {plan : ArrayPlan} {length : Nat} {template p : Node}
    (htemplate : template.Sound) (h : plan.MadeWith length template p) :
    p.Known ∧ p.depth ≤ template.depth := by
  obtain ⟨shared, hshared, hresult, rfl, -⟩ := h
  exact ⟨known_of_resolve htemplate hshared hresult, (resolved_resolve htemplate hshared).depth_le⟩

/-- The pieces of a resolved structure are resolved. -/
theorem Known.piece (h : n.Known) (hnm : Piece counts n m) : m.Known := by
  cases hnm with
  | field hf => exact h.fields hf
  | first _ hfirst =>
    obtain ⟨-, ⟨htemplate, hothers⟩, -, -⟩ := sound_array_iff.1 h.sound
    exact (known_of_madeWith (choose_induction (P := Sound) htemplate hothers) hfirst).1
  | @element status _ _ _ _ _ _ _ hplan he =>
    obtain ⟨self, -, -, children⟩ := sound_array_iff.1 h.sound
    obtain ⟨i, hi⟩ := List.getElem?_of_mem he
    cases status with
    | unallocated => cases hplan
    -- before it is stored an array has no elements
    | allocatable =>
      rw [self.unplaced rfl] at he
      cases he
    | allocated plan p =>
      obtain ⟨-, hplaced⟩ := self.placed plan p rfl
      obtain ⟨hs, -⟩ := hplaced i m hi
      refine ⟨children m he, ?_⟩
      rw [hs]
      rfl

/-- Everything inside a known structure is known. -/
theorem Known.inside (h : n.Known) (hnm : Inside counts n m) : m.Known := by
  induction hnm with
  | refl => exact h
  | tail _ hpiece ih => exact ih.piece hpiece

/-! ### Plain leaves -/

/-- Resolving does not replace any leaf, so plain ones are left plain. -/
theorem learns_plain : Learns (Forall Plain) where
  leaf h := .leaf h.self_of
  fields h := (forall_record_iff.1 h).2
  record _ h := .record trivial h
  array _ _ h := by
    obtain ⟨-, ⟨default, others⟩, built, children⟩ := forall_array_iff.1 h
    exact .array trivial default others built children

/-- A structure of plain leaves has no others inside it. -/
theorem plain_of_inside (h : n.Forall Plain) (hnm : Inside counts n m) : m.Forall Plain := by
  induction hnm with
  | refl => exact h
  | tail _ hpiece ih =>
    cases hpiece with
    | field hf => exact (forall_record_iff.1 ih).2 _ hf
    | first _ hfirst =>
      obtain ⟨-, ⟨default, others⟩, -, -⟩ := forall_array_iff.1 ih
      obtain ⟨shared, hshared, -, rfl, -⟩ := hfirst
      exact learns_plain.resolve (choose_induction default others) hshared
    | element _ he =>
      obtain ⟨-, -, -, children⟩ := forall_array_iff.1 ih
      exact children _ he

/-- A structure of plain leaves has no leaf with a type of its own. -/
theorem not_hasCustom_of_plain (h : n.Forall Plain) : ¬ n.HasCustom counts name := by
  intro ⟨_, _, _, _, hinside, _⟩
  exact (plain_of_inside h hinside).self_of

end Node

end NativeLayout
