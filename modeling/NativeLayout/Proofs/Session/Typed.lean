import NativeLayout.Proofs.Lazy.Questions
import NativeLayout.Proofs.Session.World
import NativeLayout.Proofs.Tree.Typed

namespace NativeLayout

/-!
# Records in memory and records on paper

* `Node.askedTimes` — the fields of a record that was asked for its definition some number of times.
* `World.Reachable.lays_as_typed` — a record of scalars, texts, enumerations, pointers and arrays of
  these gets exactly the layout that its definition has on paper, and each of its fields exactly the
  shape of its type, however often they were asked before.
-/

open Node

namespace Node

/-- The fields after the record was asked for its definition some number of times. -/
def askedTimes : Nat → List (Field Node) → Shared → List (Field Node) × Shared
  | 0, fields, shared => (fields, shared)
  | asks + 1, fields, shared =>
    let once := askFields fields shared
    askedTimes asks once.1 once.2

variable {status : Status RecordLayout} {head : RecordHead} {fields : List (Field Node)}
  {shared : Shared}

/-- Asking does not change the types of fields whose elements are of one type. -/
theorem definition_askFields (hone : ∀ f ∈ fields, f.child.OneType) (hshared : shared.Coherent) :
    definition head (askFields fields shared).1 = definition head fields := by
  obtain ⟨hfields, -⟩ := askFields_eq fields hshared
  simp only [definition, hfields, List.map_map, RecordDef.mk.injEq, true_and]
  exact List.map_congr_left fun f hf =>
    congrArg (Member.mk f.name) (memberType_asked (hone f hf))

/-- A record of structures without records, asked any number of times: it is laid out as its
definition says, and its fields are of the shapes of their types. -/
theorem lays_askedTimes (asks : Nat) (hn : (Node.record status head fields).Sound)
    (hsimple : ∀ f ∈ fields, f.child.Forall Simple) (hshared : shared.Coherent) :
    let asked := askedTimes asks fields shared
    (∀ l, (Node.record status head asked.1).Lays asked.2 l ↔ ∃ shapes,
      Shaped (definition head asked.1) shapes ∧
        head.abi.layout head.packed RecordLayout.anonymous shapes = .ok l) ∧
    (∀ f ∈ asked.1, ∀ s, (f.child.resolve asked.2).result = .ok s ↔
      Command.shapeOfType f.child.facade.memberType = .ok s) ∧
    ((∀ f ∈ fields, f.child.OneType) → definition head asked.1 = definition head fields) := by
  induction asks generalizing fields shared with
  | zero =>
    have htyped : ∀ f ∈ fields, f.child.Typed := fun f hf =>
      typed_of_sound ((sound_record_iff.1 hn).2 f hf) (hsimple f hf)
    exact ⟨fun l => Node.lays_iff hn htyped hshared, fun f hf => htyped f hf shared hshared,
      fun _ => rfl⟩
  | succ asks ih =>
    -- one question more, and then the others
    obtain ⟨hfields, hafter⟩ := askFields_eq fields hshared
    have hmem : ∀ g ∈ (askFields fields shared).1, ∃ f ∈ fields, f.withChild f.child.asked = g := by
      rw [hfields]
      exact fun g => List.mem_map.1
    have hsound : (Node.record status head (askFields fields shared).1).Sound :=
      (Visit.safe_record _ ⟨.startingAt 0, shared⟩ hn hshared).sound
    -- what was asked for has no records in it, as before
    have hparts : ∀ g ∈ (askFields fields shared).1, g.child.Forall Simple := by
      intro g hg
      obtain ⟨f, hf, rfl⟩ := hmem g hg
      exact forall_simple_asked (hsimple f hf)
    obtain ⟨hlays, hshapes, hdefinition⟩ := ih hsound hparts hafter
    refine ⟨hlays, hshapes, fun hone => ?_⟩
    rw [← definition_askFields hone hshared]
    apply hdefinition
    intro g hg
    obtain ⟨f, hf, rfl⟩ := hmem g hg
    exact (hone f hf).asked

end Node

namespace World

variable {w : World} {n : Node} {route : List Nat} {status : Status RecordLayout} {head : RecordHead}
  {fields : List (Field Node)}

/-- A record of scalars, texts, enumerations, pointers and arrays of these, whose fields were asked for
their types any number of times.  It gets a layout exactly if every type in its definition has a
shape on the command line and these shapes have that layout together, and each field alone gets
exactly the shape of its type.  Asking does not change the definition where every array builds
elements of one type. -/
theorem Reachable.lays_as_typed (h : w.Reachable) (hn : n ∈ w.trees)
    (hm : n.at? route = some (.record status head fields))
    (hsimple : ∀ f ∈ fields, f.child.Forall Simple) (asks : Nat) :
    let asked := askedTimes asks fields w.store.shared
    (∀ l, (Node.record status head asked.1).Lays asked.2 l ↔ ∃ shapes,
      Shaped (definition head asked.1) shapes ∧
        head.abi.layout head.packed RecordLayout.anonymous shapes = .ok l) ∧
    (∀ f ∈ asked.1, ∀ s, (f.child.resolve asked.2).result = .ok s ↔
      Command.shapeOfType f.child.facade.memberType = .ok s) ∧
    ((∀ f ∈ fields, f.child.OneType) → definition head asked.1 = definition head fields) :=
  lays_askedTimes asks ((h.sound.trees n hn).at hm) hsimple h.sound.coherent

/-- Two rows of three numbers. -/
def grid : Node := .newArray 2 false none (.newArray 3 false none (.ofLeaf (.scalars .u16 1)) []) []

/-- A byte in front of the rows. -/
def tagged : List (Field Node) := [⟨0, "tag", .ofLeaf (.scalars .u8 1)⟩, ⟨1, "cells", grid⟩]

/-- The grid with its tag is a record of a reachable world. -/
theorem exists_tagged : ∃ w : World, w.Reachable ∧
    .record .unallocated ⟨"Grid", .msvcX64, false, 0⟩ tagged ∈ w.trees := by
  have byte := (Reachable.start 0).leaf (.scalars .u8 1)
  have number := byte.leaf (.scalars .u16 1)
  have row := number.uniform 3 false 1 rfl
  have rows := row.uniform 2 false 2 rfl
  have record := rows.record ⟨"Grid", .msvcX64, false, 0⟩
  have first := record.field 4 0 "tag" rfl
  have both := first.field 4 3 "cells" rfl
  exact ⟨_, both, List.mem_of_getElem? (i := 4) rfl⟩

theorem simple_tagged : ∀ f ∈ tagged, f.child.Forall Simple := by
  have hrow : (newArray 3 false none (.ofLeaf (.scalars .u16 1)) []).Forall Simple :=
    .array trivial (.leaf trivial) (by simp) (by simp) (by simp)
  have hgrid : grid.Forall Simple := .array trivial hrow (by simp) (by simp) (by simp)
  exact List.forall_mem_cons.2 ⟨.leaf trivial, List.forall_mem_singleton.2 hgrid⟩

theorem oneType_tagged : ∀ f ∈ tagged, f.child.OneType :=
  List.forall_mem_cons.2 ⟨trivial, List.forall_mem_singleton.2 (List.forall_mem_nil _)⟩

/-- On paper the byte and the two rows have shapes, and these have a layout; so, asked twice for its
definition, the record gets that layout. -/
theorem Reachable.lays_as_typed_grid : ∃ w : World, w.Reachable ∧
    .record .unallocated ⟨"Grid", .msvcX64, false, 0⟩ tagged ∈ w.trees ∧
    (∀ f ∈ tagged, f.child.Forall Simple) ∧ (∀ f ∈ tagged, f.child.OneType) ∧
    (Node.record .unallocated ⟨"Grid", .msvcX64, false, 0⟩
      (askedTimes 2 tagged w.store.shared).1).Lays (askedTimes 2 tagged w.store.shared).2
        ⟨⟨2, false, 0, 14, 0⟩, [0, 2], [0, 1]⟩ := by
  obtain ⟨w, hw, hn⟩ := exists_tagged
  obtain ⟨hlays, -, hdefinition⟩ := hw.lays_as_typed hn (at?_nil _) simple_tagged 2
  refine ⟨w, hw, hn, simple_tagged, oneType_tagged, (hlays _).2 ?_⟩
  rw [hdefinition oneType_tagged]
  refine ⟨[⟨1, false, 0, 1, 0⟩, ⟨2, false, 0, 12, 0⟩], ?_, by decide⟩
  exact .cons (by decide) (.cons (by decide) .nil)

end World

end NativeLayout
