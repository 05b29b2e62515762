import NativeLayout.Node.Basic
import NativeLayout.Node.Outcome

namespace NativeLayout.Node

/-!
# Structures as trees

* `child?`, `at?` — the structure at the end of a route, fields by rank and elements by index.
* `shape?_record_eq_some_iff`, `shape?_array_eq_some_iff` — a structure has the shape that its layout
  or its plan has.
* `child?_setField`, `child?_setElement` — the children once one of them is another.
* `Forall` — a property of every structure in a tree, with templates and staged elements.
* `depth_record_le_iff`, `depth_array_le_iff` — how deep a tree is, by its parts.
-/

/-- The field of a record at a rank, or the element of an array at an index. -/
def child? (k : Nat) : Node → Option Node
  | .leaf .. => none
  | .record _ _ fields => (fields[k]?).map Field.child
  | .array _ _ _ _ _ elements => (elements[k]?).join

/-- The structure at the end of a route. -/
def at? : List Nat → Node → Option Node
  | [], n => some n
  | k :: route, n => (n.child? k).bind (at? route)

@[simp] theorem at?_nil (n : Node) : n.at? [] = some n := rfl

/-- A route leads to a child first. -/
theorem at?_cons (k : Nat) (route : List Nat) (n : Node) :
    n.at? (k :: route) = (n.child? k).bind (at? route) := rfl

/-- A record has a shape once it has a layout, and it is the shape of the layout. -/
theorem shape?_record_eq_some_iff {status : Status RecordLayout} {head : RecordHead}
    {fields : List (Field Node)} {s : Shape} :
    (Node.record status head fields).shape? = some s ↔
      ∃ l, status.plan? = some l ∧ l.shape = s := by
  rw [shape?, Node.status, Status.plan?_map]
  exact Option.map_eq_some_iff

/-- An array has a shape once it has a plan, and it is the shape of the plan. -/
theorem shape?_array_eq_some_iff {status : Status ArrayPlan} {head : ArrayHead} {template : Node}
    {alternatives : List (Nat × Node)} {staged : List Node} {elements : List (Option Node)}
    {s : Shape} :
    (Node.array status head template alternatives staged elements).shape? = some s ↔
      ∃ plan, status.plan? = some plan ∧ plan.shape = s := by
  rw [shape?, Node.status, Status.plan?_map]
  exact Option.map_eq_some_iff

/-- A property of every structure in a tree. -/
inductive Forall (P : Node → Prop) : Node → Prop where
  | leaf {status : Status Shape} {kind : Leaf} (self : P (.leaf status kind)) :
      Forall P (.leaf status kind)
  | record {status : Status RecordLayout} {head : RecordHead} {fields : List (Field Node)}
      (self : P (.record status head fields)) (children : ∀ f ∈ fields, Forall P f.child) :
      Forall P (.record status head fields)
  | array {status : Status ArrayPlan} {head : ArrayHead} {template : Node}
      {alternatives : List (Nat × Node)} {staged : List Node} {elements : List (Option Node)}
      (self : P (.array status head template alternatives staged elements))
      (default : Forall P template) (others : ∀ e ∈ alternatives, Forall P e.2)
      (built : ∀ e ∈ staged, Forall P e) (children : ∀ e, some e ∈ elements → Forall P e) :
      Forall P (.array status head template alternatives staged elements)

variable {P : Node → Prop} {n m : Node} {k : Nat} {route : List Nat}

/-- What holds of every structure of a tree holds of the tree itself. -/
theorem Forall.self_of (h : n.Forall P) : P n := by
  cases h with
  | leaf self => exact self
  | record self => exact self
  | array self => exact self

/-- A child has the property in all its parts, too. -/
theorem Forall.child (h : n.Forall P) (hm : n.child? k = some m) : m.Forall P := by
  cases h with
  | leaf => cases hm
  | record _ children =>
    obtain ⟨f, hf, rfl⟩ := Option.map_eq_some_iff.1 hm
    exact children f (List.mem_of_getElem? hf)
  | array _ _ _ _ children =>
    exact children m (List.mem_of_getElem? (Option.join_eq_some_iff.1 hm))

/-- So has everything that a route leads to. -/
theorem Forall.at (h : n.Forall P) (hm : n.at? route = some m) : m.Forall P := by
  -- on the route, one child after the other
  induction route generalizing n with
  | nil => cases hm; exact h
  | cons k route ih =>
    obtain ⟨c, hc, hm⟩ := Option.bind_eq_some_iff.1 hm
    exact ih (h.child hc) hm

/-- A weaker property of every structure. -/
theorem Forall.imp {Q : Node → Prop} (himp : ∀ m, P m → Q m) (h : n.Forall P) : n.Forall Q := by
  induction h with
  | leaf self => exact .leaf (himp _ self)
  | record self _ ih => exact .record (himp _ self) ih
  | array self _ _ _ _ default others built children =>
    exact .array (himp _ self) default others built children

/-- The property of a record, taken apart into the record and its fields. -/
theorem forall_record_iff {status : Status RecordLayout} {head : RecordHead}
    {fields : List (Field Node)} :
    (Node.record status head fields).Forall P ↔
      P (.record status head fields) ∧ ∀ f ∈ fields, f.child.Forall P := by
  constructor
  · rintro (_ | ⟨self, children⟩)
    exact ⟨self, children⟩
  · rintro ⟨self, children⟩
    exact .record self children

/-- The property of an array, taken apart into the array, its templates, what it built in advance and its
elements. -/
theorem forall_array_iff {status : Status ArrayPlan} {head : ArrayHead} {template : Node}
    {alternatives : List (Nat × Node)} {staged : List Node} {elements : List (Option Node)} :
    (Node.array status head template alternatives staged elements).Forall P ↔
      P (.array status head template alternatives staged elements) ∧
        (template.Forall P ∧ ∀ e ∈ alternatives, e.2.Forall P) ∧
        (∀ e ∈ staged, e.Forall P) ∧ ∀ e, some e ∈ elements → e.Forall P := by
  constructor
  · rintro (_ | _ | ⟨self, default, others, built, children⟩)
    exact ⟨self, ⟨default, others⟩, built, children⟩
  · rintro ⟨self, ⟨default, others⟩, built, children⟩
    exact .array self default others built children

/-! ### One child changed -/

/-- A record with a field exchanged has that field at its rank and the others where they were. -/
theorem child?_setField {status : Status RecordLayout} {head : RecordHead}
    {fields : List (Field Node)} {f : Field Node} {c : Node} (hf : fields[k]? = some f) (j : Nat) :
    (Node.record status head (fields.set k (f.withChild c))).child? j =
      if k = j then some c else (Node.record status head fields).child? j := by
  obtain ⟨hk, -⟩ := List.getElem?_eq_some_iff.1 hf
  rw [child?, child?, List.getElem?_set]
  by_cases hkj : k = j
  · rw [if_pos hkj, if_pos hkj, if_pos hk]
    rfl
  · rw [if_neg hkj, if_neg hkj]

/-- An array with an element exchanged has that element at its index and the others where they were. -/
theorem child?_setElement {status : Status ArrayPlan} {head : ArrayHead} {template : Node}
    {alternatives : List (Nat × Node)} {staged : List Node} {elements : List (Option Node)}
    {e e' : Node} (he : elements[k]? = some (some e)) (j : Nat) :
    (Node.array status head template alternatives staged (elements.set k (some e'))).child? j =
      if k = j then some e'
      else (Node.array status head template alternatives staged elements).child? j := by
  obtain ⟨hk, -⟩ := List.getElem?_eq_some_iff.1 he
  rw [child?, child?, List.getElem?_set]
  by_cases hkj : k = j
  · rw [if_pos hkj, if_pos hkj, if_pos hk]
    rfl
  · rw [if_neg hkj, if_neg hkj]

/-! ### Depth -/

variable {status : Status RecordLayout} {head : RecordHead} {fields : List (Field Node)}

/-- The depth of some fields is bounded by a bound on each. -/
theorem depthFields_le_iff {d : Nat} :
    depthFields fields ≤ d ↔ ∀ f ∈ fields, f.child.depth ≤ d := by
  induction fields with
  | nil => simp [depthFields]
  | cons f rest ih =>
    obtain ⟨_, _, child⟩ := f
    simp only [depthFields, Nat.max_le, ih, List.mem_cons, forall_eq_or_imp]

/-- The same for the alternatives of an array. -/
theorem depthAlternatives_le_iff {alternatives : List (Nat × Node)} {d : Nat} :
    depthAlternatives alternatives ≤ d ↔ ∀ e ∈ alternatives, e.2.depth ≤ d := by
  induction alternatives with
  | nil => simp [depthAlternatives]
  | cons e rest ih =>
    obtain ⟨_, n⟩ := e
    simp only [depthAlternatives, Nat.max_le, ih, List.mem_cons, forall_eq_or_imp]

/-- The same for the elements that were built in advance. -/
theorem depthList_le_iff {nodes : List Node} {d : Nat} :
    depthList nodes ≤ d ↔ ∀ n ∈ nodes, n.depth ≤ d := by
  induction nodes with
  | nil => simp [depthList]
  | cons n rest ih => simp only [depthList, Nat.max_le, ih, List.mem_cons, forall_eq_or_imp]

/-- The same for the elements of an array, where an index without one does not count. -/
theorem depthOptions_le_iff {nodes : List (Option Node)} {d : Nat} :
    depthOptions nodes ≤ d ↔ ∀ n, some n ∈ nodes → n.depth ≤ d := by
  induction nodes with
  | nil => simp [depthOptions]
  | cons n rest ih =>
    cases n with
    | none => simp [depthOptions, ih]
    | some n =>
      simp only [depthOptions, Nat.max_le, ih, List.mem_cons, Option.some.injEq, forall_eq_or_imp]

/-- A record is one deeper than its deepest field. -/
theorem depth_record_le_iff {d : Nat} :
    (Node.record status head fields).depth ≤ d + 1 ↔ ∀ f ∈ fields, f.child.depth ≤ d := by
  rw [depth, Nat.add_comm, Nat.add_le_add_iff_right, depthFields_le_iff]

/-- An array is one deeper than the deepest of its templates and of what it holds. -/
theorem depth_array_le_iff {status : Status ArrayPlan} {head : ArrayHead} {template : Node}
    {alternatives : List (Nat × Node)} {staged : List Node} {elements : List (Option Node)}
    {d : Nat} :
    (Node.array status head template alternatives staged elements).depth ≤ d + 1 ↔
      (template.depth ≤ d ∧ ∀ e ∈ alternatives, e.2.depth ≤ d) ∧
        (∀ e ∈ staged, e.depth ≤ d) ∧ ∀ e, some e ∈ elements → e.depth ≤ d := by
  rw [depth, Nat.add_comm, Nat.add_le_add_iff_right]
  simp only [Nat.max_le, depthAlternatives_le_iff, depthList_le_iff, depthOptions_le_iff]

/-- Even a leaf has a depth, so a step into a structure always uses up fuel. -/
theorem depth_pos (n : Node) : 0 < n.depth := by
  cases n <;> simp only [depth] <;> omega

end NativeLayout.Node

namespace NativeLayout

/-- What an array builds has every property that its templates have. -/
theorem choose_induction {α : Type} {P : α → Prop} {call : Nat} {alternatives : List (Nat × α)}
    {default : α} (hdefault : P default) (hothers : ∀ e ∈ alternatives, P e.2) :
    P (choose call alternatives default) := by
  unfold choose
  split
  next e he => exact hothers e (List.mem_of_find?_eq_some he)
  next => exact hdefault

end NativeLayout
