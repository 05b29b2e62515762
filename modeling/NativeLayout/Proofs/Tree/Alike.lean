import NativeLayout.Proofs.Tree.Sound

namespace NativeLayout.Node

/-!
# Structures that look alike

* `Alike` — two trees have the same structures in the same places, with the same stages, shapes and
  placements; they may differ in what an array has built in advance and in how often it built.
* `Alike.of_children`, `Alike.child` — trees look alike if they do at the top and in each part.
* `alike_setField_iff`, `alike_setElement_iff` — another child, alike exactly if the child is.
-/

/-- The same status at the end of every route. -/
def Alike (n m : Node) : Prop := ∀ route, (n.at? route).map status = (m.at? route).map status

variable {n m : Node}

@[refl] theorem Alike.refl (n : Node) : Alike n n := fun _ => rfl

theorem Alike.symm (h : Alike n m) : Alike m n := fun route => (h route).symm

theorem Alike.trans {a b c : Node} (hab : Alike a b) (hbc : Alike b c) : Alike a c :=
  fun route => (hab route).trans (hbc route)

/-- Structures that look alike are equally far. -/
theorem Alike.status (h : Alike n m) : n.status = m.status := by
  simpa using h []

/-- It is enough to compare the structure itself and, one level down, its children. -/
theorem Alike.of_children (hstatus : n.status = m.status)
    (hchild : ∀ k, Option.Rel Alike (n.child? k) (m.child? k)) : Alike n m := by
  intro route
  cases route with
  | nil => simp [hstatus]
  | cons k route =>
    rw [at?_cons, at?_cons]
    have hk := hchild k
    -- both children exist and look alike, or neither exists
    revert hk
    generalize n.child? k = c
    generalize m.child? k = c'
    rintro (h | _)
    · exact h route
    · rfl

/-- Children of structures that look alike look alike. -/
theorem Alike.child {k : Nat} {c : Node} (h : Alike n m) (hc : n.child? k = some c) :
    ∃ c', m.child? k = some c' ∧ Alike c c' := by
  have hat := h [k]
  rw [at?_cons, at?_cons, hc] at hat
  obtain ⟨c', hc'⟩ : ∃ c', m.child? k = some c' := by
    cases hm : m.child? k with
    | none => simp [hm] at hat
    | some c' => exact ⟨c', rfl⟩
  refine ⟨c', hc', fun route => ?_⟩
  have hroute := h (k :: route)
  rwa [at?_cons, at?_cons, hc, hc'] at hroute

/-- Records with fields that look alike. -/
theorem alike_record {status : Status RecordLayout} {head : RecordHead}
    {fields fields' : List (Field Node)} (h : List.Forall₂ (Lift Alike) fields fields') :
    Alike (.record status head fields) (.record status head fields') := by
  refine .of_children rfl fun k => ?_
  simp only [child?]
  induction h generalizing k with
  | nil => exact .none
  | cons hfg _ ih =>
    cases k with
    | zero => exact .some hfg.child
    | succ k => exact ih k

/-- Arrays that differ only in what they built in advance and in how often they built. -/
theorem alike_array {status : Status ArrayPlan} {head head' : ArrayHead} {template : Node}
    {alternatives : List (Nat × Node)} {staged staged' : List Node}
    {elements : List (Option Node)} :
    Alike (.array status head template alternatives staged elements)
      (.array status head' template alternatives staged' elements) := by
  refine .of_children rfl fun k => ?_
  simp only [child?]
  cases (elements[k]?).join with
  | none => exact .none
  | some e => exact .some (.refl e)

/-! ### One child changed -/

/-- A record looks alike with another child exactly if the child does. -/
theorem alike_setField_iff {status : Status RecordLayout} {head : RecordHead}
    {fields : List (Field Node)} {k : Nat} {f : Field Node} {c : Node} (hf : fields[k]? = some f) :
    Alike (.record status head fields) (.record status head (fields.set k (f.withChild c))) ↔
      Alike f.child c := by
  have hchild : (Node.record status head fields).child? k = some f.child := by
    rw [child?, hf]
    rfl
  constructor
  · intro h
    obtain ⟨c', hc', halike⟩ := h.child hchild
    rw [child?_setField hf, if_pos rfl] at hc'
    cases hc'
    exact halike
  · intro h
    exact alike_record (forall₂_set (fun _ _ => ⟨rfl, rfl, .refl _⟩) hf (.withChild h))

/-- An array looks alike with another element exactly if the element does. -/
theorem alike_setElement_iff {status : Status ArrayPlan} {head : ArrayHead} {template : Node}
    {alternatives : List (Nat × Node)} {staged : List Node} {elements : List (Option Node)}
    {k : Nat} {e e' : Node} (he : elements[k]? = some (some e)) :
    Alike (.array status head template alternatives staged elements)
        (.array status head template alternatives staged (elements.set k (some e'))) ↔
      Alike e e' := by
  have hchild : (Node.array status head template alternatives staged elements).child? k =
      some e := by
    rw [child?, he]
    rfl
  constructor
  · intro h
    obtain ⟨c', hc', halike⟩ := h.child hchild
    rw [child?_setElement he, if_pos rfl] at hc'
    cases hc'
    exact halike
  · intro h
    refine .of_children rfl fun j => ?_
    rw [child?_setElement he]
    by_cases hjk : k = j
    · subst hjk
      rw [hchild, if_pos rfl]
      exact .some h
    · -- all other children are the same
      rw [if_neg hjk]
      cases (Node.array status head template alternatives staged elements).child? j with
      | none => exact .none
      | some e => exact .some (.refl e)

end NativeLayout.Node
