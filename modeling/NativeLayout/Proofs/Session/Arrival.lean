import NativeLayout.Proofs.Session.Safe
import NativeLayout.Proofs.Session.Route

namespace NativeLayout

/-!
# Operations on the contents of structures

* `Visit.Steady` — an operation that does not change the structure, and changes nothing at all if it
  fails.
* `Node.Grows` — a tree that has all leaves of another one, each at the same route.
* `Visit.Arrives`, `Visit.arrives_along` — on its way along some steps such an operation makes
  elements, and then does to the structure at their end what it does on its own.
-/

open Node

variable {α β : Type}

namespace Visit

/-- An operation that does not change the structure, and changes nothing at all if it fails. -/
structure Steady (v : Visit α) : Prop where
  node : ∀ n store, (v n store).node = n
  shared : ∀ n store, (v n store).store.shared = store.shared
  failed : ∀ n store e, (v n store).result = .error e → (v n store).store = store

/-- A question changes nothing. -/
theorem steady_read (f : Node → Store → Except SessionError α) : (read f).Steady :=
  ⟨fun _ _ => rfl, fun _ _ => rfl, fun _ _ _ _ => rfl⟩

/-- A write that fails changes nothing, and a write never changes the structure. -/
theorem steady_write (f : Node → Heap → Except SessionError Heap) : (write f).Steady := by
  constructor
  · intro n store
    unfold write
    split <;> rfl
  · intro n store
    unfold write
    split <;> rfl
  · intro n store e
    unfold write
    split
    next =>
      intro h
      cases h
    next => exact fun _ => rfl

/-- The answer may be put another way. -/
theorem Steady.answering {v : Visit α} (hv : v.Steady) (data : α → β) :
    (v.bind fun a => read fun _ _ => .ok (data a)).Steady := by
  constructor
  · intro n store
    unfold Visit.bind
    simp only
    split <;> exact hv.node n store
  · intro n store
    unfold Visit.bind
    simp only
    split <;> exact hv.shared n store
  · intro n store e
    unfold Visit.bind
    simp only
    split
    next =>
      intro h
      cases h
    next e hresult => exact fun _ => hv.failed n store e hresult

/-- What does not change the structure is safe. -/
theorem Steady.safe {v : Visit α} (hv : v.Steady) : v.Safe := by
  intro n store hn hstore
  refine ⟨?_, ?_, ?_⟩
  · rwa [hv.shared]
  · rwa [hv.node]
  · rw [hv.node]

end Visit

/-! ### More elements, the same leaves -/

namespace Node

/-- Every leaf stays at its route. -/
def Grows (n m : Node) : Prop :=
  ∀ (route : List Nat) (status : Status Shape) (kind : Leaf),
    n.at? route = some (.leaf status kind) → m.at? route = some (.leaf status kind)

@[refl] theorem Grows.refl (n : Node) : Grows n n := fun _ _ _ h => h

/-- Leaves stay at their routes through both steps. -/
theorem Grows.trans {a b c : Node} (hab : Grows a b) (hbc : Grows b c) : Grows a c :=
  fun route status kind h => hbc route status kind (hab route status kind h)

/-- It is enough to look at the children of a structure that is no leaf. -/
theorem Grows.of_children {n m : Node} (hn : ∀ status kind, n ≠ .leaf status kind)
    (h : ∀ k c, n.child? k = some c → ∃ c', m.child? k = some c' ∧ Grows c c') : Grows n m := by
  intro route status kind hleaf
  -- the structure itself is no leaf, so a leaf is below one of its children
  cases route with
  | nil => exact absurd (Option.some.inj hleaf) (hn status kind)
  | cons k route =>
    obtain ⟨c, hc, hleaf⟩ := Option.bind_eq_some_iff.1 hleaf
    obtain ⟨c', hc', hgrows⟩ := h k c hc
    rw [at?_cons, hc']
    exact hgrows route status kind hleaf

section child

variable {status : Status RecordLayout} {head : RecordHead} {fields : List (Field Node)} {k : Nat}
  {f : Field Node} {c : Node}

/-- A record grows with a field. -/
theorem grows_setField (hf : fields[k]? = some f) (h : Grows f.child c) :
    Grows (.record status head fields) (.record status head (fields.set k (f.withChild c))) := by
  refine .of_children (by rintro _ _ ⟨⟩) fun j d hd => ?_
  rw [child?_setField hf]
  by_cases hkj : k = j
  · subst hkj
    rw [child?, hf, Option.map_some, Option.some.injEq] at hd
    rw [if_pos rfl]
    exact ⟨c, rfl, hd ▸ h⟩
  · rw [if_neg hkj]
    exact ⟨d, hd, .refl d⟩

/-- A field is found where it was, whatever its child is now. -/
theorem findIdx?_setField {p : Field Node → Bool} (hp : ∀ f c, p (Field.withChild f c) = p f)
    (hk : fields.findIdx? p = some k) (hf : fields[k]? = some f) :
    (fields.set k (f.withChild c)).findIdx? p = some k := by
  obtain ⟨hlt, hat, hbefore⟩ := List.findIdx?_eq_some_iff_getElem.1 hk
  obtain ⟨-, rfl⟩ := List.getElem?_eq_some_iff.1 hf
  refine List.findIdx?_eq_some_iff_getElem.2 ⟨by rwa [List.length_set], ?_, fun j hj => ?_⟩
  · rw [List.getElem_set_self, hp]
    exact hat
  · rw [List.getElem_set_ne (Nat.ne_of_gt hj)]
    exact hbefore j hj

end child

section element

variable {status : Status ArrayPlan} {head : ArrayHead} {template : Node}
  {alternatives : List (Nat × Node)} {staged : List Node} {elements : List (Option Node)}
  {k : Nat} {e e' : Node}

/-- An array grows with an element. -/
theorem grows_setElement (he : elements[k]? = some (some e)) (h : Grows e e') :
    Grows (.array status head template alternatives staged elements)
      (.array status head template alternatives staged (elements.set k (some e'))) := by
  refine .of_children (by rintro _ _ ⟨⟩) fun j d hd => ?_
  rw [child?_setElement he]
  by_cases hkj : k = j
  · subst hkj
    rw [child?, he, Option.join_some, Option.some.injEq] at hd
    rw [if_pos rfl]
    exact ⟨e', rfl, hd ▸ h⟩
  · rw [if_neg hkj]
    exact ⟨d, hd, .refl d⟩

end element

/-- Making sure of an element keeps the others. -/
theorem Materialized.grows {index : Nat} {n : Node} {o : Outcome Node Unit}
    (h : Materialized index n o) (hn : ∀ status kind, n ≠ .leaf status kind) : Grows n o.state := by
  refine .of_children hn fun k c hc => ?_
  rcases h.others k with hsame | ⟨-, hnone⟩
  · exact ⟨c, hsame.trans hc, .refl c⟩
  · rw [hnone] at hc
    cases hc

end Node

/-! ### The way to a structure -/

namespace Visit

/-- What is left behind by an operation along some steps, which either reached no structure or did
to the structure at their end what it does on its own.  Which of these, and where, does not depend
on what is in memory. -/
inductive Arrives (v : Visit α) (steps : List PathStep) (n : Node) (f : Heap → Visited α) : Prop where
  | stopped {after : Node} (shared : Shared) (e : SessionError) (grows : Grows n after)
      (visited : ∀ heap, f heap = ⟨after, ⟨heap, shared⟩, .error e⟩)
  | there {after : Node} (route : List Nat) (m : Node) (shared : Shared) (grows : Grows n after)
      (way : after.route? steps = some route) (found : after.at? route = some m)
      (visited : ∀ heap, f heap = { v m ⟨heap, shared⟩ with node := after })

variable {v : Visit α} {steps : List PathStep}

/-- A way through one more structure, in which the child is put back. -/
theorem Arrives.below {start c : Node} {step : PathStep} {f f' : Heap → Visited α} (k : Nat)
    (put : Node → Node) (h : Arrives v steps c f)
    (hf : ∀ heap, f' heap = { f heap with node := put (f heap).node })
    (hgrows : ∀ c', Grows c c' → Grows start (put c'))
    (hrank : ∀ c', step.rank? (put c') = some k) (hchild : ∀ c', (put c').child? k = some c') :
    Arrives v (step :: steps) start f' := by
  -- the way ends inside the child, or it leads to a structure there
  cases h with
  | stopped shared e grows visited =>
    refine .stopped shared e (hgrows _ grows) fun heap => ?_
    rw [hf, visited]
  | there route m shared grows way found visited =>
    refine .there (k :: route) m shared (hgrows _ grows) ?_ ?_ fun heap => ?_
    · rw [route?, hrank, Option.bind_some, hchild, Option.bind_some, way]
      rfl
    · rw [at?_cons, hchild]
      exact found
    · rw [hf, visited]

/-- A way through a field. -/
theorem arrives_field {p : Field Node → Bool} {step : PathStep} {w : Visit α}
    (hstep : ∀ status head fields, step.rank? (.record status head fields) = fields.findIdx? p)
    (hp : ∀ f c, p (Field.withChild f c) = p f) (n : Node) (shared : Shared)
    (hinside : ∀ k c, n.child? k = some c → Arrives v steps c fun heap => w c ⟨heap, shared⟩) :
    Arrives v (step :: steps) n fun heap => field p w n ⟨heap, shared⟩ := by
  cases n with
  | leaf => exact .stopped shared _ (.refl _) fun _ => rfl
  | array => exact .stopped shared _ (.refl _) fun _ => rfl
  | record status head fields =>
    simp only [field]
    -- there is no such field, or the way goes on in its child
    cases hk : fields.findIdx? p with
    | none => exact .stopped shared _ (.refl _) fun _ => rfl
    | some k =>
      cases hf : fields[k]? with
      | none =>
        refine .stopped shared (.missing .field) (.refl _) fun heap => ?_
        simp only [hf]
      | some f =>
        have hchild : (Node.record status head fields).child? k = some f.child := by
          rw [child?, hf]
          rfl
        refine (hinside k f.child hchild).below k
          (fun c => .record status head (fields.set k (f.withChild c))) ?_ ?_ ?_ ?_
        · intro heap
          simp only [hf]
        · exact fun c h => grows_setField hf h
        · intro c
          rw [hstep]
          exact findIdx?_setField hp hk hf
        · intro c
          rw [child?_setField hf, if_pos rfl]

/-- A way through an element, which is made if it is not there. -/
theorem arrives_element {index : Nat} {w : Visit α} {n : Node} {shared : Shared} (hn : n.Sound)
    (hshared : shared.Coherent)
    (hinside : ∀ c shared, c.Sound → shared.Coherent →
      Arrives v steps c fun heap => w c ⟨heap, shared⟩) :
    Arrives v (.element index :: steps) n fun heap => element index w n ⟨heap, shared⟩ := by
  unfold element onArray
  cases n with
  | leaf => exact .stopped shared _ (.refl _) fun _ => rfl
  | record => exact .stopped shared _ (.refl _) fun _ => rfl
  | array status head template alternatives staged elements =>
    have hmade : Materialized index (.array status head template alternatives staged elements)
        (materialize index (.array status head template alternatives staged elements) shared) :=
      materialized_materialize hn hshared
    have hgrows := hmade.grows (by rintro _ _ ⟨⟩)
    simp only [Visit.bind, change]
    generalize materialize index (.array status head template alternatives staged elements) shared =
      made at hmade hgrows ⊢
    obtain ⟨after, n', result⟩ := made
    -- if it cannot be made, the way ends at the array
    cases result with
    | error fault => exact .stopped after _ hgrows fun _ => rfl
    | ok _ =>
      simp only [Except.mapError]
      cases n' with
      | leaf => exact .stopped after _ hgrows fun _ => rfl
      | record => exact .stopped after _ hgrows fun _ => rfl
      | array status' head' template' alternatives' staged' elements' =>
        cases he : elements'[index]?.join with
        | none =>
          refine .stopped after (.missing .field) hgrows fun heap => ?_
          simp only [element?, he]
        | some e =>
          have hget : elements'[index]? = some (some e) := Option.join_eq_some_iff.1 he
          have hsound : e.Sound := hmade.evolves.sound.child he
          refine (hinside e after hsound hmade.coherent).below index
            (fun c => .array status' head' template' alternatives' staged'
              (elements'.set index (some c))) ?_ ?_ (fun _ => rfl) ?_
          · intro heap
            simp only [element?, he, setElement]
          · exact fun c h => hgrows.trans (grows_setElement hget h)
          · intro c
            rw [child?_setElement hget, if_pos rfl]

/-- An operation that does not change the structure it is for arrives. -/
theorem arrives_along (hv : v.Steady) {n : Node} {shared : Shared} (hn : n.Sound)
    (hshared : shared.Coherent) :
    Arrives v steps n fun heap => v.along steps n ⟨heap, shared⟩ := by
  -- over the steps: each leads to a child, and only a missing element is made on the way
  induction steps generalizing n shared with
  | nil =>
    refine .there [] n shared (.refl n) rfl rfl fun heap => ?_
    have hnode : (v n ⟨heap, shared⟩).node = n := hv.node n _
    show v n ⟨heap, shared⟩ = { v n ⟨heap, shared⟩ with node := n }
    generalize v n ⟨heap, shared⟩ = r at hnode ⊢
    rw [← hnode]
  | cons step steps ih =>
    cases step with
    | index i =>
      exact arrives_field (fun _ _ _ => rfl) (fun _ _ => rfl) n shared
        fun k c hc => ih (hn.child hc) hshared
    | name s =>
      exact arrives_field (fun _ _ _ => rfl) (fun _ _ => rfl) n shared
        fun k c hc => ih (hn.child hc) hshared
    | element i => exact arrives_element hn hshared fun c shared hc hs => ih hc hs

end Visit

end NativeLayout
