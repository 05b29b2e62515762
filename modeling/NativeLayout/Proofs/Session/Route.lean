import NativeLayout.Proofs.Session.Safe
import NativeLayout.Proofs.Tree.Alike

namespace NativeLayout

/-!
# Operations on structures that are there

* `PathStep.rank?`, `Node.route?` — the way that some steps take through a tree, if every structure
  on it exists.
* `Visit.Reaches`, `Visit.reaches_along` — an operation along such steps does to the structure at
  their end what it does on its own, and nothing else.
* `Node.putAt`, `Visit.along_eq` — the tree that it leaves behind.
-/

/-- The rank or the index of the child that a step leads to. -/
def PathStep.rank? : PathStep → Node → Option Nat
  | .index i, .record _ _ fields => fields.findIdx? fun f => f.index = i
  | .name s, .record _ _ fields => fields.findIdx? fun f => f.name = s
  | .element i, .array .. => some i
  | _, _ => none

namespace Node

/-- The route that some steps take through the structures that exist. -/
def route? : List PathStep → Node → Option (List Nat)
  | [], _ => some []
  | step :: steps, n =>
    (step.rank? n).bind fun k =>
      (n.child? k).bind fun c => (route? steps c).map (k :: ·)

/-- No step leads nowhere else. -/
theorem route?_nil (n : Node) : n.route? [] = some [] := rfl

/-- The way along some steps, one step at a time. -/
theorem route?_cons_eq_some {step : PathStep} {steps : List PathStep} {n m : Node}
    {route : List Nat} (h : route? (step :: steps) n = some route) (hm : n.at? route = some m) :
    ∃ k c rest, step.rank? n = some k ∧ n.child? k = some c ∧ route? steps c = some rest ∧
      c.at? rest = some m := by
  obtain ⟨k, hk, h⟩ := Option.bind_eq_some_iff.1 h
  obtain ⟨c, hc, h⟩ := Option.bind_eq_some_iff.1 h
  obtain ⟨rest, hrest, rfl⟩ := Option.map_eq_some_iff.1 h
  rw [at?_cons, hc] at hm
  exact ⟨k, c, rest, hk, hc, hrest, hm⟩

/-! ### Another structure at the end of a route -/

/-- The structure with another child at a rank or an index. -/
def setChild (n : Node) (k : Nat) (c : Node) : Node :=
  match n with
  | .leaf status kind => .leaf status kind
  | .record status head fields =>
    match fields[k]? with
    | none => .record status head fields
    | some f => .record status head (fields.set k (f.withChild c))
  | .array status head template alternatives staged elements =>
    .array status head template alternatives staged (elements.set k (some c))

/-- The tree with another structure at the end of a route, if there is one. -/
def putAt : (n : Node) → (route : List Nat) → (c : Node) → Node
  | _, [], c => c
  | n, k :: route, c =>
    match n.child? k with
    | none => n
    | some child => n.setChild k (child.putAt route c)

variable {n c d : Node} {k : Nat} {route : List Nat}

/-- A child that is exchanged is found in its place. -/
theorem child?_setChild (d : Node) (hc : n.child? k = some c) : (n.setChild k d).child? k = some d := by
  cases n with
  | leaf => cases hc
  | record status head fields =>
    obtain ⟨f, hf, rfl⟩ := Option.map_eq_some_iff.1 hc
    simp only [setChild, hf]
    rw [child?_setField hf, if_pos rfl]
  | array =>
    have hget := Option.join_eq_some_iff.1 hc
    rw [setChild, child?_setElement hget, if_pos rfl]

/-- To exchange a child for itself changes nothing. -/
theorem setChild_self (hc : n.child? k = some c) : n.setChild k c = n := by
  cases n with
  | leaf => cases hc
  | record status head fields =>
    obtain ⟨f, hf, rfl⟩ := Option.map_eq_some_iff.1 hc
    obtain ⟨hlt, hget⟩ := List.getElem?_eq_some_iff.1 hf
    have hset : fields.set k (f.withChild f.child) = fields := by
      rw [← hget]
      exact List.set_getElem_self hlt
    simp only [setChild, hf, hset]
  | array =>
    obtain ⟨hlt, hget⟩ := List.getElem?_eq_some_iff.1 (Option.join_eq_some_iff.1 hc)
    rw [setChild, ← hget, List.set_getElem_self hlt]

/-- What is put at the end of a route is found there. -/
theorem at?_putAt (d : Node) (hm : n.at? route = some c) : (n.putAt route d).at? route = some d := by
  induction route generalizing n with
  | nil => rfl
  | cons k route ih =>
    obtain ⟨child, hchild, hm⟩ := Option.bind_eq_some_iff.1 hm
    rw [at?_cons]
    simp only [putAt, hchild]
    rw [child?_setChild _ hchild, Option.bind_some, ih hm]

/-- To put back what was found changes nothing. -/
theorem putAt_self (hm : n.at? route = some c) : n.putAt route c = n := by
  induction route generalizing n with
  | nil =>
    cases hm
    rfl
  | cons k route ih =>
    obtain ⟨child, hchild, hm⟩ := Option.bind_eq_some_iff.1 hm
    simp only [putAt, hchild]
    rw [ih hm, setChild_self hchild]

end Node

namespace Visit

open Node

variable {α : Type} {v : Visit α}

/-- What an operation leaves behind when it reaches a structure inside another one. -/
structure Reaches (v : Visit α) (n m : Node) (store : Store) (r : Visited α) : Prop where
  result : r.result = (v m store).result
  after : r.store = (v m store).store
  alike : Alike n r.node ↔ Alike m (v m store).node

/-- An element that exists is not made again. -/
theorem element_of_child? {n e : Node} {k : Nat} (hn : n.Sound) (he : n.child? k = some e)
    (harray : ∃ status head template alternatives staged elements,
      n = .array status head template alternatives staged elements) (store : Store) :
    element k v n store =
      { v e store with node := n.setElement k (v e store).node } := by
  obtain ⟨status, head, template, alternatives, staged, elements, rfl⟩ := harray
  obtain ⟨self, -⟩ := sound_array_iff.1 hn
  have hget : elements[k]? = some (some e) := Option.join_eq_some_iff.1 he
  obtain ⟨hk, -⟩ := List.getElem?_eq_some_iff.1 hget
  cases status with
  | allocated plan p =>
    obtain ⟨hlength, -⟩ := self.placed plan p rfl
    have hmade : materialize k (.array (.allocated plan p) head template alternatives staged elements)
        store.shared = .pure store.shared
          (.array (.allocated plan p) head template alternatives staged elements) () := by
      simp only [materialize, if_pos (show k < head.length by omega), hget, Option.join_some]
    simp only [element, onArray, Visit.bind, change, hmade, Outcome.pure, Except.mapError, element?,
      hget, Option.join_some]
  | unallocated =>
    -- only an array with storage has elements
    rw [self.unplaced rfl] at hget
    cases hget
  | allocatable plan =>
    rw [self.unplaced rfl] at hget
    cases hget

/-- A way through a field reaches what the way inside it reaches. -/
theorem reaches_field {p : Field Node → Bool} {status : Status RecordLayout} {head : RecordHead}
    {fields : List (Field Node)} {k : Nat} {f : Field Node} {m : Node} {w : Visit α} {store : Store}
    (hk : fields.findIdx? p = some k) (hf : fields[k]? = some f)
    (h : Reaches v f.child m store (w f.child store)) :
    Reaches v (.record status head fields) m store
      (field p w (.record status head fields) store) := by
  simp only [field, hk, hf]
  exact ⟨h.result, h.after, (alike_setField_iff hf).trans h.alike⟩

/-- An operation along steps that lead to a structure reaches it. -/
theorem reaches_along {steps : List PathStep} {n m : Node} {route : List Nat} (hn : n.Sound)
    (hroute : n.route? steps = some route) (hm : n.at? route = some m) (store : Store) :
    Reaches v n m store (v.along steps n store) := by
  induction steps generalizing n route with
  | nil =>
    cases hroute
    cases hm
    exact ⟨rfl, rfl, .rfl⟩
  | cons step steps ih =>
    obtain ⟨k, c, rest, hk, hc, hrest, hm⟩ := route?_cons_eq_some hroute hm
    have hinside := ih (hn.child hc) hrest hm
    cases n with
    | leaf => cases hc
    | record status head fields =>
      obtain ⟨f, hf, rfl⟩ := Option.map_eq_some_iff.1 hc
      cases step with
      | index index => exact reaches_field hk hf hinside
      | name name => exact reaches_field hk hf hinside
      | element => cases hk
    | array status head template alternatives staged elements =>
      cases step with
      | index => cases hk
      | name => cases hk
      | element index =>
        cases hk
        have he : elements[k]? = some (some c) := Option.join_eq_some_iff.1 hc
        simp only [along]
        -- the element is there, so that going to it makes nothing
        rw [element_of_child? hn hc ⟨_, _, _, _, _, _, rfl⟩]
        exact ⟨hinside.result, hinside.after, (alike_setElement_iff he).trans hinside.alike⟩

/-- What is done in a field, told for the record. -/
theorem field_eq {p : Field Node → Bool} {status : Status RecordLayout} {head : RecordHead}
    {fields : List (Field Node)} {k : Nat} {f : Field Node} {w : Visit α} {store : Store}
    (hk : fields.findIdx? p = some k) (hf : fields[k]? = some f) :
    field p w (.record status head fields) store = { w f.child store with
      node := (Node.record status head fields).setChild k (w f.child store).node } := by
  simp only [field, hk, hf, setChild]

/-- An operation along steps that lead to a structure does to it what it does on its own, and puts it
back where it was. -/
theorem along_eq {steps : List PathStep} {n m : Node} {route : List Nat} (hn : n.Sound)
    (hroute : n.route? steps = some route) (hm : n.at? route = some m) (store : Store) :
    v.along steps n store = { v m store with node := n.putAt route (v m store).node } := by
  induction steps generalizing n route with
  | nil =>
    cases hroute
    cases hm
    rfl
  | cons step steps ih =>
    obtain ⟨k, c, rest, hk, hc, hrest, hm⟩ := route?_cons_eq_some hroute hm
    have hinside := ih (hn.child hc) hrest hm
    -- rest :: the first step decides the first index of the route
    obtain rfl : route = k :: rest := by
      rw [route?, hk, Option.bind_some, hc, Option.bind_some, hrest] at hroute
      exact (Option.some.inj hroute).symm
    simp only [putAt, hc]
    cases n with
    | leaf => cases hc
    | record status head fields =>
      obtain ⟨f, hf, rfl⟩ := Option.map_eq_some_iff.1 hc
      cases step with
      | index index => exact (field_eq hk hf).trans (by rw [hinside])
      | name name => exact (field_eq hk hf).trans (by rw [hinside])
      | element => cases hk
    | array =>
      cases step with
      | index => cases hk
      | name => cases hk
      | element =>
        cases hk
        simp only [along, element_of_child? hn hc ⟨_, _, _, _, _, _, rfl⟩, hinside]
        rfl

/-- What the operation leaves of the structure is found where the structure was. -/
theorem at?_along {steps : List PathStep} {n m : Node} {route : List Nat} (hn : n.Sound)
    (hroute : n.route? steps = some route) (hm : n.at? route = some m) (store : Store) :
    (v.along steps n store).node.at? route = some (v m store).node := by
  rw [along_eq hn hroute hm]
  exact at?_putAt _ hm

/-- Operations that do the same to the structure at the end of some steps do the same along them. -/
theorem along_congr {v w : Visit α} {steps : List PathStep} {n m : Node} {route : List Nat}
    {store : Store} (hn : n.Sound) (hroute : n.route? steps = some route) (hm : n.at? route = some m)
    (h : v m store = w m store) : v.along steps n store = w.along steps n store := by
  rw [along_eq hn hroute hm, along_eq hn hroute hm, h]

/-- An operation along steps that lead to a structure, if it changes nothing there. -/
theorem along_eq_of_unchanged {steps : List PathStep} {n m : Node} {route : List Nat} {store : Store}
    {result : Except SessionError α} (hn : n.Sound) (hroute : n.route? steps = some route)
    (hm : n.at? route = some m) (h : v m store = ⟨m, store, result⟩) :
    v.along steps n store = ⟨n, store, result⟩ := by
  rw [along_eq hn hroute hm, h, putAt_self hm]

/-- A change of the memory along steps that lead to a structure. -/
theorem along_write {f : Node → Heap → Except SessionError Heap} {steps : List PathStep} {n m : Node}
    {route : List Nat} {store : Store} {heap : Heap} (hn : n.Sound) (hroute : n.route? steps = some route)
    (hm : n.at? route = some m) (h : f m store.heap = .ok heap) :
    (write f).along steps n store = ⟨n, ⟨heap, store.shared⟩, .ok ()⟩ := by
  have hwrite : write f m store = ⟨m, ⟨heap, store.shared⟩, .ok ()⟩ := by
    simp only [write, h]
  rw [along_eq hn hroute hm, hwrite, putAt_self hm]

/-- One that is refused. -/
theorem along_write_of_error {f : Node → Heap → Except SessionError Heap} {steps : List PathStep}
    {n m : Node} {route : List Nat} {store : Store} {e : SessionError} (hn : n.Sound)
    (hroute : n.route? steps = some route) (hm : n.at? route = some m) (h : f m store.heap = .error e) :
    (write f).along steps n store = ⟨n, store, .error e⟩ := by
  refine along_eq_of_unchanged hn hroute hm ?_
  simp only [write, h]

end Visit

end NativeLayout
