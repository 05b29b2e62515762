import NativeLayout.Proofs.Lazy.Visits
import NativeLayout.Proofs.Session.Access
import NativeLayout.Session.Elements

namespace NativeLayout

/-!
# Questions to twins

Nothing that a structure tells of itself, and no leaf inside it, tells twins apart.

* `Twin.asked` — twins that are asked for their type are twins.
* `Visit.agrees_facade`, `Visit.agrees_definitions`, `Visit.agrees_record`,
  `Visit.agrees_elementType`, … — the answers are the same.
* `Access.agrees_visit` — so are those of every access to a leaf, and what it writes.
-/

open Node

namespace Node

/-! ### Asking for a type -/

/-- Each alternative is asked under the call it stands for. -/
theorem askAlternatives_eq_map (alternatives : List (Nat × Node)) :
    askAlternatives alternatives = alternatives.map fun e => (e.1, e.2.ask) := by
  induction alternatives with
  | nil => rfl
  | cons e rest ih => rw [askAlternatives, ih]; rfl

/-- **Asking is harmless.** It counts calls and resolves nothing, so catalogs stay coherent. -/
theorem coherent_ask (n : Node) {shared : Shared} (hshared : shared.Coherent) :
    (n.ask shared).Coherent := by
  -- on the structure, since a template that is an array is asked in turn
  induction n.forall_true generalizing shared with
  | leaf => exact hshared
  | record => exact hshared
  | @array status head template alternatives _ _ _ _ _ _ _ ih ihs =>
    simp only [ask]
    split
    next => exact hshared
    next =>
      -- whichever template is asked
      have hall : ∀ shared : Shared, shared.Coherent →
          (choose head.calls (askAlternatives alternatives) template.ask shared).Coherent := by
        refine choose_induction (α := Shared → Shared)
          (P := fun f => ∀ shared : Shared, shared.Coherent → (f shared).Coherent) (fun _ => ih)
          fun e he => ?_
        rw [askAlternatives_eq_map] at he
        obtain ⟨e', he', rfl⟩ := List.mem_map.1 he
        exact fun _ => ihs e' he'
      exact hall _ (hshared.count head.counter)

variable {n m : Node}

/-- How far a structure is does not change when it is asked for its type. -/
theorem status_asked (n : Node) : n.asked.status = n.status := by
  cases n with
  | leaf => rfl
  | record => rfl
  | array status => cases status <;> rfl

/-- A sound structure stays sound, since only the number of calls may grow. -/
theorem sound_asked (hn : n.Sound) : n.asked.Sound := by
  cases n with
  | leaf => exact hn
  | record => exact hn
  | array status head =>
    cases status with
    | unallocated =>
      obtain ⟨self, rest⟩ := sound_array_iff.1 hn
      exact sound_array_iff.2 ⟨self.counted (head.calls + 1), rest⟩
    | allocatable => exact hn
    | allocated => exact hn

/-- What an array repeats and what it built does not change either. -/
theorem Tame.asked (hn : n.Tame) : n.asked.Tame := by
  refine ⟨sound_asked hn.sound, ?_⟩
  cases n with
  | leaf => exact hn.regular
  | record => exact hn.regular
  | array status =>
    cases status with
    | unallocated => exact regular_array_iff.2 (regular_array_iff.1 hn.regular)
    | allocatable => exact hn.regular
    | allocated => exact hn.regular

/-- Twins that are asked for their type are twins; how often each was asked is not in the outline. -/
theorem Twin.asked (h : Twin n m) : Twin n.asked m.asked := by
  refine ⟨h.left.asked, h.right.asked, ?_⟩
  rw [outline_asked, outline_asked, h.outline]

/-- Twins show the same type. -/
theorem Twin.facade (h : Twin n m) : n.facade = m.facade :=
  facade_eq_of_outline h.left.regular.repeats h.right.regular.repeats h.outline

/-- Asking each field for its type. -/
theorem askFields_eq (fields : List (Field Node)) {shared : Shared} (hshared : shared.Coherent) :
    (askFields fields shared).1 = fields.map (fun f => f.withChild f.child.asked) ∧
      (askFields fields shared).2.Coherent := by
  induction fields generalizing shared with
  | nil => exact ⟨rfl, hshared⟩
  | cons f rest ih =>
    obtain ⟨hfields, hafter⟩ := ih (f.child.coherent_ask hshared)
    simp only [askFields, hfields, List.map_cons]
    exact ⟨trivial, hafter⟩

end Node

namespace Visit

variable {α : Type} {n m : Node} {store store' : Store}

/-! ### One structure -/

/-- A question that the outline of a structure answers, together with the memory. -/
theorem agrees_read_outline {f : Node → Store → Except SessionError α}
    (houtline : ∀ n store, f n.outline store = f n store)
    (hheap : ∀ n (store store' : Store), store.heap = store'.heap → f n store = f n store') :
    (read f).Agrees (read f) :=
  agrees_read fun n m store store' h hstore => by
    rw [← houtline n, h.outline, houtline m, hheap m store store' hstore]

/-- A change of the memory that the outline of a structure determines. -/
theorem agrees_write {f : Node → Heap → Except SessionError Heap}
    (houtline : ∀ n heap, f n.outline heap = f n heap) : (write f).Agrees (write f) := by
  refine ⟨(steady_write f).safe, (steady_write f).safe, fun n m store store' h _ _ hheap => ?_⟩
  have hsame : f n store.heap = f m store'.heap := by
    rw [← houtline n, h.outline, houtline m, hheap]
  simp only [write, hsame]
  -- either the change fails, with the same fault, or both memories become the same
  split
  · exact agrees_of_unchanged h rfl rfl
  · exact agrees_of_unchanged h hheap rfl

/-- How far it is tells nothing about what an array has built. -/
theorem agrees_status :
    (read fun node _ => .ok node.status).Agrees (read fun node _ => .ok node.status) :=
  agrees_read_outline (fun n _ => by rw [status_outline]) fun _ _ _ _ => rfl

/-- A type is asked for twice, once for its name and once for its spelling; both are the same for twins. -/
theorem agrees_facade : facade.Agrees facade := by
  refine agrees_change (safe_change fun n shared hn hs => ?_) (fun n m shared shared' h hs hs' => ?_)
    fun n _ _ _ _ => ?_
  · exact ⟨coherent_ask _ (coherent_ask _ hs), sound_asked (sound_asked hn), .of_status_eq (by
      rw [Outcome.pure, status_asked, status_asked])⟩
  · refine ⟨coherent_ask _ (coherent_ask _ hs), coherent_ask _ (coherent_ask _ hs'), h.asked.asked, ?_⟩
    simp only [Outcome.pure, h.facade, h.asked.facade]
  · rw [Outcome.pure, outline_asked, outline_asked]

/-- The definitions of a tree are collected from its records and from templates, never from elements. -/
theorem agrees_definitions : definitions.Agrees definitions :=
  agrees_read fun n m _ _ h _ => by
    rw [Node.definitions, Node.definitions,
      records_eq_of_outline h.left.regular.repeats h.right.regular.repeats h.outline]

/-- A record tells its head, its layout and its definition, and asks its fields for their types. -/
theorem safe_record : record.Safe := by
  intro n store hn hstore
  cases n with
  | leaf => exact safe_of_unchanged hn hstore
  | array => exact safe_of_unchanged hn hstore
  | record status head fields =>
    obtain ⟨hfields, hafter⟩ := askFields_eq fields hstore
    obtain ⟨self, children⟩ := sound_record_iff.1 hn
    -- an array that is asked for its type may build a prototype, but keeps its status
    have hlift : List.Forall₂ (Lift Keeps) fields (fields.map fun f => f.withChild f.child.asked) := by
      rw [List.forall₂_map_right_iff, List.forall₂_same]
      exact fun f _ => .withChild (.of_status_eq (status_asked f.child))
    simp only [record, hfields]
    refine ⟨hafter, sound_record_iff.2 ⟨self.lift hlift, fun g hg => ?_⟩, .of_status_eq rfl⟩
    obtain ⟨f, hf, rfl⟩ := List.mem_map.1 hg
    exact sound_asked (children f hf)

/-- Twin records tell the same about themselves. -/
theorem agrees_record : record.Agrees record := by
  refine ⟨safe_record, safe_record, fun n m store store' h hs hs' hheap => ?_⟩
  have hsafe := safe_record n store h.left.sound hs
  have hsafe' := safe_record m store' h.right.sound hs'
  cases n with
  | leaf =>
    obtain rfl := outline_eq_leaf h.outline
    exact agrees_of_unchanged h hheap rfl
  | array =>
    obtain ⟨_, _, _, _, _, _, _, rfl, -⟩ := h.array
    exact agrees_of_unchanged h hheap rfl
  | record status head fields =>
    obtain ⟨fields', rfl, hfields⟩ := h.record
    -- the definition names the types of the fields, which are twins
    have hdefinition : definition head fields = definition head fields' :=
      definition_eq_of_lift (hfields.imp fun _ _ hfg => hfg.imp Twin.facade)
    simp only [record, (askFields_eq fields hs).1, (askFields_eq fields' hs').1, hdefinition,
      hfields.length_eq] at hsafe hsafe' ⊢
    -- the fields were asked one by one, so they are twins again
    refine ⟨twin_record hsafe.sound hsafe'.sound ?_, hheap, rfl, fun _ => ?_⟩
    · rw [List.forall₂_map_left_iff, List.forall₂_map_right_iff]
      exact hfields.imp fun f g hfg => ⟨hfg.index, hfg.name, hfg.child.asked⟩
    · refine outline_record_eq ?_
      rw [List.forall₂_map_left_iff, List.forall₂_same]
      exact fun f _ => ⟨rfl, rfl, outline_asked f.child⟩

/-- The offset of a field is in the layout, and its rank depends on the indices alone. -/
theorem agrees_fieldOffset (index : Nat) : (fieldOffset index).Agrees (fieldOffset index) := by
  refine agrees_read_outline (fun n _ => ?_) fun _ _ _ _ => rfl
  cases n with
  | leaf => rfl
  | array => rfl
  | record status head fields =>
    simp only [Node.outline, Node.fieldOffset?, outlineFields_eq_map, List.findIdx?_map]
    rfl

/-! ### Arrays -/

/-- An operation for arrays is refused by everything else, twins included. -/
theorem Agrees.onArray {v w : Visit α} (h : v.Agrees w) : (onArray v).Agrees (onArray w) := by
  refine ⟨h.left.onArray, h.right.onArray, fun n m store store' htwin hs hs' hheap => ?_⟩
  cases n with
  | leaf =>
    obtain rfl := outline_eq_leaf htwin.outline
    exact agrees_of_unchanged htwin hheap rfl
  | record =>
    obtain ⟨_, rfl, -⟩ := htwin.record
    exact agrees_of_unchanged htwin hheap rfl
  | array =>
    have hinside := h.agree _ m store store' htwin hs hs' hheap
    obtain ⟨_, _, _, _, _, _, _, rfl, -⟩ := htwin.array
    exact hinside

/-- The length of an array, and the bytes from one element to the next. -/
def measures : Visit (Nat × Nat) := array.bind fun view => read fun _ _ =>
  .ok (view.head.length, view.stride)

/-- The length and the stride of an array are known from its head and its plan. -/
theorem agrees_measures : measures.Agrees measures := by
  have hsafe : measures.Safe := (safe_read _).bind fun _ => safe_read _
  refine ⟨hsafe, hsafe, fun n m store store' h _ _ hheap => ?_⟩
  cases n with
  | leaf =>
    obtain rfl := outline_eq_leaf h.outline
    exact agrees_of_unchanged h hheap rfl
  | record =>
    obtain ⟨_, rfl, -⟩ := h.record
    exact agrees_of_unchanged h hheap rfl
  | array =>
    obtain ⟨_, _, _, _, _, _, _, rfl, -⟩ := h.array
    exact agrees_of_unchanged h hheap rfl

/-- The address of an element is computed from the placement of the array, whether the element exists or
not. -/
theorem agrees_elementAddress (index : Nat) :
    (elementAddress index).Agrees (elementAddress index) :=
  .onArray (agrees_read_outline (fun n _ => by cases n <;> rfl) fun _ _ _ _ => rfl)

/-- The window of all indices only depends on the length. -/
theorem agrees_allElements : allElements.Agrees allElements :=
  .onArray (agrees_read_outline (fun n _ => by cases n <;> rfl) fun _ _ _ _ => rfl)

/-- An array makes a prototype when it is asked for the type of its elements: the template, for either
twin. -/
theorem agrees_elementType : elementType.Agrees elementType := by
  refine .onArray (agrees_change (safe_change fun n shared hn hs => ?_)
    (fun n m shared shared' h hs hs' => ?_) fun n _ _ _ _ => ?_)
  · exact ⟨coherent_ask n hs, sound_asked hn, .of_status_eq (status_asked n)⟩
  · refine ⟨coherent_ask n hs, coherent_ask m hs', h.asked, ?_⟩
    cases n with
    | leaf =>
      obtain rfl := outline_eq_leaf h.outline
      rfl
    | record =>
      obtain ⟨_, rfl, -⟩ := h.record
      rfl
    | array status head template alternatives =>
      -- the count of calls differs, but every call makes the template
      have huniform := h.left.uniform
      obtain ⟨_, _, _, _, _, _, _, rfl, htemplate⟩ := h.array
      have huniform' := h.right.uniform
      simp only [Outcome.pure, huniform.choose, huniform'.choose, htemplate.facade]
  · exact outline_asked n

/-! ### Windows -/

/-- A failure does not look at the structure. -/
theorem agrees_fail (e : SessionError) : (fail (α := α) e).Agrees (fail e) :=
  agrees_read fun _ _ _ _ _ _ => rfl

/-- The last of some windows on an array, each cut from the one before. -/
def window (cuts : List (Nat × Nat)) : Visit Window := allElements.bind fun w =>
  match (w.cuts cuts).2 with
  | .ok last => read fun _ _ => .ok last
  | .error e => fail (.fault e)

/-- Twins grant the same windows and refuse the same ones. -/
theorem agrees_window (cuts : List (Nat × Nat)) : (window cuts).Agrees (window cuts) := by
  refine agrees_allElements.bind fun w => ?_
  split
  next => exact agrees_read fun _ _ _ _ _ _ => rfl
  next e _ => exact agrees_fail (.fault e)

/-- An operation on the element at an index of such a window. -/
def inView (cuts : List (Nat × Nat)) (index : Nat) (visit : Visit α) : Visit α :=
  (window cuts).bind fun last => inWindow last index visit

/-- What agrees on elements agrees in a window, since both count the index from the same start. -/
theorem Agrees.inWindow {v w : Visit α} (h : v.Agrees w) (window : Window) (index : Nat) :
    (Visit.inWindow window index v).Agrees (Visit.inWindow window index w) := by
  unfold Visit.inWindow
  split
  next i _ => exact h.element i
  next e _ => exact agrees_fail (.fault e)

/-- The same with the windows that lead there. -/
theorem Agrees.inView {v w : Visit α} (h : v.Agrees w) (cuts : List (Nat × Nat)) (index : Nat) :
    (inView cuts index v).Agrees (inView cuts index w) :=
  (agrees_window cuts).bind fun last => h.inWindow last index

end Visit

/-! ### Leaves -/

namespace Access

open Visit

/-- An operation that agrees, with its result written as data. -/
theorem agrees_answering {α : Type} {v : Visit α} (h : v.Agrees v) (data : α → List Datum) :
    (answering v data).Agrees (answering v data) :=
  h.bind fun _ => agrees_read fun _ _ _ _ _ _ => rfl

/-- An access to a leaf does the same to twins. -/
theorem agrees_visit (a : Access) : a.visit.Agrees a.visit := by
  -- an outline has the same leaf, or none if the structure is no leaf
  cases a with
  | look =>
    show (Visit.read fun _ _ => .ok []).Agrees (Visit.read fun _ _ => .ok [])
    exact agrees_read fun _ _ _ _ _ _ => rfl
  | getNumber | getNumbers | getText | getName | getAddress =>
    exact agrees_answering (agrees_read_outline (fun n _ => by cases n <;> rfl)
      fun _ _ _ h => by simp only [h]) _
  | putNumber | putNumbers | putText | putName | putAddress =>
    exact agrees_answering (agrees_write fun n _ => by cases n <;> rfl) _

end Access

/-- The number that stands for a name. -/
theorem Visit.agrees_rawEnum : rawEnum.Agrees rawEnum :=
  agrees_read_outline (fun n _ => by cases n <;> rfl) fun _ _ _ h => by simp only [h]

end NativeLayout
