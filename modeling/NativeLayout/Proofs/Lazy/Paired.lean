import NativeLayout.Proofs.Lazy.Questions
import NativeLayout.Proofs.Session.World

namespace NativeLayout

/-!
# Lazy arrays look like eager ones

* `Hop`, `Move`, `World.Request` — what can be asked of a structure, and of one inside it.
* `World.Paired` — two worlds that come about by the same steps, apart from which arrays are lazy and
  what they count.
* `World.Paired.run_eq` — every run of requests gets the same answers in both, and leaves the same
  memory.
* `World.not_run_eq` — but not if an array is made of something stored, or of different things.
-/

open Node

/-! ### Requests -/

/-- A way down the tree. -/
inductive Hop where
  | step (step : PathStep)
  /-- To the element at an index of a window, the last of some that are cut one from the other. -/
  | view (cuts : List (Nat × Nat)) (index : Nat)

/-- An operation at the end of some ways down. -/
def Visit.through {α : Type} (visit : Visit α) : List Hop → Visit α
  | [] => visit
  | .step step :: rest => (visit.through rest).along [step]
  | .view cuts index :: rest => Visit.inView cuts index (visit.through rest)

/-- What a structure answers. -/
inductive Answer where
  | done
  | shape (shape : Shape)
  | index (index : Nat)
  | arena (arena : Arena)
  | status (status : Status Shape)
  | facade (facade : Facade)
  | definitions (records : List (RecordDef × RecordLayout))
  | record (view : RecordView)
  | offset (offset : Option Nat)
  | measures (length stride : Nat)
  | typeName (name : String)
  | address (address : Nat)
  | window (window : Window)
  | number (value : Int)
  | data (data : List Datum)
  deriving DecidableEq

/-- What can be asked of a structure: everything but which elements of an array exist, and what it
counts. -/
inductive Move where
  /-- A new field: a structure of the world, by its number. -/
  | register (index : Option Nat) (name : String) (child : Nat)
  | resolve
  | allocate
  | claim (region : Region) (offset : Nat)
  | push (arena : Arena)
  | status
  | facade
  | definitions
  | record
  | fieldOffset (index : Nat)
  /-- The length and the stride of an array. -/
  | measures
  | elementType
  | elementAddress (index : Nat)
  | window (cuts : List (Nat × Nat))
  | rawName
  | access (access : Access)

/-- The result of an operation as an answer. -/
def Visit.telling {α : Type} (visit : Visit α) (answer : α → Answer) : Visit Answer :=
  visit.bind fun a => Visit.read fun _ _ => .ok (answer a)

namespace Move

/-- What a move does in a world of some structures. -/
def visit (trees : List Node) : Move → Visit Answer
  | register index name child =>
    match trees[child]? with
    | none => Visit.fail (.missing .slot)
    | some c => (Visit.register index name c).telling .index
  | resolve => Visit.resolve.telling .shape
  | allocate => Visit.allocate.telling fun _ => .done
  | claim region offset => (Visit.claim region offset).telling fun _ => .done
  | push arena => (Visit.push arena).telling .arena
  | status => (Visit.read fun node _ => .ok node.status).telling .status
  | facade => Visit.facade.telling .facade
  | definitions => Visit.definitions.telling .definitions
  | record => Visit.record.telling .record
  | fieldOffset index => (Visit.fieldOffset index).telling .offset
  | measures => Visit.measures.telling fun m => .measures m.1 m.2
  | elementType => Visit.elementType.telling .typeName
  | elementAddress index => (Visit.elementAddress index).telling .address
  | window cuts => (Visit.window cuts).telling .window
  | rawName => Visit.rawEnum.telling .number
  | access a => a.visit.telling .data

end Move

namespace World

/-- A move at the end of some ways down a tree of a world. -/
structure Request where
  tree : Nat
  hops : List Hop
  move : Move

/-- What a request leaves behind, and its answer. -/
def request (w : World) (r : Request) : World × Except SessionError Answer :=
  match w.trees[r.tree]? with
  | none => (w, .error (.missing .slot))
  | some n =>
    let v := (r.move.visit w.trees).through r.hops n w.store
    ({ store := v.store, trees := w.trees.set r.tree v.node }, v.result)

/-- Requests one after the other, with the answer to each. -/
def run (w : World) : List Request → World × List (Except SessionError Answer)
  | [] => (w, [])
  | r :: rest =>
    let next := w.request r
    let others := next.1.run rest
    (others.1, next.2 :: others.2)

/-- Two worlds that come about side by side: the same steps are taken in both, but an array may be
lazy in one and eager in the other, and may keep another count.  What an array is made from is the
same every time, and is not stored: nothing that is stored gets storage again. -/
inductive Paired : World → World → Prop where
  | start (address : Nat) :
      Paired ⟨⟨.startingAt address, .empty⟩, []⟩ ⟨⟨.startingAt address, .empty⟩, []⟩
  | memory {w w' : World} (h : Paired w w') (heap : Heap) :
      Paired ⟨⟨heap, w.store.shared⟩, w.trees⟩ ⟨⟨heap, w'.store.shared⟩, w'.trees⟩
  | forget {w w' : World} (h : Paired w w') (number : Nat) :
      Paired (w.forget number) (w'.forget number)
  | leaf {w w' : World} (h : Paired w w') (kind : Leaf) :
      Paired (w.add (.ofLeaf kind)) (w'.add (.ofLeaf kind))
  | record {w w' : World} (h : Paired w w') (head : RecordHead) :
      Paired (w.add (.newRecord head)) (w'.add (.newRecord head))
  | array {w w' : World} (h : Paired w w') (length : Nat) (lazy lazy' : Bool)
      (counter counter' : Option String) {i : Nat} {template template' : Node}
      {alternatives alternatives' : List (Nat × Node)} (hi : w.trees[i]? = some template)
      (hi' : w'.trees[i]? = some template') (vacant : template.Vacant)
      (same : ∀ e ∈ alternatives, e.2 = template) (same' : ∀ e ∈ alternatives', e.2 = template') :
      Paired (w.add (.newArray length lazy counter template alternatives))
        (w'.add (.newArray length lazy' counter' template' alternatives'))
  | request {w w' : World} (h : Paired w w') (r : Request) :
      Paired (w.request r).1 (w'.request r).1

end World

/-! ### What a request preserves -/

/-- Operations that agree, with their result told as an answer. -/
theorem Visit.Agrees.telling {α : Type} {v w : Visit α} (h : v.Agrees w) (answer : α → Answer) :
    (v.telling answer).Agrees (w.telling answer) :=
  h.bind fun _ => agrees_read fun _ _ _ _ _ _ => rfl

/-- Operations that agree do so at the end of a way, through windows as well. -/
theorem Visit.Agrees.through {α : Type} {v w : Visit α} (h : v.Agrees w) (hops : List Hop) :
    (v.through hops).Agrees (w.through hops) := by
  -- on the way; it passes a field, an element or a window at each step
  induction hops with
  | nil => exact h
  | cons hop hops ih =>
    cases hop with
    | step step => exact ih.along [step]
    | view cuts index => exact ih.inView cuts index

/-- A move does the same to twins, in worlds of twins. -/
theorem Move.agrees_visit {trees trees' : List Node} (htrees : List.Forall₂ Twin trees trees')
    (move : Move) : (move.visit trees).Agrees (move.visit trees') := by
  cases move with
  | register index name child =>
    simp only [visit]
    cases hc : trees'[child]? with
    | none =>
      rw [forall₂_getElem?_none htrees hc]
      exact Visit.agrees_fail _
    | some c' =>
      -- the new field is a structure of each world, and the two are twins
      obtain ⟨c, hc', htwin⟩ := forall₂_getElem? htrees hc
      rw [hc']
      exact (Visit.agrees_register index name htwin).telling _
  | resolve => exact Visit.agrees_resolve.telling _
  | allocate => exact Visit.agrees_allocate.telling _
  | claim region offset => exact (Visit.agrees_claim region offset).telling _
  | push arena => exact (Visit.agrees_push arena).telling _
  | status => exact Visit.agrees_status.telling _
  | facade => exact Visit.agrees_facade.telling _
  | definitions => exact Visit.agrees_definitions.telling _
  | record => exact Visit.agrees_record.telling _
  | fieldOffset index => exact (Visit.agrees_fieldOffset index).telling _
  | measures => exact Visit.agrees_measures.telling _
  | elementType => exact Visit.agrees_elementType.telling _
  | elementAddress index => exact (Visit.agrees_elementAddress index).telling _
  | window cuts => exact (Visit.agrees_window cuts).telling _
  | rawName => exact Visit.agrees_rawEnum.telling _
  | access a => exact a.agrees_visit.telling _

namespace Node

/-- Arrays of twins are twins, whether they build their elements in advance or not, as long as nothing that
they build is stored. -/
theorem twin_newArray {n m : Node} {alternatives alternatives' : List (Nat × Node)} (h : Twin n m)
    (length : Nat) (lazy lazy' : Bool) (counter counter' : Option String) (vacant : n.Vacant)
    (same : ∀ e ∈ alternatives, e.2 = n) (same' : ∀ e ∈ alternatives', e.2 = m) :
    Twin (newArray length lazy counter n alternatives)
      (newArray length lazy' counter' m alternatives') := by
  -- a new array has no plan and no elements, so only its templates have to be tame
  have htame : ∀ {n : Node} {alternatives : List (Nat × Node)} (lazy : Bool)
      (counter : Option String), n.Tame → n.Vacant → (∀ e ∈ alternatives, e.2 = n) →
      (newArray length lazy counter n alternatives).Tame := by
    intro n alternatives lazy counter hn hvacant hsame
    refine ⟨sound_newArray length lazy counter hn.sound fun e he => ?_,
      regular_array_iff.2 ⟨⟨hsame, hvacant, by simp, by rintro _ _ ⟨⟩, by rintro _ _ ⟨⟩⟩,
        ⟨hn.regular, fun e he => ?_⟩, by simp, by simp⟩⟩
    · rw [hsame e he]
      exact hn.sound
    · rw [hsame e he]
      exact hn.regular
  refine ⟨htame lazy counter h.left vacant same,
    htame lazy' counter' h.right (vacant.of_outline h.outline) same', ?_⟩
  simp only [newArray, outline, h.outline]

end Node

namespace World

variable {w w' : World}

/-- Each structure of one world has its twin in the other. -/
structure Twins (w w' : World) : Prop where
  left : w.store.shared.Coherent
  right : w'.store.shared.Coherent
  heap : w.store.heap = w'.store.heap
  trees : List.Forall₂ Twin w.trees w'.trees

/-- A new structure in both worlds. -/
theorem Twins.add (h : Twins w w') {n m : Node} (hn : Twin n m) : Twins (w.add n) (w'.add m) :=
  ⟨h.left, h.right, h.heap, List.rel_append h.trees (.cons hn .nil)⟩

/-- **A request** is answered alike, and leaves twins. -/
theorem Twins.request (h : Twins w w') (r : Request) :
    Twins (w.request r).1 (w'.request r).1 ∧ (w.request r).2 = (w'.request r).2 := by
  simp only [World.request]
  cases hm : w'.trees[r.tree]? with
  | none =>
    rw [forall₂_getElem?_none h.trees hm]
    exact ⟨h, rfl⟩
  | some m =>
    obtain ⟨n, hn, htwin⟩ := forall₂_getElem? h.trees hm
    rw [hn]
    have hvisit := (Move.agrees_visit h.trees r.move).through r.hops
    have hafter := hvisit.agree n m w.store w'.store htwin h.left h.right h.heap
    have hsafe := hvisit.left n w.store htwin.left.sound h.left
    have hsafe' := hvisit.right m w'.store htwin.right.sound h.right
    exact ⟨⟨hsafe.coherent, hsafe'.coherent, hafter.heap, forall₂_set_set h.trees hafter.twin⟩,
      hafter.result⟩

/-- **A run** of requests is answered alike, since each leaves twins for the next one. -/
theorem Twins.run (h : Twins w w') (rs : List Request) :
    Twins (w.run rs).1 (w'.run rs).1 ∧ (w.run rs).2 = (w'.run rs).2 := by
  induction rs generalizing w w' with
  | nil => exact ⟨h, rfl⟩
  | cons r rs ih =>
    obtain ⟨hnext, hanswer⟩ := h.request r
    obtain ⟨hlast, hothers⟩ := ih hnext
    refine ⟨hlast, ?_⟩
    simp only [World.run, hanswer, hothers]

/-- Paired worlds have twins in each place. -/
theorem Paired.twins (h : Paired w w') : Twins w w' := by
  -- over the steps that made the worlds
  induction h with
  | start => exact ⟨Shared.coherent_empty, Shared.coherent_empty, rfl, .nil⟩
  | memory _ heap ih => exact ⟨ih.left, ih.right, rfl, ih.trees⟩
  | forget _ number ih =>
    exact ⟨ih.left.insert number Catalog.coherent_empty,
      ih.right.insert number Catalog.coherent_empty, ih.heap, ih.trees⟩
  | leaf _ kind ih => exact ih.add (.refl ⟨sound_ofLeaf kind, .leaf trivial⟩)
  | record _ head ih =>
    exact ih.add (.refl ⟨sound_newRecord head, regular_record_iff.2 (by simp)⟩)
  | array _ length lazy lazy' counter counter' hi hi' vacant same same' ih =>
    obtain ⟨n, hn, htwin⟩ := forall₂_getElem? ih.trees hi'
    obtain rfl := Option.some.inj (hn.symm.trans hi)
    exact ih.add (twin_newArray htwin length lazy lazy' counter counter' vacant same same')
  | request _ r ih => exact (ih.request r).1

/-- Every run of requests gets the same answers in both worlds, and leaves the same memory. -/
theorem Paired.run_eq (h : Paired w w') (rs : List Request) :
    (w.run rs).2 = (w'.run rs).2 ∧ (w.run rs).1.store.heap = (w'.run rs).1.store.heap := by
  obtain ⟨hlast, hanswers⟩ := h.twins.run rs
  exact ⟨hanswers, hlast.heap⟩

/-- Three cells of a byte and two numbers, all there in one world and none in the other: whether a
number is written to the last cell first, or a window is looked through, or an index is too large, the
answers are the same. -/
theorem Paired.run_eq_cells : ∃ (w w' : World) (rs : List Request), Paired w w' ∧
    (w.trees[4]?.bind (element? 0)).isSome = true ∧
    (w'.trees[4]?.bind (element? 0)).isSome = false ∧
    rs = [⟨4, [.step (.element 2), .step (.name "items"), .step (.element 1)],
        .access (.putNumber 0 7)⟩,
      ⟨4, [.view [(1, 2)] 1, .step (.index 1), .step (.element 1)], .access (.getNumber 0)⟩,
      ⟨4, [.view [(1, 2)] 0], .status⟩, ⟨4, [.step (.element 3)], .status⟩, ⟨4, [], .measures⟩] ∧
    (w.run rs).2 = [.ok (.data []), .ok (.data [.number 7]),
      .ok (.status (.allocated ⟨2, false, 0, 6, 0⟩ ⟨⟨1, 64, 18⟩, 6, .claimed⟩)),
      .error (.fault (.outOfRange 3 3)), .ok (.measures 3 6)] ∧
    (w.run rs).2 = (w'.run rs).2 := by
  have hnone : ∀ {P : Nat × Node → Prop}, ∀ e ∈ ([] : List (Nat × Node)), P e := by simp
  have byte := (Paired.start 0).leaf (.scalars .u8 1)
  have number := byte.leaf (.scalars .u16 1)
  have items := number.array 2 false true none none (i := 1) rfl rfl (.leaf rfl) hnone hnone
  have record := items.record ⟨"Cell", .msvcX64, false, 0⟩
  have tagged := record.request ⟨3, [], .register none "tag" 0⟩
  have cell := tagged.request ⟨3, [], .register none "items" 2⟩
  have cells := cell.array 3 false true none none (i := 3) rfl rfl (.record rfl (by
      rintro _ (_ | ⟨_, _ | ⟨_, ⟨⟩⟩⟩)
      exacts [.leaf rfl, .array rfl]))
    hnone hnone
  have resolved := cells.request ⟨4, [], .resolve⟩
  have stored := resolved.request ⟨4, [], .allocate⟩
  -- the answers of one world are computed; those of the other are the theorem's
  refine ⟨_, _, _, stored, by decide +kernel, by decide +kernel, rfl, by decide +kernel, ?_⟩
  exact (stored.run_eq _).1

/-! ### Where laziness shows -/

/-- An array of two elements that are made of a byte with storage. -/
def arrayOfStored (lazy : Bool) : World := ofStoredByte.add (.newArray 2 lazy none storedByte [])

/-- Two bytes, where what is made at some call is something else. -/
def twoBytes (lazy : Bool) (others : List (Nat × Node)) : Node :=
  .newArray 2 lazy none (.ofLeaf (.scalars .u8 1)) others

/-- An array of two bytes, and in the same record another one whose second element is a larger number. -/
def arraysOfBytes (lazy : Bool) : World :=
  let larger := [(2, Node.ofLeaf (.scalars .u16 1))]
  let byte : World := add ⟨⟨.startingAt 0, .empty⟩, []⟩ (.ofLeaf (.scalars .u8 1))
  let arrays := ((byte.add (.ofLeaf (.scalars .u16 1))).add (twoBytes lazy [])).add (twoBytes lazy larger)
  let record := arrays.add (.newRecord ⟨"Rows", .msvcX64, false, 0⟩)
  (record.call 4 [] (.register none "even" (twoBytes lazy []))).call 4 []
    (.register none "uneven" (twoBytes lazy larger))

/-- The record of both arrays is made step by step. -/
theorem reachable_arraysOfBytes (lazy : Bool) : (arraysOfBytes lazy).Reachable := by
  have byte := (Reachable.start 0).leaf (.scalars .u8 1)
  have larger := byte.leaf (.scalars .u16 1)
  have even := larger.uniform 2 lazy 0 rfl
  have uneven := @Reachable.array _ even 2 lazy none _ [(2, .ofLeaf (.scalars .u16 1))]
    (List.mem_of_getElem? (i := 0) rfl) (List.forall_mem_singleton.2 (List.mem_of_getElem? (i := 1) rfl))
  have record := uneven.record ⟨"Rows", .msvcX64, false, 0⟩
  have first := record.field 4 2 "even" rfl
  exact first.field 4 3 "uneven" rfl

/-- Resolve an array, allocate it and ask for the state of its first element. -/
def requestsOfArray : List Request :=
  [⟨1, [], .resolve⟩, ⟨1, [], .allocate⟩, ⟨1, [.step (.element 0)], .status⟩]

/-- The same for a record of arrays, and the array in it whose elements are alike. -/
def requestsOfArrays : List Request :=
  [⟨4, [], .resolve⟩, ⟨4, [], .allocate⟩, ⟨4, [.step (.name "even"), .step (.element 0)], .status⟩]

/-- An array that makes its elements in advance notices at once that they cannot be placed, since they are
stored already, or that they differ; one that makes them later gets its storage.  So it shows whether arrays
are lazy if what they are made from is stored, and also if it varies in another array of the tree. -/
theorem not_run_eq :
    (∀ lazy, (arrayOfStored lazy).Reachable ∧ (arraysOfBytes lazy).Reachable) ∧
    (((arrayOfStored false).run requestsOfArray).2 = [.ok (.shape ⟨1, false, 0, 2, 0⟩),
        .error (.fault (.illegal .claim (.atStage .allocated))),
        .error (.fault (.illegal .getElement (.atStage .allocatable)))] ∧
      ((arrayOfStored true).run requestsOfArray).2 = [.ok (.shape ⟨1, false, 0, 2, 0⟩), .ok .done,
        .error (.fault (.illegal .claim (.atStage .allocated)))]) ∧
    (((arraysOfBytes false).run requestsOfArrays).2 = [.ok (.shape ⟨1, false, 0, 4, 0⟩),
        .error (.fault (.layout (.elementMismatch 1))),
        .error (.fault (.illegal .getElement (.atStage .allocatable)))] ∧
      ((arraysOfBytes true).run requestsOfArrays).2 = [.ok (.shape ⟨1, false, 0, 4, 0⟩), .ok .done,
        .ok (.status (.allocated ⟨1, false, 0, 1, 0⟩ ⟨⟨1, 64, 4⟩, 0, .claimed⟩))]) := by
  obtain ⟨hreachable, hmem⟩ := reachable_ofStoredByte
  -- both kinds of array are made in the same worlds; what follows is what the requests get from each
  refine ⟨fun lazy => ⟨hreachable.array 2 lazy none hmem (by simp), reachable_arraysOfBytes lazy⟩, ?_, ?_⟩
  · exact ⟨by decide +kernel, by decide +kernel⟩
  · exact ⟨by decide +kernel, by decide +kernel⟩

end World

end NativeLayout
