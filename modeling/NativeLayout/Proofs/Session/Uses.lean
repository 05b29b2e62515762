import NativeLayout.Proofs.Session.Asks

namespace NativeLayout

/-!
# Elements are built once

From the moment a tree is resolved, its arrays only build what stays.

* `Use` — what is done with the elements of a stored tree: one is got, one is viewed through windows, all
  in a window are gone through, or one is only looked for.
* `Node.Used` — a tree after some uses, with the elements that they asked for.
* `Node.BuiltOnce` — what the arrays of a stored tree built, and what they have.
* `World.Reachable.built_once` — this holds as soon as the tree has storage and after any uses.
* `World.not_built_once` — but not if an array is made of something stored.
-/

open Node

/-- A use of a stored tree. -/
inductive Use where
  /-- An element, or something else at the end of some steps. -/
  | get (steps : List PathStep) (access : Access)
  /-- The element at an index of the last of some windows. -/
  | view (steps : List PathStep) (cuts : List (Nat × Nat)) (index : Nat) (access : Access)
  /-- All elements in the last of some windows, one after the other. -/
  | iter (steps : List PathStep) (cuts : List (Nat × Nat)) (access : Access)
  /-- The element at an index of the last of some windows, if it exists. -/
  | peek (steps : List PathStep) (cuts : List (Nat × Nat)) (index : Nat)
  /-- The address of the element at an index of the last of some windows. -/
  | address (steps : List PathStep) (cuts : List (Nat × Nat)) (index : Nat)

namespace Use

/-- The tree after a use. -/
def after (n : Node) (store : Store) : Use → Node
  | get steps access => (access.visit.along steps n store).node
  | view steps cuts index access => ((Visit.inView cuts index access.visit).along steps n store).node
  | iter steps cuts access => ((Visit.overView cuts access.visit).along steps n store).node
  | peek steps cuts index => ((Visit.peekInView cuts index).along steps n store).node
  | address steps cuts index => ((Visit.addressInView cuts index).along steps n store).node

/-- The elements that a use asks for: those on its way, and then those in its window, unless it only looks
for them. -/
def Asks : Use → Node → List Nat → Prop
  | get steps _ => InSteps (fun _ _ => False) steps
  | view steps cuts index _ => InSteps (InWindow cuts (· = index)) steps
  | iter steps cuts _ => InSteps (InWindow cuts fun _ => True) steps
  | peek steps _ _ | address steps _ _ => InSteps (fun _ _ => False) steps

/-- What a use leaves of a complete tree. -/
structure Leaves (u : Use) (n m : Node) : Prop where
  sound : m.Sound
  complete : m.Complete
  advances : Advances n m
  stems : ∀ asked born, Stems asked born n → Stems (fun way => asked way ∨ u.Asks m way) born m

/-- What an operation that asks for elements leaves, as all uses are such operations. -/
theorem leaves_of_asks {α : Type} {v : Visit α} {u : Use} {n : Node} {store : Store}
    (hv : v.Asks u.Asks) (hn : n.Sound) (hstore : store.shared.Coherent) (hcomplete : n.Complete) :
    u.Leaves n (v n store).node where
  sound := (hv.safe n store hn hstore).sound
  complete := hv.moves _ Visit.respected_complete n store hn hstore hcomplete
  advances := hv.moves _ Visit.respected_advances n store hn hstore
  stems := hv.stems n store hn hstore hcomplete

/-- **A use.** It asks for its elements and leaves a complete tree. -/
theorem leaves_after (u : Use) {n : Node} {store : Store} (hn : n.Sound)
    (hstore : store.shared.Coherent) (hcomplete : n.Complete) : u.Leaves n (u.after n store) := by
  cases u with
  | get steps access =>
    exact leaves_of_asks (access.steady_visit.asks.along steps) hn hstore hcomplete
  | view steps cuts index access =>
    exact leaves_of_asks ((access.steady_visit.asks_inView cuts index).along steps) hn hstore hcomplete
  | iter steps cuts access =>
    exact leaves_of_asks ((access.steady_visit.asks_overView cuts).along steps) hn hstore hcomplete
  | peek steps cuts index =>
    have hreads := Visit.reads_peekInView cuts index
    exact leaves_of_asks (hreads.steady.asks.along steps) hn hstore hcomplete
  | address steps cuts index =>
    have hreads := Visit.reads_addressInView cuts index
    exact leaves_of_asks (hreads.steady.asks.along steps) hn hstore hcomplete

end Use

namespace Node

/-- A tree after some uses, with the elements that they asked for.  Anything may happen in between to
the memory, to the catalogs and to other trees. -/
inductive Used (n : Node) : (List Nat → Prop) → Node → Prop where
  | none : Used n unasked n
  | use {asked : List Nat → Prop} {m : Node} (h : Used n asked m) (u : Use) {store : Store}
      (hstore : store.shared.Coherent) :
      Used n (fun way => asked way ∨ u.Asks (u.after m store) way) (u.after m store)

/-- There is an array at the end of a route, with these elements. -/
def ArrayAt (n : Node) (route : List Nat) (head : ArrayHead) (elements : List (Option Node)) : Prop :=
  ∃ status template alternatives staged,
    n.at? route = some (.array status head template alternatives staged elements)

/-- What the arrays in a stored tree built and what they have, after some elements were asked for. -/
structure BuiltOnce (born now : Node) (asked : List Nat → Prop) : Prop where
  /-- Each array called what builds its elements once for its plan, unless it had one from the beginning,
  and once for each of its elements; each element is what became of something that was built. -/
  stems : Stems asked born now
  /-- If nothing was resolved and nothing was built at first, these are all calls of the array. -/
  calls : born.Forall UncalledHere → ∀ route head elements, now.ArrayAt route head elements →
    head.calls = 1 + elements.countP Option.isSome
  /-- An array has an element at each of its indices, a lazy one at each that was asked for. -/
  elements : ∀ route head elements, now.ArrayAt route head elements → ∀ k,
    (elements[k]?.join).isSome ↔
      k < head.length ∧ (head.lazy = true → ∃ way, asked (route ++ k :: way))
  /-- So the calls of an array that is not lazy are one and its length, whatever was asked for. -/
  eager : born.Forall UncalledHere → ∀ route head elements, now.ArrayAt route head elements →
    ¬ head.lazy = true → head.calls = 1 + head.length
  /-- A lazy array makes no call before something in it is asked for. -/
  idle : born.Forall UncalledHere → ∀ route head elements, now.ArrayAt route head elements →
    head.lazy = true → (∀ k way, ¬ asked (route ++ k :: way)) → head.calls = 1
  /-- An access to something that is there finds it, and nothing is built for that. -/
  again : ∀ steps route c, now.route? steps = some route → now.at? route = some c →
    ∀ (access : Access) store,
      access.visit.along steps now store = { access.visit c store with node := now }

variable {n m born now : Node} {asked : List Nat → Prop}

/-- Everything that is said of a stored tree follows from the number of calls and elements of each array. -/
theorem builtOnce_of_stems (hnow : now.Sound) (hcomplete : now.Complete) (h : Stems asked born now) :
    BuiltOnce born now asked := by
  -- what an array at the end of a route built and has
  have hhas : ∀ route head elements, now.ArrayAt route head elements →
      elements.length = head.length ∧ Made head (fun way => asked (route ++ way)) elements ∧
        (born.Forall UncalledHere → head.calls = 1 + elements.countP Option.isSome) := by
    rintro route head elements ⟨status, template, alternatives, staged, hc⟩
    obtain ⟨self, -⟩ := sound_array_iff.1 (hnow.at hc)
    obtain ⟨_, -, hstems⟩ := h.at born.forall_true hc
    cases hcomplete.at hc with
    | @array plan p =>
      obtain ⟨hlength, -⟩ := self.placed plan p rfl
      obtain ⟨rfl, hmade⟩ := hstems.made hlength (self.plan plan rfl).1
      refine ⟨hlength, hmade, fun hborn => ?_⟩
      have htallied : head.calls = 1 + (0 + elements.countP Option.isSome) := h.tallied hborn hc
      rwa [Nat.zero_add] at htallied
  constructor
  case stems => exact h
  case calls =>
    intro hborn route head elements hc
    obtain ⟨-, -, hcalls⟩ := hhas route head elements hc
    exact hcalls hborn
  case elements =>
    intro route head elements hc
    obtain ⟨-, hmade, -⟩ := hhas route head elements hc
    exact hmade
  case eager =>
    intro hborn route head elements hc hlazy
    obtain ⟨hlength, hmade, hcalls⟩ := hhas route head elements hc
    rw [hcalls hborn, hmade.countP_eq_length hlength hlazy]
  case idle =>
    intro hborn route head elements hc hlazy hnone
    obtain ⟨-, hmade, hcalls⟩ := hhas route head elements hc
    rw [hcalls hborn, hmade.countP_eq_zero hlazy hnone]
  case again =>
    intro steps route c hroute hc access store
    rw [Visit.along_eq hnow hroute hc, access.steady_visit.node, putAt_self hc]

section used

variable (h : m.Used asked now) (hm : m.Sound) (hcomplete : m.Complete)

include h hm hcomplete

/-- A complete tree stays one, and its structures stay where they are. -/
theorem Used.advances : now.Sound ∧ now.Complete ∧ Advances m now := by
  induction h with
  | none => exact ⟨hm, hcomplete, .refl m⟩
  | use _ u hstore ih =>
    obtain ⟨hsound, hcomplete, hadvances⟩ := ih
    have hleaves := u.leaves_after hsound hstore hcomplete
    exact ⟨hleaves.sound, hleaves.complete, hadvances.trans hleaves.advances⟩

/-- What was asked for by several uses adds up. -/
theorem Used.stems (hborn : Stems unasked born m) : Stems asked born now := by
  -- on the uses, the last one first
  induction h with
  | none => exact hborn
  | use h u hstore ih =>
    obtain ⟨hsound, hcomplete, -⟩ := h.advances hm hcomplete
    exact (u.leaves_after hsound hstore hcomplete).stems _ _ ih

/-- So after any uses each array built what was asked for, once. -/
theorem Used.builtOnce (hborn : Stems unasked born m) : BuiltOnce born now asked := by
  obtain ⟨hsound, hall, -⟩ := h.advances hm hcomplete
  exact builtOnce_of_stems hsound hall (h.stems hm hcomplete hborn)

end used

/-! ### From the beginning -/

/-- Resolving builds prototypes, but no elements. -/
theorem learns_untried : Learns Untried where
  leaf _ := .leaf trivial
  fields h := (forall_record_iff.1 h).2
  record _ h := .record trivial h
  array _ _ h := by
    obtain ⟨self, templates, built, children⟩ := forall_array_iff.1 h
    exact forall_array_iff.2 ⟨self, templates, built, children⟩

/-- Whatever is in a resolved tree without elements is resolved. -/
theorem isSome_shape?_at {c : Node} {route : List Nat} (hn : n.Sound) (huntried : n.Untried)
    (hs : n.shape?.isSome) (hc : n.at? route = some c) : c.shape?.isSome := by
  -- on the route: a field is resolved with its record, and there are no elements to pass
  induction route generalizing n with
  | nil =>
    cases hc
    exact hs
  | cons k route ih =>
    obtain ⟨m, hm, hc⟩ := Option.bind_eq_some_iff.1 hc
    refine ih (hn.child hm) (huntried.child hm) ?_ hc
    cases n with
    | leaf => cases hm
    | record status head fields =>
      obtain ⟨f, hf, rfl⟩ := Option.map_eq_some_iff.1 hm
      obtain ⟨self, -⟩ := sound_record_iff.1 hn
      refine self.isSome_shape? ?_ (List.mem_of_getElem? hf)
      rwa [shape?, Node.status, Status.plan?_map, Option.isSome_map] at hs
    | array =>
      obtain ⟨-, rfl⟩ := huntried.self_of
      cases hm

/-- What is known of a tree before and after it was resolved, and of what becomes of it. -/
structure BuildsOnce (n r : Node) : Prop where
  /-- Each array that had no plan called once what builds its elements, and there are no elements. -/
  planned : Stems unasked n r ∧ r.Untried
  /-- If nothing was resolved and nothing was built at first, these are all calls. -/
  first : n.Forall UncalledHere → ∀ route head elements, r.ArrayAt route head elements →
    head.calls = 1
  /-- Once the tree gets storage, there is what was built for it: nothing was asked for so far.  Whatever
  it is used for later, there is what was built until then, and it stays where it is. -/
  stored : ∀ (w : World) (i : Nat) (w' : World), w.Reachable → w.trees[i]? = some r → w.Commits i w' →
    ∃ m, w'.trees[i]? = some m ∧ BuiltOnce n m unasked ∧ ∀ asked now, m.Used asked now →
      BuiltOnce n now asked ∧ ∀ more later, now.Used more later → Advances now later

end Node

namespace World

variable {w w' : World} {i : Nat} {n : Node} {s : Shape}

/-- A pristine tree that gets storage builds what is there then. -/
theorem Reachable.continues (h : w.Reachable) (hn : w.trees[i]? = some n) (hpristine : n.Pristine)
    (hcommits : w.Commits i w') : ∃ m, w'.trees[i]? = some m ∧ Continues n m := by
  have hsound := h.sound.trees n (List.mem_of_getElem? hn)
  have hcoherent := h.sound.coherent
  cases hcommits with
  | @allocate m hm ok =>
    cases hm.symm.trans hn
    refine ⟨_, getElem?_call_nil hn (v := Visit.allocate) rfl, ?_⟩
    have hok := ok_of_mapError ok
    simp only [Visit.allocate, Node.allocate] at hok ⊢
    split at hok
    next s hs =>
      split at hok
      next => cases hok
      -- an allocation is a claim of a region that nobody else has
      next => exact continues_claimWithin (Nat.le_refl _) hsound hpristine hcoherent hok
    next => cases hok
  | @claim m region offset hm _ _ ok =>
    cases hm.symm.trans hn
    exact ⟨_, getElem?_call_nil hn (v := Visit.claim region offset) rfl,
      continues_claimWithin (Nat.le_refl _) hsound hpristine hcoherent (ok_of_mapError ok)⟩

/-- A tree of a reachable world that nobody touched is resolved, gets storage and is used: its arrays
only build what is there from then on. -/
theorem Reachable.built_once (h : w.Reachable) (hn : w.trees[i]? = some n) (hpristine : n.Pristine)
    (huntried : n.Untried) (hresolved : (Visit.resolve n w.store).result = .ok s) :
    BuildsOnce n (Visit.resolve n w.store).node := by
  have hcoherent := h.sound.coherent
  have hsound := h.sound.trees n (List.mem_of_getElem? hn)
  have hok : (n.resolve w.store.shared).result = .ok s := ok_of_mapError hresolved
  have hafter : Resolved n (n.resolve w.store.shared) := resolved_resolve hsound hcoherent
  have hsound' := hafter.sound
  have hshape := hafter.ok s hok
  have huntried' : (n.resolve w.store.shared).state.Untried := learns_untried.resolve huntried hcoherent
  have hpristine' := lasting_pristineHere.resolve hpristine hcoherent
  have hstems : Stems unasked n (n.resolve w.store.shared).state :=
    continues_resolve hcoherent hok n huntried.stems
  show BuildsOnce n (n.resolve w.store.shared).state
  -- the resolved tree is untried and pristine like the one it comes from
  generalize (n.resolve w.store.shared).state = r at hsound' hshape huntried' hpristine' hstems ⊢
  constructor
  case planned => exact ⟨hstems, huntried'⟩
  case first =>
    rintro hborn route head elements ⟨status, template, alternatives, staged, hc⟩
    have htallied : head.calls = planned status + built staged elements := hstems.tallied hborn hc
    obtain ⟨rfl, rfl⟩ : staged = [] ∧ elements = [] := (huntried'.at hc).self_of
    have hplanned := isSome_shape?_at hsound' huntried' (by rw [hshape]; rfl) hc
    rw [shape?, Node.status, Status.plan?_map, Option.isSome_map] at hplanned
    -- nothing is staged or there yet, so the one call is that of the plan
    rw [htallied, planned, if_pos hplanned]
    rfl
  case stored =>
    intro w j w' hw hr hcommits
    obtain ⟨hw', m, hm, hcomplete⟩ := hw.complete hr hpristine' hshape hcommits
    obtain ⟨m', hm', hcontinues⟩ := hw.continues hr hpristine' hcommits
    cases hm.symm.trans hm'
    have hmsound := hw'.sound.trees m (List.mem_of_getElem? hm)
    have hborn := hcontinues n hstems
    refine ⟨m, hm, builtOnce_of_stems hmsound hcomplete hborn, fun asked now hused => ?_⟩
    obtain ⟨hnow, hall, -⟩ := hused.advances hmsound hcomplete
    exact ⟨hused.builtOnce hmsound hcomplete hborn, fun more later hlater =>
      (hlater.advances hnow hall).2.2⟩

/-- Two rows of two numbers.  If the rows are made when they are used, their numbers are made in advance,
and the other way round. -/
def rows (lazy : Bool) : Node :=
  .newArray 2 lazy none (.newArray 2 (!lazy) none (.ofLeaf (.scalars .u16 1)) []) []

/-- A record with both. -/
def bothRows : Node :=
  .record .unallocated ⟨"Both", .msvcX64, false, 0⟩ [⟨0, "later", rows true⟩, ⟨1, "now", rows false⟩]

/-- A property of every structure in the record, checked on each kind of them. -/
theorem forall_bothRows {P : Node → Prop} (hleaf : P (.ofLeaf (.scalars .u16 1)))
    (hinner : ∀ lazy, P (.newArray 2 lazy none (.ofLeaf (.scalars .u16 1)) []))
    (houter : ∀ lazy, P (rows lazy)) (hrecord : P bothRows) : bothRows.Forall P := by
  have hrows : ∀ lazy, (rows lazy).Forall P := fun lazy =>
    .array (houter lazy) (.array (hinner _) (.leaf hleaf) (by simp) (by simp) (by simp)) (by simp)
      (by simp) (by simp)
  exact .record hrecord (List.forall_mem_cons.2 ⟨hrows true, List.forall_mem_singleton.2 (hrows false)⟩)

/-- A row that is made is used twice, and then all numbers of a row that was there are gone through. -/
def usedRows (n : Node) : Node :=
  let store : Store := ⟨.startingAt 0, .empty⟩
  let first := (Use.get [.index 0, .element 1] .look).after n store
  let second := (Use.get [.index 0, .element 1, .element 0] .look).after first store
  (Use.iter [.index 1, .element 0] [] .look).after second store

/-- The record is made, resolved and stored; then one row and the numbers of the other are used. -/
theorem exists_bothRows : ∃ (w w' : World) (m : Node), w.Reachable ∧ w.trees[5]? = some bothRows ∧
    (Visit.resolve bothRows w.store).result = .ok ⟨2, false, 0, 16, 0⟩ ∧
    (w.call 5 [] .resolve).Commits 5 w' ∧ w'.trees[5]? = some m ∧
    ((usedRows m).at? [0, 0]).isNone ∧ ((usedRows m).at? [0, 1, 1]).isSome ∧
    ((usedRows m).at? [1, 0, 1]).isSome ∧ ((usedRows m).at? [1, 1, 0]).isNone := by
  have number := (Reachable.start 0).leaf (.scalars .u16 1)
  have made := number.uniform 2 false 0 rfl
  have unmade := made.uniform 2 true 0 rfl
  have later := unmade.uniform 2 true 1 rfl
  have now := later.uniform 2 false 2 rfl
  have record := now.record ⟨"Both", .msvcX64, false, 0⟩
  have first := record.field 5 3 "later" rfl
  have second := first.field 5 4 "now" rfl
  exact ⟨_, _, _, second, rfl, rfl, .allocate rfl rfl, rfl, by decide +kernel, by decide +kernel,
    by decide +kernel, by decide +kernel⟩

/-- After that there is the row that was used, with the numbers made for it in advance, and not the other
one; and there are the numbers that were gone through, and not those of the other row. -/
theorem Reachable.built_once_bothRows : ∃ (w w' : World) (m : Node) (asked : List Nat → Prop),
    w.Reachable ∧ w.trees[5]? = some bothRows ∧ bothRows.Pristine ∧ bothRows.Untried ∧
      bothRows.Forall UncalledHere ∧ (w.call 5 [] .resolve).Commits 5 w' ∧ w'.trees[5]? = some m ∧
      bothRows.BuiltOnce m unasked ∧ m.Used asked (usedRows m) ∧
      bothRows.BuiltOnce (usedRows m) asked ∧ Advances m (usedRows m) ∧
      ((usedRows m).at? [0, 0]).isNone ∧ ((usedRows m).at? [0, 1, 1]).isSome ∧
      ((usedRows m).at? [1, 0, 1]).isSome ∧ ((usedRows m).at? [1, 1, 0]).isNone := by
  obtain ⟨w, w', m, hw, hn, hresolved, hcommits, hm, hthere⟩ := exists_bothRows
  have hpristine : bothRows.Pristine :=
    forall_bothRows ⟨rfl, trivial⟩ (fun _ => ⟨rfl, fun _ _ => rfl⟩) (fun _ => ⟨rfl, fun _ _ => rfl⟩)
      ⟨rfl, trivial⟩
  have huntried : bothRows.Untried :=
    forall_bothRows trivial (fun _ => ⟨rfl, rfl⟩) (fun _ => ⟨rfl, rfl⟩) trivial
  have huncalled : bothRows.Forall UncalledHere :=
    forall_bothRows trivial (fun _ => ⟨rfl, rfl⟩) (fun _ => ⟨rfl, rfl⟩) trivial
  have honce := hw.built_once hn hpristine huntried hresolved
  obtain ⟨m', hm', hbuilt, hlater⟩ := honce.stored _ 5 w' (hw.call 5 [] (c := .resolve) trivial)
    (getElem?_call_nil hn (v := Visit.resolve) rfl) hcommits
  cases hm.symm.trans hm'
  let store : Store := ⟨.startingAt 0, .empty⟩
  have hstore : store.shared.Coherent := Shared.coherent_empty
  -- the row, one of its numbers, and all numbers of a row of the other array
  have hfirst := Used.none.use (n := m) (.get [.index 0, .element 1] .look) hstore
  have hsecond := hfirst.use (.get [.index 0, .element 1, .element 0] .look) hstore
  have hthird := hsecond.use (.iter [.index 1, .element 0] [] .look) hstore
  exact ⟨w, w', m, _, hw, hn, hpristine, huntried, huncalled, hcommits, hm, hbuilt, hthird,
    (hlater _ _ hthird).1, (hlater _ _ .none).2 _ _ hthird, hthere⟩

/-! ### Elements that stay away -/

/-- Two elements that are made when they are used. -/
def lazyPair (template : Node) : Node := .newArray 2 true none template []

/-- Both elements are still to be made, and the array called what makes them so many times. -/
def Waiting (n : Node) (calls : Nat) : Prop := n.ArrayAt [] ⟨2, true, calls, none⟩ [none, none]

/-- An element that was asked for is not there. -/
theorem Waiting.not_builtOnce {born n : Node} {calls : Nat} (h : Waiting n calls) :
    ¬ born.BuiltOnce n (· = [0]) := by
  intro hbuilt
  have helement := (hbuilt.elements [] _ _ h 0).2 ⟨by simp, fun _ => ⟨[], rfl⟩⟩
  cases helement

/-- Two lazy arrays, one made of a byte without storage and one of a byte that has some; both get
storage. -/
theorem exists_lazyPair : ∃ (w v v' : World) (m m' : Node), w.Reachable ∧
    (w.trees[2]? = some (lazyPair (.ofLeaf (.scalars .u8 1))) ∧ w.trees[3]? = some (lazyPair storedByte)) ∧
    ((w.call 2 [] .resolve).Commits 2 v ∧ v.trees[2]? = some m ∧ Waiting m 1 ∧
      Waiting ((Use.peek [] [(0, 2)] 0).after m v.store) 1) ∧
    ((w.call 3 [] .resolve).Commits 3 v' ∧ v'.trees[3]? = some m' ∧ Waiting m' 1 ∧
      let once := (Use.get [.element 0] .look).after m' v'.store
      Waiting once 2 ∧ Waiting ((Use.get [.element 0] .look).after once v'.store) 3) := by
  obtain ⟨hstored, -⟩ := reachable_ofStoredByte
  have byte := hstored.leaf (.scalars .u8 1)
  have vacant := byte.uniform 2 true 1 rfl
  have both := vacant.uniform 2 true 0 rfl
  -- after each use the array itself is looked at: it has the calls, and no element
  refine ⟨_, _, _, _, _, both, ⟨rfl, rfl⟩, ⟨.allocate rfl rfl, rfl, ?_, ?_⟩, .allocate rfl rfl, rfl, ?_, ?_, ?_⟩
  all_goals exact ⟨_, _, _, _, rfl⟩

/-- A lazy array gets its storage whatever its elements are made from.  If that is stored already, no
element can be placed, and one that is wanted again and again is made each time, to no avail.  And an
element that is only looked for through a window is not made. -/
theorem not_built_once : ∃ (w v v' : World) (m m' : Node), w.Reachable ∧
    (w.trees[2]? = some (lazyPair (.ofLeaf (.scalars .u8 1))) ∧ w.trees[3]? = some (lazyPair storedByte)) ∧
    ((w.call 2 [] .resolve).Commits 2 v ∧ v.trees[2]? = some m ∧ Waiting m 1 ∧
      let peeked := (Use.peek [] [(0, 2)] 0).after m v.store
      Waiting peeked 1 ∧ ¬ (lazyPair (.ofLeaf (.scalars .u8 1))).BuiltOnce peeked (· = [0])) ∧
    ((w.call 3 [] .resolve).Commits 3 v' ∧ v'.trees[3]? = some m' ∧ Waiting m' 1 ∧
      let once := (Use.get [.element 0] .look).after m' v'.store
      Waiting once 2 ∧ ¬ (lazyPair storedByte).BuiltOnce once (· = [0]) ∧
      Waiting ((Use.get [.element 0] .look).after once v'.store) 3) := by
  obtain ⟨w, v, v', m, m', hw, htrees, ⟨hcommits, hm, hnew, hpeeked⟩, hcommits', hm', hnew', honce, htwice⟩ :=
    exists_lazyPair
  exact ⟨w, v, v', m, m', hw, htrees, ⟨hcommits, hm, hnew, hpeeked, hpeeked.not_builtOnce⟩,
    hcommits', hm', hnew', honce, honce.not_builtOnce, htwice⟩

end World

end NativeLayout
