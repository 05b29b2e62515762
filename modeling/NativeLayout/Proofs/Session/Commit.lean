import NativeLayout.Proofs.Session.Rooted
import NativeLayout.Proofs.Tree.Checked

namespace NativeLayout

/-!
# Storage for whole trees

* `Visit.respected_complete` — no operation makes a complete tree incomplete.
* `World.Commits` — a tree gets storage as a whole; `World.Reachable.complete` — if it was pristine, it
  is complete at any later time.
* `World.Commitment`, `World.Reachable.commits` — a pristine tree that is resolved gets storage wherever
  it fits, with everything in it, and nothing goes wrong on the way or later.
-/

open Node

variable {α β : Type}

/-! ### Operations -/

namespace Visit

/-- A record with storage takes no more fields. -/
theorem complete_register (index : Option Nat) (name : String) (child : Node) {n : Node} {store : Store}
    (h : n.Complete) : (register index name child n store).node.Complete := by
  unfold register
  split
  next status head fields =>
    simp only
    split
    next filed hfiled =>
      obtain ⟨rfl, -⟩ := register_eq_ok hfiled
      cases h
    next => exact h
  next => exact h

/-- A complete structure refuses other storage, and stays complete. -/
theorem complete_allocate {n : Node} {store : Store} (h : n.Complete) :
    (allocate n store).node.Complete := by
  simp only [allocate, Node.allocate]
  split
  next =>
    split
    next => exact h
    next =>
      show ((claimWithin n.depth _ .root .allocate 0 n store.shared).state).Complete
      rwa [state_claimWithin_of_allocated h.stage]
  next => exact h

/-- No operation makes a complete tree incomplete. -/
theorem respected_complete : Respected fun n m => n.Complete → m.Complete where
  refl _ h := h
  trans _ _ _ hab hbc h := hbc (hab h)
  field hf hchild h := by
    cases h with
    | record children =>
      refine .record fun g hg => ?_
      rcases List.mem_or_eq_of_mem_set hg with hg | rfl
      · exact children g hg
      · exact hchild (children _ (List.mem_of_getElem? hf))
  element {_ head _ _ _ _ k _ _} he hchild h :=
    h.setElement head.calls k (hchild (h.child (Option.join_eq_some_iff.2 he)))
  register index name child _ _ _ _ := complete_register index name child
  -- a complete structure is stored, and a stored one stays as it is when it is resolved
  resolve n store _ _ h := by
    show ((n.resolve store.shared).state).Complete
    rwa [state_resolve_of_allocated h.stage]
  allocate _ _ _ _ := complete_allocate
  claim region offset n store _ _ h := by
    show ((claimWithin n.depth region .claimed .claim offset n store.shared).state).Complete
    rwa [state_claimWithin_of_allocated h.stage]
  materialize index _ _ hn hstore h := h.materialize index hn hstore

end Visit

/-! ### Worlds -/

namespace World

variable {w w' w'' : World} {i : Nat} {n : Node} {s : Shape}

/-- The tree at an index gets storage as a whole: a region of its own, or bytes of one that is
there. -/
inductive Commits (w : World) (i : Nat) : World → Prop where
  | allocate {n : Node} (hn : w.trees[i]? = some n) (ok : (Visit.allocate n w.store).result = .ok ()) :
      Commits w i (w.call i [] .allocate)
  | claim {n : Node} {region : Region} {offset : Nat} (hn : w.trees[i]? = some n)
      (hregion : region.length < Word.limit) (hoffset : offset < Word.limit)
      (ok : (Visit.claim region offset n w.store).result = .ok ()) :
      Commits w i (w.call i [] (.claim region offset))

/-- A claim that succeeds found room. -/
theorem room_of_claim {store : Store} {region : Region} {offset : Nat} (hs : n.status = .allocatable s)
    (hregion : region.length < Word.limit) (hoffset : offset < Word.limit)
    (h : (Visit.claim region offset n store).result = .ok ()) : Room region offset s.footprint := by
  have hok : (claimWithin n.depth region .claimed .claim offset n store.shared).result = .ok () :=
    ok_of_mapError h
  obtain ⟨fuel, hfuel⟩ : ∃ fuel, n.depth = fuel + 1 := Nat.exists_eq_add_one.2 n.depth_pos
  have hfits : s.footprint ≤ region.length - offset := by
    by_contra hfull
    simp only [hfuel, claimWithin, hs, if_pos (Nat.lt_of_not_le hfull)] at hok
    cases hok
  exact ⟨hfits, by omega⟩

/-- A region of its own has room for the structure. -/
theorem room_of_allocate {heap heap' : Heap} {region : Region}
    (h : heap.allocate s.footprint s.align = .ok (region, heap')) : Room region 0 s.footprint := by
  obtain ⟨hlength, hlimit⟩ := Heap.length_of_allocate h
  have hword : Heap.sizeLimit < Word.limit := by decide
  exact ⟨by omega, by omega⟩

/-- A pristine structure gets a region of its own and is complete then, unless the region would be too
large. -/
theorem allocate_cases {store : Store} (hn : n.Sound) (hstore : store.shared.Coherent)
    (hpristine : n.Pristine) (hs : n.shape? = some s) :
    (Visit.allocate n store).result = .ok () ∧ (Visit.allocate n store).node.Complete ∨
      (Visit.allocate n store).result = .error (.fault (.layout .overflow)) ∧
        Heap.sizeLimit < max s.footprint 1 + s.align := by
  simp only [Visit.allocate, Node.allocate, hpristine.status_eq hs]
  cases hmade : store.heap.allocate s.footprint s.align with
  | error e =>
    obtain ⟨rfl, hlarge⟩ :=
      (Heap.allocate_eq_error_iff (align_isPowerOfTwo hn.self_of hs)).1 hmade
    exact .inr ⟨rfl, hlarge⟩
  | ok made =>
    obtain ⟨region, heap⟩ := made
    obtain ⟨hok, hcomplete⟩ := complete_claimWithin .root .allocate (Nat.le_refl _) hn hpristine hs
      (room_of_allocate hmade) hstore
    exact .inl ⟨congrArg (Except.mapError SessionError.fault) hok, hcomplete⟩

/-- A pristine tree that gets storage is complete then. -/
theorem Reachable.complete (h : w.Reachable) (hn : w.trees[i]? = some n) (hpristine : n.Pristine)
    (hs : n.shape? = some s) (hcommits : w.Commits i w') :
    w'.Reachable ∧ ∃ m, w'.trees[i]? = some m ∧ m.Complete := by
  have hsound := h.sound.trees n (List.mem_of_getElem? hn)
  cases hcommits with
  | @allocate m hm ok =>
    cases hm.symm.trans hn
    refine ⟨h.call i [] trivial, _, getElem?_call_nil hn (v := Visit.allocate) rfl, ?_⟩
    rcases allocate_cases hsound h.sound.coherent hpristine hs with ⟨-, hcomplete⟩ | ⟨herror, -⟩
    · exact hcomplete
    · -- the storage was got, so it was not too large
      cases ok.symm.trans herror
  | @claim m region offset hm hregion hoffset ok =>
    cases hm.symm.trans hn
    have hroom := room_of_claim (hpristine.status_eq hs) hregion hoffset ok
    obtain ⟨-, hcomplete⟩ := complete_claimWithin .claimed .claim (Nat.le_refl _) hsound hpristine hs
      hroom h.sound.coherent
    exact ⟨h.call i [] trivial, _, getElem?_call_nil hn (v := Visit.claim region offset) rfl, hcomplete⟩

/-- What is known of every structure in a tree that got storage as a whole. -/
structure Provided (shared : Shared) (c : Node) : Prop where
  stage : c.stage = .allocated
  /-- An array that is not lazy has all its elements. -/
  eager : ∀ status head template alternatives staged elements,
    c = .array status head template alternatives staged elements → head.lazy = false →
      ∀ k < head.length, (c.child? k).isSome
  /-- Making an element that an array does not have yet succeeds, and so it does with every sum and
  every product checked. -/
  lazy : ∀ k < c.length, (c.materialize k shared).result = .ok () ∧
    Checked.materialize k c shared = c.materialize k shared

/-- What is known of a pristine tree of some shape before it gets storage. -/
structure Commitment (w : World) (i : Nat) (n : Node) (s : Shape) : Prop where
  /-- It gets the bytes of a region from an offset on if they are enough, and so it does with every
  sum and every product checked. -/
  claim : ∀ region offset, region.length < Word.limit → offset + s.footprint ≤ region.length →
    (Visit.claim region offset n w.store).result = .ok () ∧
      Checked.claim region offset n w.store.shared = n.claim region offset w.store.shared
  /-- It gets a region of its own unless that would be too large, with checks or without. -/
  allocate : (∀ e, (Visit.allocate n w.store).result = .error e →
      e = .fault (.layout .overflow) ∧ Heap.sizeLimit - s.align < max s.footprint 1) ∧
    Checked.allocate n w.store.heap w.store.shared = n.allocate w.store.heap w.store.shared
  /-- Once it has storage, everything in it has, and whatever happens later it stays like that. -/
  after : ∀ w' w'', w.Commits i w' → w'.Later w'' → ∃ m, w''.trees[i]? = some m ∧
    ∀ route c, m.at? route = some c → Provided w''.store.shared c

/-- Everything in a complete tree is provided for. -/
theorem provided_of_complete {c : Node} {shared : Shared} (hn : c.Sound) (hshared : shared.Coherent)
    (h : c.Complete) : Provided shared c := by
  refine ⟨h.stage, ?_, fun k hk =>
    ⟨h.materialize_ok hn hk hshared, h.checked_materialize k hn hshared⟩⟩
  rintro status head template alternatives staged elements rfl hlazy k hk
  cases h with
  | array _ _ _ _ all =>
    obtain ⟨e, he⟩ := all hlazy k hk
    exact Option.isSome_iff_exists.2 ⟨e, Option.join_eq_some_iff.2 he⟩

/-- A tree of a reachable world that nobody touched and that is resolved gets storage wherever there is
room for it, whole and without a failure inside it, and then its lazy elements can be made at any
time. -/
theorem Reachable.commits (h : w.Reachable) (hn : w.trees[i]? = some n) (hpristine : n.Pristine)
    (hs : n.shape? = some s) : w.Commitment i n s := by
  have hsound := h.sound.trees n (List.mem_of_getElem? hn)
  have hcoherent := h.sound.coherent
  constructor
  · intro region offset hregion hfits
    have hroom : Room region offset s.footprint := ⟨by omega, by omega⟩
    obtain ⟨hok, -⟩ := complete_claimWithin .claimed .claim (Nat.le_refl _) hsound hpristine hs
      hroom hcoherent
    exact ⟨congrArg (Except.mapError SessionError.fault) hok,
      Checked.claimWithin_eq (Nat.le_refl _) hsound hs hroom.word hcoherent⟩
  · refine ⟨fun e he => ?_, Checked.allocate_eq hsound hcoherent⟩
    rcases allocate_cases hsound hcoherent hpristine hs with ⟨hok, -⟩ | ⟨herror, hlarge⟩
    · cases he.symm.trans hok
    · cases he.symm.trans herror
      exact ⟨rfl, by omega⟩
  · intro w' w'' hcommits hlater
    -- complete from then on, whatever calls there are, and so are all its parts
    obtain ⟨hw', m, hm, hcomplete⟩ := h.complete hn hpristine hs hcommits
    obtain ⟨k, hk, hcomplete'⟩ := hw'.moves Visit.respected_complete hlater hm
    have hlast := (hw'.later hlater).sound
    have hksound := hlast.trees k (List.mem_of_getElem? hk)
    exact ⟨k, hk, fun route c hc =>
      provided_of_complete (hksound.at hc) hlast.coherent ((hcomplete' hcomplete).at hc)⟩

/-- A leaf of two bytes. -/
def half : Leaf := .custom "Half" ⟨2, false, 0, 2, 0⟩

/-- Two numbers of two bytes, or a number and such a leaf. -/
def halves (lazy : Bool) : Node :=
  .array (.allocatable ⟨⟨2, false, 0, 4, 0⟩, 2, ⟨2, false, 0, 2, 0⟩, ⟨"uint16_t", .scalar .u16⟩, []⟩)
    ⟨2, lazy, 1, none⟩ (.ofLeaf (.scalars .u16 1)) [(2, .ofLeaf half)] [] []

/-- A record with such numbers behind a byte, once made when they are used and once in advance. -/
def mixed : Node :=
  .record (.allocatable ⟨⟨2, false, 0, 10, 0⟩, [0, 2, 6], [0, 1, 0]⟩) ⟨"Mixed", .msvcX64, false, 0⟩
    [⟨0, "tag", .leaf (.allocatable ⟨1, false, 0, 1, 0⟩) (.scalars .u8 1)⟩, ⟨1, "later", halves true⟩,
      ⟨2, "now", halves false⟩]

/-- Nothing in the halves is stored. -/
theorem pristine_halves (lazy : Bool) : (halves lazy).Pristine := by
  have hleaf : ∀ kind, (Node.ofLeaf kind).Pristine := fun kind => .leaf ⟨rfl, trivial⟩
  refine .array ⟨rfl, fun call call' => ?_⟩ (hleaf _) (List.forall_mem_singleton.2 (hleaf _)) (by simp)
    (by simp)
  -- a number and the other leaf have the same shape
  have hsame : ∀ call, ((choose call [(2, Node.ofLeaf half)] (.ofLeaf (.scalars .u16 1))).resolve
      .empty).result = .ok ⟨2, false, 0, 2, 0⟩ :=
    fun call => choose_induction
      (P := fun m : Node => (m.resolve .empty).result = .ok ⟨2, false, 0, 2, 0⟩) rfl
      (List.forall_mem_singleton.2 rfl)
  rw [hsame, hsame]

/-- Nothing in the record of both is stored. -/
theorem pristine_mixed : mixed.Pristine := by
  refine .record ⟨rfl, trivial⟩ (List.forall_mem_cons.2 ⟨.leaf ⟨rfl, trivial⟩, ?_⟩)
  exact List.forall_mem_cons.2
    ⟨pristine_halves true, List.forall_mem_singleton.2 (pristine_halves false)⟩

/-- There is a world in which the record of both is made, and allocated. -/
theorem exists_mixed : ∃ w : World, w.Reachable ∧ w.trees[5]? = some mixed ∧
    (Visit.allocate mixed w.store).result = .ok () := by
  have hothers : ∀ {w : World}, Node.ofLeaf half ∈ w.trees →
      ∀ e ∈ [(2, Node.ofLeaf half)], e.2 ∈ w.trees := fun h => List.forall_mem_singleton.2 h
  have byte := (Reachable.start 0).leaf (.scalars .u8 1)
  have number := byte.leaf (.scalars .u16 1)
  have leaf := number.leaf half
  have later := leaf.array 2 true none (List.mem_of_getElem? (i := 1) rfl)
    (hothers (List.mem_of_getElem? (i := 2) rfl))
  have now := later.array 2 false none (List.mem_of_getElem? (i := 1) rfl)
    (hothers (List.mem_of_getElem? (i := 2) rfl))
  have record := now.record ⟨"Mixed", .msvcX64, false, 0⟩
  have first := record.field 5 0 "tag" rfl
  have second := first.field 5 3 "later" rfl
  have third := second.field 5 4 "now" rfl
  exact ⟨_, third.call 5 [] (c := .resolve) trivial, rfl, rfl⟩

/-- The record gets storage in the middle of a region as well as on its own; later a number is made. -/
theorem Reachable.commits_mixed : ∃ (w w' w'' : World) (m : Node), w.Reachable ∧
    w.trees[5]? = some mixed ∧ mixed.Pristine ∧ mixed.shape? = some ⟨2, false, 0, 10, 0⟩ ∧
      w.Commitment 5 mixed ⟨2, false, 0, 10, 0⟩ ∧
      (Visit.claim ⟨7, 0, 13⟩ 3 mixed w.store).result = .ok () ∧ w.Commits 5 w' ∧ w'.Later w'' ∧
      w''.trees[5]? = some m ∧ ∀ route c, m.at? route = some c → Provided w''.store.shared c := by
  obtain ⟨w, hw, hn, hok⟩ := exists_mixed
  have hcommitment := hw.commits hn pristine_mixed rfl
  have hcommits := Commits.allocate hn hok
  have hlater := Relation.ReflTransGen.single
    (Step.call (w := w.call 5 [] .allocate) 5 [.index 1] (c := .element 1) trivial)
  obtain ⟨m, hm, hall⟩ := hcommitment.after _ _ hcommits hlater
  have hclaim := (hcommitment.claim ⟨7, 0, 13⟩ 3 (by decide) (by decide)).1
  exact ⟨w, _, _, m, hw, hn, pristine_mixed, rfl, hcommitment, hclaim, hcommits, hlater, hm, hall⟩

end World

end NativeLayout
