import NativeLayout.Proofs.Tree.Element
import NativeLayout.Proofs.Tree.Lasting
import NativeLayout.Proofs.Tree.Placement

namespace NativeLayout.Node

/-!
# Placing what nobody touched

A resolved structure without any storage in it gets storage wherever there is room for it: each part
then has the room that the layout around it left.

* `Pristine` — nothing in the structure has storage, and all that an array may build resolves alike.
* `Room` — enough bytes of a region, at offsets that are words.
* `Complete` — everything in the structure is stored, up to elements of lazy arrays, which have their
  room and can still be built.
* `complete_claimWithin` — a pristine structure that has room gets storage and is complete then.
* `Complete.materialize` — whichever element is made later, this succeeds and the array stays complete.
-/

/-- A structure without storage; if it is an array, whatever it builds resolves alike. -/
def PristineHere (n : Node) : Prop := n.placement? = none ∧ n.SteadyHere

/-- Nothing in the structure has storage, and whatever one of its arrays builds resolves alike. -/
abbrev Pristine (n : Node) : Prop := n.Forall PristineHere

variable {n : Node} {s : Shape} {shared : Shared} {d fuel start offset : Nat} {region : Region}

/-- Whatever becomes of a structure before it is stored, it stays without storage. -/
theorem lasting_pristineHere : Lasting PristineHere where
  leaf _ := ⟨rfl, trivial⟩
  record hnone := ⟨by rwa [placement?, Node.status, Status.placement?_map], trivial⟩
  fields _ h := h
  planned hnone h := ⟨by rwa [placement?, Node.status, Status.placement?_map], h.2⟩
  array _ _ h := h

/-- In a pristine structure whatever an array builds resolves alike. -/
theorem Pristine.steady (h : n.Pristine) : n.Steady := h.imp fun _ hm => hm.2

/-- A pristine structure with a shape is resolved and not stored. -/
theorem Pristine.status_eq (h : n.Pristine) (hs : n.shape? = some s) :
    n.status = .allocatable s := by
  obtain ⟨hnone, -⟩ := h.self_of
  unfold shape? at hs
  unfold placement? at hnone
  cases hstatus : n.status with
  | unallocated =>
    rw [hstatus] at hs
    cases hs
  | allocatable t =>
    rw [hstatus] at hs
    cases hs
    rfl
  | allocated t p =>
    rw [hstatus] at hnone
    cases hnone

/-! ### Room -/

/-- There are some bytes from an offset of a region on, and the offset behind them is a word. -/
structure Room (region : Region) (offset bytes : Nat) : Prop where
  fits : bytes ≤ region.length - offset
  word : offset + bytes < Word.limit

/-- Whatever is inside has room as well. -/
theorem Room.inside {inner bytes total : Nat} (h : Room region offset total) (hstart : offset ≤ inner)
    (hstop : inner + bytes ≤ offset + total) : Room region inner bytes := by
  obtain ⟨hfits, hword⟩ := h
  constructor <;> omega

/-- A structure whose footprint has room has room for its value. -/
theorem Room.value (h : Room region offset s.footprint) : Room region (offset + s.pre) s.size := by
  refine h.inside (Nat.le_add_right _ _) ?_
  rw [Shape.footprint]
  omega

/-- The first of some fields has room, with its leading padding, where the layout puts it. -/
theorem Room.first {from_ stop : Nat} {shapes : List Shape} {offsets : List Nat}
    (h : Room region start stop)
    (hspaced : RecordLayout.Spaced from_ (s :: shapes) (offset :: offsets) stop) :
    s.pre ≤ start + offset ∧ Room region (start + offset - s.pre) s.footprint := by
  obtain ⟨hbefore, hbehind⟩ := hspaced.inside (k := 0) rfl rfl
  refine ⟨by omega, h.inside (by omega) ?_⟩
  rw [Shape.footprint_eq]
  omega

/-! ### Complete structures -/

/-- A structure that is stored with everything in it.  An array that is not lazy has all its elements;
the others can be built at any time, and there is room for them. -/
inductive Complete : Node → Prop where
  | leaf {shape : Shape} {p : Placement} {kind : Leaf} : Complete (.leaf (.allocated shape p) kind)
  | record {layout : RecordLayout} {p : Placement} {head : RecordHead} {fields : List (Field Node)}
      (children : ∀ f ∈ fields, Complete f.child) : Complete (.record (.allocated layout p) head fields)
  | array {plan : ArrayPlan} {p : Placement} {head : ArrayHead} {template : Node}
      {alternatives : List (Nat × Node)} {staged : List Node} {elements : List (Option Node)}
      (room : Room p.region p.offset plan.shape.size)
      (alike : ResolvesAlike template alternatives) (default : template.Pristine)
      (others : ∀ e ∈ alternatives, e.2.Pristine)
      (all : head.lazy = false → ∀ i < head.length, ∃ e, elements[i]? = some (some e))
      (children : ∀ e, some e ∈ elements → Complete e) :
      Complete (.array (.allocated plan p) head template alternatives staged elements)

/-- A complete structure is stored. -/
theorem Complete.stage (h : n.Complete) : n.stage = .allocated := by
  cases h <;> rfl

/-- What is inside a complete structure is complete. -/
theorem Complete.child {c : Node} {k : Nat} (h : n.Complete) (hc : n.child? k = some c) :
    c.Complete := by
  cases h with
  | leaf => cases hc
  | record children =>
    obtain ⟨f, hf, rfl⟩ := Option.map_eq_some_iff.1 hc
    exact children f (List.mem_of_getElem? hf)
  | array _ _ _ _ _ children =>
    exact children c (List.mem_of_getElem? (Option.join_eq_some_iff.1 hc))

/-- So is whatever a route leads to. -/
theorem Complete.at {m : Node} {route : List Nat} (h : n.Complete) (hm : n.at? route = some m) :
    m.Complete := by
  induction route generalizing n with
  | nil =>
    cases hm
    exact h
  | cons k route ih =>
    obtain ⟨c, hc, hm⟩ := Option.bind_eq_some_iff.1 hm
    exact ih (h.child hc) hm

/-! ### Placing the children -/

/-- An operation that gives storage to every pristine structure that is resolved, has room and is not
too deep. -/
def Completes (region : Region) (d : Nat) (claimChild : Nat → Node → Shared → Outcome Node Unit) :
    Prop :=
  ∀ m : Node, m.depth ≤ d → m.Sound → m.Pristine → ∀ s, m.shape? = some s →
    ∀ offset, Room region offset s.footprint → ∀ shared : Shared, shared.Coherent →
      Claimed region offset .claimed m (claimChild offset m shared) ∧
        (claimChild offset m shared).result = .ok () ∧ (claimChild offset m shared).state.Complete

section children

variable {claimChild : Nat → Node → Shared → Outcome Node Unit}

/-- The fields of a record with room for it: each is behind the one before, so each has room of its own. -/
theorem complete_placeFields {from_ stop : Nat} {fields : List (Field Node)} {shapes : List Shape}
    {offsets : List Nat} (hclaim : Completes region d claimChild)
    (hspaced : RecordLayout.Spaced from_ shapes offsets stop)
    (hshapes : List.Forall₂ (fun f s => f.child.shape? = some s) fields shapes)
    (hfields : ∀ f ∈ fields, f.child.depth ≤ d ∧ f.child.Sound ∧ f.child.Pristine)
    (hroom : Room region start stop) (hshared : shared.Coherent) :
    (placeFields claimChild start fields offsets shared).result = .ok () ∧
      ∀ g ∈ (placeFields claimChild start fields offsets shared).state, g.child.Complete := by
  -- on the fields with their shapes, from an offset that moves on with them
  induction hshapes generalizing from_ offsets shared with
  | nil =>
    simp only [placeFields]
    exact ⟨rfl, fun g hg => by cases hg⟩
  | @cons f s rest shapes hs _ ih =>
    cases offsets with
    | nil => exact hspaced.elim
    | cons offset offsets =>
      obtain ⟨⟨hdepth, hsound, hpristine⟩, hrest⟩ := List.forall_mem_cons.1 hfields
      -- the first field ends inside the record, and the others are behind it
      obtain ⟨hpre, hfirst⟩ := hroom.first hspaced
      obtain ⟨hclaimed, hok, hcomplete⟩ :=
        hclaim f.child hdepth hsound hpristine s hs _ hfirst shared hshared
      obtain ⟨hothers, hall⟩ := ih hspaced.2 hrest hclaimed.coherent
      simp only [placeFields, hs, Option.map_some, Option.getD_some, if_neg (Nat.not_lt.2 hpre), hok]
      exact ⟨hothers, List.forall_mem_cons.2 ⟨hcomplete, hall⟩⟩

/-- The elements of an array with room for it: each has the room of its stride. -/
theorem complete_placeElements {stride : Nat} {element : Shape} {elements : List Node}
    (hclaim : Completes region d claimChild) (hstride : element.footprint ≤ stride)
    (helements : ∀ e ∈ elements,
      e.depth ≤ d ∧ e.Sound ∧ e.Pristine ∧ e.shape? = some element)
    (hroom : Room region start (elements.length * stride)) (hshared : shared.Coherent) :
    (placeElements claimChild stride start elements shared).result = .ok () ∧
      (placeElements claimChild stride start elements shared).state.length = elements.length ∧
      ∀ e ∈ (placeElements claimChild stride start elements shared).state, e.Complete := by
  -- on the elements, each start one stride behind the one before
  induction elements generalizing start shared with
  | nil => exact ⟨rfl, rfl, fun e he => by cases he⟩
  | cons e rest ih =>
    obtain ⟨⟨hdepth, hsound, hpristine, hs⟩, hrest⟩ := List.forall_mem_cons.1 helements
    -- the room is that of the first element and that of the others, one stride further
    rw [List.length_cons, Nat.succ_mul] at hroom
    have hfirst : Room region start element.footprint := hroom.inside (Nat.le_refl _) (by omega)
    obtain ⟨hclaimed, hok, hcomplete⟩ :=
      hclaim e hdepth hsound hpristine element hs start hfirst shared hshared
    have hlater : Room region (start + stride) (rest.length * stride) :=
      hroom.inside (Nat.le_add_right _ _) (by omega)
    obtain ⟨hothers, hlength, hall⟩ := ih hrest hlater hclaimed.coherent
    simp only [placeElements, hok]
    exact ⟨hothers, congrArg (· + 1) hlength, List.forall_mem_cons.2 ⟨hcomplete, hall⟩⟩

/-- A record whose fields are placed is complete. -/
theorem complete_placeChildren_record {layout : RecordLayout} {head : RecordHead}
    {fields : List (Field Node)} {p : Placement} (hclaim : Completes region d claimChild)
    (hdepth : (Node.record (.allocatable layout) head fields).depth ≤ d + 1)
    (hn : (Node.record (.allocatable layout) head fields).Sound)
    (hpristine : (Node.record (.allocatable layout) head fields).Pristine)
    (hroom : Room region start layout.shape.size) (hshared : shared.Coherent) :
    let o := placeChildren claimChild start (.record (.allocatable layout) head fields) shared
    o.result = .ok () ∧ (o.state.withPlacement p).Complete := by
  obtain ⟨self, hsound⟩ := sound_record_iff.1 hn
  have hfields := (forall_record_iff.1 hpristine).2
  have hdepth := depth_record_le_iff.1 hdepth
  obtain ⟨shapes, hshapes, hlayout⟩ := self.layout layout rfl
  obtain ⟨-, hspaced⟩ := RecordLayout.spaced_compute hlayout
  obtain ⟨hok, hall⟩ := complete_placeFields hclaim hspaced hshapes
    (fun f hf => ⟨hdepth f hf, hsound f hf, hfields f hf⟩) hroom hshared
  exact ⟨hok, .record hall⟩

/-- An array whose elements are placed is complete; a lazy one has none to place. -/
theorem complete_placeChildren_array {plan : ArrayPlan} {head : ArrayHead} {template : Node}
    {alternatives : List (Nat × Node)} {staged : List Node} {elements : List (Option Node)}
    {p : Placement} (hclaim : Completes region d claimChild)
    (hdepth : (Node.array (.allocatable plan) head template alternatives staged elements).depth ≤ d + 1)
    (hn : (Node.array (.allocatable plan) head template alternatives staged elements).Sound)
    (hready : (Node.array (.allocatable plan) head template alternatives staged elements).Ready)
    (hpristine : (Node.array (.allocatable plan) head template alternatives staged elements).Pristine)
    (hroom : Room region start plan.shape.size) (hp : p.region = region) (ho : p.offset = start)
    (hshared : shared.Coherent) :
    let o := placeChildren claimChild start
      (.array (.allocatable plan) head template alternatives staged elements) shared
    o.result = .ok () ∧ (o.state.withPlacement p).Complete := by
  subst hp ho
  obtain ⟨self, -, hsound, -⟩ := sound_array_iff.1 hn
  obtain ⟨⟨-, halike⟩, ⟨hdefault, hothers⟩, hstaged, -⟩ := forall_array_iff.1 hpristine
  obtain ⟨-, hdepth, -⟩ := depth_array_le_iff.1 hdepth
  obtain ⟨-, hplan⟩ := self.plan plan rfl
  obtain ⟨hstride, -, hsize⟩ := arrayShape?_eq_ok hplan
  cases hready with
  | array hdone =>
    simp only [placeChildren, stageElements_of_done hdone, Outcome.pure, strideOf, Status.plan?]
    -- a lazy array keeps its room for later
    cases hlazy : head.lazy with
    | true =>
      -- a lazy array has no elements yet
      refine ⟨rfl, .array hroom halike hdefault hothers ?_ ?_⟩
      · intro heager
        rw [hlazy] at heager
        cases heager
      · simp [List.mem_replicate]
    | false =>
      have hlength : staged.length = head.length := hdone.resolve_left (by rw [hlazy]; decide)
      have helements : ∀ e ∈ staged,
          e.depth ≤ d ∧ e.Sound ∧ e.Pristine ∧ e.shape? = some plan.element := by
        intro e he
        obtain ⟨-, _, ⟨⟩, hs⟩ := self.staged e he
        exact ⟨hdepth e he, hsound e he, hstaged e he, hs⟩
      have hall : Room p.region p.offset (staged.length * plan.stride) := by
        rwa [hlength, Nat.mul_comm, ← hsize]
      obtain ⟨hok, hsame, hcomplete⟩ := complete_placeElements hclaim hstride helements hall hshared
      simp only [Bool.false_eq_true, if_false, hok]
      refine ⟨trivial, .array hroom halike hdefault hothers (fun _ i hi => ?_) fun e he => ?_⟩
      · rw [← hlength, ← hsame] at hi
        exact ⟨_, by rw [List.getElem?_map, List.getElem?_eq_getElem hi]; rfl⟩
      · obtain ⟨_, he', ⟨⟩⟩ := List.mem_map.1 he
        exact hcomplete e he'

end children

/-- Placing the children of a pristine structure with all its elements, if there is room. -/
theorem complete_placeChildren {claimChild : Nat → Node → Shared → Outcome Node Unit}
    (ownership : Ownership) (hclaim : Completes region d claimChild) (hdepth : n.depth ≤ d + 1)
    (hn : n.Sound) (hready : n.Ready) (hpristine : n.Pristine) (hs : n.status = .allocatable s)
    (hroom : Room region start s.size) (hshared : shared.Coherent) :
    (placeChildren claimChild start n shared).result = .ok () ∧
      ((placeChildren claimChild start n shared).state.withPlacement
        ⟨region, start, ownership⟩).Complete := by
  cases n with
  | leaf status kind =>
    obtain rfl : status = .allocatable s := hs
    exact ⟨rfl, .leaf⟩
  | record status head fields =>
    cases status with
    | unallocated => cases hs
    | allocatable layout =>
      cases hs
      exact complete_placeChildren_record hclaim hdepth hn hpristine hroom hshared
    | allocated => cases hs
  | array status head template alternatives staged elements =>
    cases status with
    | unallocated => cases hs
    | allocatable plan =>
      cases hs
      exact complete_placeChildren_array hclaim hdepth hn hready hpristine hroom rfl rfl hshared
    | allocated => cases hs

/-! ### Storage -/

/-- A pristine structure gets storage wherever it has room, and is complete then. -/
theorem complete_claimWithin (ownership : Ownership) (operation : Operation) (hfuel : n.depth ≤ fuel)
    (hn : n.Sound) (hpristine : n.Pristine) (hs : n.shape? = some s)
    (hroom : Room region offset s.footprint) (hshared : shared.Coherent) :
    (claimWithin fuel region ownership operation offset n shared).result = .ok () ∧
      (claimWithin fuel region ownership operation offset n shared).state.Complete := by
  -- over the fuel: what is built on the way is pristine as well, and has the room of its slot
  induction fuel generalizing n s ownership operation offset shared with
  | zero =>
    have hpos := n.depth_pos
    omega
  | succ fuel ih =>
    have hclaim : Completes region fuel (claimWithin fuel region .claimed .claim) :=
      fun m hm hsound hp t ht offset hroom shared hs =>
        ⟨claimed_claimWithin hm hsound hs, ih .claimed .claim hm hsound hp ht hroom hs⟩
    have hstatus := hpristine.status_eq hs
    have hprepared := prepared_prepare hn hshared
    have hok := hpristine.steady.prepare hn (by rw [hs]; rfl) hshared
    have hafter := lasting_pristineHere.prepare hn hpristine hshared
    simp only [claimWithin, hstatus, if_neg (Nat.not_lt.2 hroom.fits), Outcome.bind_eq_of_ok hok]
    generalize n.prepare shared = ready at hprepared hok hafter ⊢
    obtain ⟨hplaced, hcomplete⟩ := complete_placeChildren ownership hclaim
      (Nat.le_trans hprepared.depth_le hfuel) hprepared.sound (hprepared.ready hok) hafter
      (hprepared.alike.status.symm.trans hstatus) hroom.value hprepared.coherent
    rw [Outcome.bind_eq_of_ok hplaced]
    exact ⟨rfl, hcomplete⟩

/-! ### Elements that are made later -/

section array

variable {plan : ArrayPlan} {p : Placement} {head : ArrayHead} {template : Node}
  {alternatives : List (Nat × Node)} {staged : List Node} {elements : List (Option Node)}

/-- A complete array with another complete element. -/
theorem Complete.setElement {status : Status ArrayPlan} {e : Node} (calls k : Nat)
    (h : (Node.array status head template alternatives staged elements).Complete) (he : e.Complete) :
    (Node.array status { head with calls } template alternatives staged
      (elements.set k (some e))).Complete := by
  cases h with
  | array room alike default others all children =>
    refine .array room alike default others (fun heager i hi => ?_) fun c hc => ?_
    · -- an eager array had an element at each index, and still has
      obtain ⟨c, hc⟩ := all heager i hi
      by_cases hk : k = i
      · subst hk
        exact ⟨e, List.getElem?_set_self (List.getElem?_eq_some_iff.1 hc).1⟩
      · exact ⟨c, by rw [List.getElem?_set_ne hk]; exact hc⟩
    · rcases List.mem_or_eq_of_mem_set hc with hc | hc
      · exact children c hc
      · cases hc
        exact he

/-- The room of an array has a slot for each element. -/
theorem Room.slot {index length : Nat} (h : Room p.region p.offset plan.shape.size)
    (hplan : arrayShape? length plan.element = .ok (plan.stride, plan.shape))
    (hindex : index < length) :
    Room p.region (p.offset + index * plan.stride) plan.element.footprint := by
  obtain ⟨hstride, -, hsize⟩ := arrayShape?_eq_ok hplan
  refine h.inside (Nat.le_add_right _ _) ?_
  calc p.offset + index * plan.stride + plan.element.footprint
      ≤ p.offset + index * plan.stride + plan.stride := Nat.add_le_add_left hstride _
    _ = p.offset + (index + 1) * plan.stride := by rw [Nat.succ_mul, Nat.add_assoc]
    _ ≤ p.offset + length * plan.stride := Nat.add_le_add_left (Nat.mul_le_mul_right _ hindex) _
    _ = p.offset + plan.shape.size := by rw [hsize, Nat.mul_comm]

/-- Making an element of a complete array succeeds: the template was never touched, and the room is its
own. -/
theorem Complete.materialize_array {index : Nat}
    (h : (Node.array (.allocated plan p) head template alternatives staged elements).Complete)
    (hn : (Node.array (.allocated plan p) head template alternatives staged elements).Sound)
    (hindex : index < head.length) (hshared : shared.Coherent) :
    let o := materialize index
      (.array (.allocated plan p) head template alternatives staged elements) shared
    o.result = .ok () ∧ o.state.Complete := by
  have hafter := fun calls e => h.setElement (e := e) calls index
  cases h with
  | array room alike default others all children =>
    obtain ⟨self, ⟨hdefault, hothers⟩, -, -⟩ := sound_array_iff.1 hn
    simp only [materialize, if_pos hindex]
    -- an element that is there already is left as it is
    cases hjoin : elements[index]?.join with
    | some e => exact ⟨rfl, .array room alike default others all children⟩
    | none =>
      obtain ⟨d, hd⟩ : ∃ d, (Node.array (.allocated plan p) head template alternatives staged
          elements).depth = d + 1 := Nat.exists_eq_add_one.2 (depth_pos _)
      obtain ⟨⟨htemplate, halternatives⟩, -, -⟩ := depth_array_le_iff.1 (Nat.le_of_eq hd)
      -- the element is built first: this succeeds, and what is built is pristine
      have hmade := fresh_build hn index hshared
      have hpristine : Makes head (fun e => e.Pristine)
          (build prepare (.allocated plan p) template alternatives index head shared) :=
        lasting_pristineHere.build
          (fun m _ hm hp _ hs => ⟨prepared_prepare hm hs, lasting_pristineHere.prepare hm hp hs⟩)
          ⟨hdefault, htemplate, default⟩
          (fun e he => ⟨hothers e he, halternatives e he, others e he⟩) index head.calls hshared
      obtain ⟨e, he⟩ : ∃ e, (build prepare (.allocated plan p) template alternatives index head
          shared).result = .ok e :=
        alike.build self rfl (fun m _ hm hsteady hs _ hshared => hsteady.prepare hm hs hshared)
          ⟨hdefault, htemplate, default.steady⟩
          (fun e he => ⟨hothers e he, halternatives e he, (others e he).steady⟩) index head.calls
          hshared
      generalize build prepare (.allocated plan p) template alternatives index head shared = made
        at hmade hpristine he ⊢
      obtain ⟨calls, hcalls⟩ := hmade.counted
      obtain ⟨hsound, -, -, _, ⟨⟩, hshape⟩ := hmade.ok e he
      -- then it is placed in its slot
      obtain ⟨hok, hcomplete⟩ := complete_claimWithin .claimed .claim
        (Nat.le_refl _) hsound (hpristine.ok e he) hshape (room.slot (self.plan plan rfl).2 hindex)
        hmade.coherent
      have hplaced : (claim p.region (p.offset + index * plan.stride) e made.shared).result = .ok () :=
        hok
      simp only [he, hplaced, hcalls]
      exact ⟨rfl, hafter calls _ hcomplete⟩

end array

/-- Whichever element of a complete array is made, this succeeds. -/
theorem Complete.materialize_ok {index : Nat} (h : n.Complete) (hn : n.Sound)
    (hindex : index < n.length) (hshared : shared.Coherent) :
    (n.materialize index shared).result = .ok () := by
  cases n with
  | leaf => exact absurd hindex (Nat.not_lt_zero _)
  | record => exact absurd hindex (Nat.not_lt_zero _)
  | array status head template alternatives staged elements =>
    cases status with
    | allocated plan p => exact (h.materialize_array hn hindex hshared).1
    | unallocated => cases h
    | allocatable => cases h

/-- A complete structure stays complete, whichever element is asked for. -/
theorem Complete.materialize (index : Nat) (h : n.Complete) (hn : n.Sound)
    (hshared : shared.Coherent) : (n.materialize index shared).state.Complete := by
  cases n with
  | leaf => exact h
  | record => exact h
  | array status head template alternatives staged elements =>
    cases status with
    | allocated plan p =>
      by_cases hindex : index < head.length
      · exact (h.materialize_array hn hindex hshared).2
      · simp only [Node.materialize, if_neg hindex]
        exact h
    | unallocated => exact h
    | allocatable => exact h

end NativeLayout.Node
