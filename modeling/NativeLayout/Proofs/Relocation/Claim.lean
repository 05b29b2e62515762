import NativeLayout.Proofs.Catalog.Building
import NativeLayout.Proofs.Relocation.Tree
import NativeLayout.Proofs.Tree.Failure

namespace NativeLayout

/-!
# Storing a structure in another place

* `Relocation` — bytes of a region, and where what is stored in them goes.
* `Outcome.Carried.bind` — two outcomes of which one is the other, elsewhere, stay so when operations go on
  alike.
* `Node.carried_claimWithin` — a structure that gets some of these bytes, and one that gets theirs
  elsewhere: they succeed or fail together, and after a success one is the other, elsewhere.
-/

/-- Some bytes of a region, and the same number of bytes elsewhere. -/
structure Relocation where
  /-- What becomes of a placement. -/
  move : Placement → Placement
  source : Region
  /-- The offset of the first byte. -/
  start : Nat
  target : Region
  /-- The offset that the first byte gets. -/
  landing : Nat
  /-- The number of bytes. -/
  size : Nat
  carries : ∀ x ownership, move ⟨source, start + x, ownership⟩ = ⟨target, landing + x, ownership⟩
  room : start + size ≤ source.length
  space : landing + size ≤ target.length

/-- Two outcomes with the same result.  After a success the second state is the first one, elsewhere. -/
structure Outcome.Carried {σ α : Type} (move : σ → σ) (o o' : Outcome σ α) : Prop where
  left : o.shared.Coherent
  right : o'.shared.Coherent
  result : o'.result = o.result
  state : ∀ a, o.result = .ok a → o'.state = move o.state

namespace Outcome

variable {σ α β : Type} {o o' : Outcome σ α}

/-- The same failure here and elsewhere; what was changed before does not matter any more. -/
theorem Carried.of_fail {shared shared' : Shared} {move : σ → σ} {state state' : σ} (fault : Fault)
    (hshared : shared.Coherent) (hshared' : shared'.Coherent) :
    Outcome.Carried (α := α) move (.fail shared state fault) (.fail shared' state' fault) :=
  ⟨hshared, hshared', rfl, by rintro _ ⟨⟩⟩

/-- What does not depend on the place is the same elsewhere. -/
theorem Carried.of_matches (h : o.Matches Shared.Coherent Eq o') : o.Carried id o' :=
  ⟨h.left, h.right, h.result.symm, fun _ _ => h.state.symm⟩

/-- Operations that go on alike after such outcomes. -/
theorem Carried.bind {move move' : σ → σ} {next next' : Shared → σ → α → Outcome σ β}
    (h : o.Carried move o') (hnext : ∀ a, o.result = .ok a →
      (next o.shared o.state a).Carried move' (next' o'.shared (move o.state) a)) :
    (o.bind next).Carried move' (o'.bind next') := by
  cases hresult : o.result with
  | error fault =>
    rw [bind_eq_of_error hresult, bind_eq_of_error (h.result.trans hresult)]
    exact .of_fail fault h.left h.right
  | ok a =>
    rw [bind_eq_of_ok hresult, bind_eq_of_ok (h.result.trans hresult), h.state a hresult]
    exact hnext a hresult

end Outcome

namespace Node

variable {r : Relocation} {shared shared' : Shared}

/-- A structure without storage inside is the same here and elsewhere. -/
theorem carried_of_unchanged {n : Node} (hn : n.relocate r.move = n) (hshared : shared.Coherent)
    (hshared' : shared'.Coherent) :
    Outcome.Carried (relocate r.move) (.pure shared n ()) (.pure shared' n ()) :=
  ⟨hshared, hshared', rfl, fun _ _ => hn.symm⟩

section children

variable {claimHere claimThere : Nat → Node → Shared → Outcome Node Unit} {x : Nat}

/-- Operations that store a structure here and there. -/
def Carries (r : Relocation) (claimHere claimThere : Nat → Node → Shared → Outcome Node Unit)
    (n : Node) : Prop :=
  ∀ (x : Nat) (s : Shape) (shared shared' : Shared), n.shape? = some s → x + s.footprint ≤ r.size →
    shared.Coherent → shared'.Coherent →
      Outcome.Carried (relocate r.move) (claimHere (r.start + x) n shared)
        (claimThere (r.landing + x) n shared')

/-! ### Fields -/

/-- Fields are placed at the same offsets here and elsewhere. -/
theorem carried_placeFields {from_ stop : Nat} {fields : List (Field Node)} {shapes : List Shape}
    {offsets : List Nat} (hspaced : RecordLayout.Spaced from_ shapes offsets stop)
    (hshapes : List.Forall₂ (fun f s => f.child.shape? = some s) fields shapes)
    (hstop : x + stop ≤ r.size) (hclaim : ∀ f ∈ fields, Carries r claimHere claimThere f.child)
    (hshared : shared.Coherent) (hshared' : shared'.Coherent) :
    Outcome.Carried (relocateFields r.move)
      (placeFields claimHere (r.start + x) fields offsets shared)
      (placeFields claimThere (r.landing + x) fields offsets shared') := by
  -- each field has room for its leading padding, so its bytes are counted from the same byte
  induction hshapes generalizing from_ offsets shared shared' with
  | nil => cases offsets <;> exact ⟨hshared, hshared', rfl, fun _ _ => rfl⟩
  | @cons f s rest shapes hs _ ih =>
    cases offsets with
    | nil => exact hspaced.elim
    | cons offset offsets =>
      obtain ⟨hbefore, hbehind⟩ := hspaced.inside (k := 0) rfl rfl
      obtain ⟨hfirst, hrest⟩ := List.forall_mem_cons.1 hclaim
      have hfits : x + offset - s.pre + s.footprint ≤ r.size := by
        rw [Shape.footprint_eq]
        omega
      have hfield := hfirst (x + offset - s.pre) s shared shared' hs hfits hshared hshared'
      have hhere : r.start + x + offset - s.pre = r.start + (x + offset - s.pre) := by omega
      have hthere : r.landing + x + offset - s.pre = r.landing + (x + offset - s.pre) := by omega
      simp only [placeFields, hs, Option.map_some, Option.getD_some, hhere, hthere,
        if_neg (show ¬ r.start + x + offset < s.pre by omega),
        if_neg (show ¬ r.landing + x + offset < s.pre by omega), hfield.result]
      split
      next fault _ => exact .of_fail fault hfield.left hfield.right
      next hresult =>
        have hothers := ih hspaced.2 hrest hfield.left hfield.right
        refine ⟨hothers.left, hothers.right, hothers.result, fun a ha => ?_⟩
        simp only [Outcome.mapState, hothers.state a ha, hfield.state _ hresult]
        rfl

/-! ### Elements -/

/-- Elements are placed at the same indices here and elsewhere. -/
theorem carried_placeElements {stride : Nat} {element : Shape} {elements : List Node}
    (hstride : element.footprint ≤ stride) (hshape : ∀ e ∈ elements, e.shape? = some element)
    (hfits : x + elements.length * stride ≤ r.size)
    (hclaim : ∀ e ∈ elements, Carries r claimHere claimThere e)
    (hshared : shared.Coherent) (hshared' : shared'.Coherent) :
    Outcome.Carried (List.map (relocate r.move))
      (placeElements claimHere stride (r.start + x) elements shared)
      (placeElements claimThere stride (r.landing + x) elements shared') := by
  induction elements generalizing x shared shared' with
  | nil => exact ⟨hshared, hshared', rfl, fun _ _ => rfl⟩
  | cons e rest ih =>
    obtain ⟨hfirst, hrest⟩ := List.forall_mem_cons.1 hclaim
    obtain ⟨heshape, hrestshape⟩ := List.forall_mem_cons.1 hshape
    rw [List.length_cons, Nat.succ_mul] at hfits
    have helement := hfirst x element shared shared' heshape (by omega) hshared hshared'
    simp only [placeElements, helement.result]
    split
    next fault _ => exact .of_fail fault helement.left helement.right
    next hresult =>
      -- the other elements start one stride on, here and elsewhere
      have hothers := ih (x := x + stride) hrestshape (by omega) hrest helement.left helement.right
      rw [Nat.add_assoc, Nat.add_assoc]
      refine ⟨hothers.left, hothers.right, hothers.result, fun a ha => ?_⟩
      simp only [Outcome.mapState, hothers.state a ha, helement.state _ hresult, List.map_cons]

/-! ### Children -/

/-- The children of a structure with all its elements. -/
theorem carried_placeChildren {d : Nat} {n : Node} {s : Shape} (hdepth : n.depth ≤ d + 1)
    (hn : n.Sound) (hready : n.Ready) (hs : n.status = .allocatable s) (hfits : x + s.size ≤ r.size)
    (hclaim : ∀ m : Node, m.depth ≤ d → m.Sound → Carries r claimHere claimThere m)
    (hshared : shared.Coherent) (hshared' : shared'.Coherent) :
    Outcome.Carried (relocate r.move) (placeChildren claimHere (r.start + x) n shared)
      (placeChildren claimThere (r.landing + x) n shared') := by
  cases n with
  | leaf status kind =>
    obtain rfl : status = .allocatable s := hs
    exact carried_of_unchanged rfl hshared hshared'
  | record status head fields =>
    obtain ⟨l, rfl, rfl⟩ : ∃ l, status = .allocatable l ∧ l.shape = s := by
      cases status <;> cases hs
      exact ⟨_, rfl, rfl⟩
    obtain ⟨self, children⟩ := sound_record_iff.1 hn
    obtain ⟨shapes, hshapes, hlayout⟩ := self.layout l rfl
    obtain ⟨-, hspaced⟩ := RecordLayout.spaced_compute hlayout
    have hplaced := carried_placeFields hspaced hshapes hfits
      (fun f hf => hclaim f.child (depth_record_le_iff.1 hdepth f hf) (children f hf)) hshared hshared'
    refine ⟨hplaced.left, hplaced.right, hplaced.result, fun a ha => ?_⟩
    exact congrArg (Node.record (.allocatable l) head) (hplaced.state a ha)
  | array status head template alternatives staged elements =>
    obtain ⟨plan, rfl, rfl⟩ : ∃ plan, status = .allocatable plan ∧ plan.shape = s := by
      cases status <;> cases hs
      exact ⟨_, rfl, rfl⟩
    obtain ⟨self, -, built, -⟩ := sound_array_iff.1 hn
    obtain ⟨-, hstaged, -⟩ := depth_array_le_iff.1 hdepth
    cases hready with
    | array hdone =>
      simp only [placeChildren, stageElements_of_done hdone, Outcome.pure, strideOf, Status.plan?]
      split
      next =>
        -- a lazy array has no elements yet that could be carried
        refine carried_of_unchanged ?_ hshared hshared'
        simp only [relocate, relocateElements_eq_map, List.map_replicate, Option.map_none]
        rfl
      next hlazy =>
        obtain ⟨hstride, -, hsize⟩ := arrayShape?_eq_ok (self.plan plan rfl).2
        have hshape : ∀ e ∈ staged, e.shape? = some plan.element := by
          intro e he
          obtain ⟨-, _, ⟨⟩, hshape⟩ := self.staged e he
          exact hshape
        -- all elements were staged, as many as the array is long
        have hplaced := carried_placeElements (x := x) hstride hshape
          (by rwa [hdone.resolve_left hlazy, Nat.mul_comm, ← hsize])
          (fun e he => hclaim e (hstaged e he) (built e he)) hshared hshared'
        simp only [hplaced.result]
        split
        next fault _ => exact .of_fail fault hplaced.left hplaced.right
        next hresult =>
          refine ⟨hplaced.left, hplaced.right, rfl, fun _ _ => ?_⟩
          simp only [relocate, hplaced.state _ hresult, relocateElements_eq_map, List.map_map]
          rfl

end children

/-! ### Structures -/

/-- A structure that gets some of the bytes, here and elsewhere. -/
theorem carried_claimWithin {fuel : Nat} {n : Node} (hfuel : n.depth ≤ fuel) (hn : n.Sound)
    (ownership : Ownership) (operation : Operation) :
    Carries r (claimWithin fuel r.source ownership operation)
      (claimWithin fuel r.target ownership operation) n := by
  intro x s shared shared' hs hfits hshared hshared'
  -- over the fuel: what is placed may have been built on the way
  induction fuel generalizing n ownership operation x s shared shared' with
  | zero =>
    have hpos := n.depth_pos
    omega
  | succ fuel ih =>
    simp only [claimWithin]
    cases hstatus : n.status with
    | unallocated => exact .of_fail _ hshared hshared'
    | allocated => exact .of_fail _ hshared hshared'
    | allocatable t =>
      obtain rfl : t = s := by
        rw [shape?, hstatus] at hs
        exact Option.some.inj hs
      have hroom := r.room
      have hspace := r.space
      simp only [if_neg (show ¬ r.source.length - (r.start + x) < t.footprint by omega),
        if_neg (show ¬ r.target.length - (r.landing + x) < t.footprint by omega)]
      have hprepared := prepared_prepare hn hshared
      have hsame : Outcome.Carried id (n.prepare shared) (n.prepare shared') :=
        .of_matches (n.oblivious_prepare shared shared' hshared hshared')
      refine hsame.bind fun _ hresult => ?_
      have hsize : x + t.pre + t.size ≤ r.size := by
        rw [Shape.footprint_eq, Shape.extent] at hfits
        omega
      have hplaced : Outcome.Carried (relocate r.move)
          (placeChildren (claimWithin fuel r.source .claimed .claim) (r.start + (x + t.pre))
            (n.prepare shared).state (n.prepare shared).shared)
          (placeChildren (claimWithin fuel r.target .claimed .claim) (r.landing + (x + t.pre))
            (n.prepare shared).state (n.prepare shared').shared) :=
        carried_placeChildren (Nat.le_trans hprepared.depth_le hfuel) hprepared.sound
          (hprepared.ready hresult) (hprepared.alike.status.symm.trans hstatus) hsize
          (fun m hm hsound _ _ _ _ => ih hm hsound .claimed .claim _ _ _ _) hsame.left hsame.right
      rw [Nat.add_assoc, Nat.add_assoc]
      refine hplaced.bind fun _ _ => ⟨hplaced.left, hplaced.right, rfl, fun _ _ => ?_⟩
      simp only [Outcome.pure, withPlacement_relocate, r.carries]

/-! ### Elements that are made later -/

section element

variable {plan : ArrayPlan} {head : ArrayHead} {template : Node} {alternatives : List (Nat × Node)}
  {staged : List Node} {elements : List (Option Node)} {index x : Nat} {ownership : Ownership}

/-- An element is made at the corresponding place elsewhere, from the same template. -/
theorem matches_materialize_array
    (hn : (Node.array (.allocated plan ⟨r.source, r.start + x, ownership⟩) head template alternatives
      staged elements).Sound)
    (hfits : x + plan.shape.size ≤ r.size) (hshared : shared.Coherent) (hshared' : shared'.Coherent) :
    (materialize index (.array (.allocated plan ⟨r.source, r.start + x, ownership⟩) head template
      alternatives staged elements) shared).Matches Shared.Coherent
        (fun n m => m = n.relocate r.move)
        (materialize index (.array (.allocated plan ⟨r.target, r.landing + x, ownership⟩) head template
          alternatives staged (relocateElements r.move elements)) shared') := by
  have hmoved : ∀ (head : ArrayHead) (elements : List (Option Node)),
      (Node.array (.allocated plan ⟨r.source, r.start + x, ownership⟩) head template alternatives
        staged elements).relocate r.move =
        .array (.allocated plan ⟨r.target, r.landing + x, ownership⟩) head template alternatives
          staged (elements.map (Option.map (relocate r.move))) := by
    intro head elements
    simp only [relocate, Status.relocate, r.carries, relocateElements_eq_map]
  rw [relocateElements_eq_map]
  by_cases hindex : index < head.length
  · simp only [materialize, if_pos hindex, List.getElem?_map, Option.join_map_eq_map_join]
    cases elements[index]?.join with
    | some e => exact ⟨hshared, hshared', (hmoved head elements).symm, rfl⟩
    | none =>
      -- an array builds the same element wherever it is stored, and then it is placed here or there
      have hsame : Outcome.Matches Shared.Coherent Eq
          (build prepare (.allocated plan ⟨r.source, r.start + x, ownership⟩) template alternatives
            index head shared)
          (build prepare (.allocated plan ⟨r.target, r.landing + x, ownership⟩) template alternatives
            index head shared') :=
        oblivious_build oblivious_prepare index head shared shared' hshared hshared'
      have hmade := fresh_build hn index hshared
      simp only [Option.map_none]
      generalize build prepare (.allocated plan ⟨r.source, r.start + x, ownership⟩) template
        alternatives index head shared = made at hsame hmade ⊢
      generalize build prepare (.allocated plan ⟨r.target, r.landing + x, ownership⟩) template
        alternatives index head shared' = made' at hsame ⊢
      simp only [← hsame.result, ← hsame.state]
      cases hresult : made.result with
      | error fault => exact ⟨hsame.left, hsame.right, (hmoved made.state elements).symm, rfl⟩
      | ok e =>
        obtain ⟨hsound, hdepth, -, _, ⟨⟩, hshape⟩ := hmade.ok e hresult
        have hslot := hn.self_of.slot_le rfl hindex
        have hplaced : Outcome.Carried (relocate r.move)
            (claim r.source (r.start + (x + index * plan.stride)) e made.shared)
            (claim r.target (r.landing + (x + index * plan.stride)) e made'.shared) :=
          carried_claimWithin (Nat.le_refl _) hsound .claimed .claim _ _ _ _ hshape (by omega)
            hsame.left hsame.right
        simp only [Nat.add_assoc, hplaced.result]
        split
        next => exact ⟨hplaced.left, hplaced.right, (hmoved made.state elements).symm, rfl⟩
        next hdone =>
          refine ⟨hplaced.left, hplaced.right, ?_, rfl⟩
          simp only [Outcome.pure, hmoved, List.map_set, Option.map_some, hplaced.state _ hdone]
  · simp only [materialize, if_neg hindex]
    exact ⟨hshared, hshared', (hmoved head elements).symm, rfl⟩

end element

end Node

/-- A sound structure that is stored in the bytes. -/
structure Relocation.Holds (r : Relocation) (n : Node) : Prop where
  sound : n.Sound
  stored : ∃ s x ownership, n.status = .allocated s ⟨r.source, r.start + x, ownership⟩ ∧
    x + s.size ≤ r.size

/-- What making sure of an element does to a structure, it does to the structure elsewhere. -/
theorem Relocation.Holds.materialize {r : Relocation} {n : Node} {shared shared' : Shared}
    (h : r.Holds n) (index : Nat) (hshared : shared.Coherent) (hshared' : shared'.Coherent) :
    (n.materialize index shared).Matches Shared.Coherent (fun n m => m = n.relocate r.move)
      ((n.relocate r.move).materialize index shared') := by
  obtain ⟨hsound, s, x, ownership, hstatus, hfits⟩ := h
  cases n with
  | leaf => exact ⟨hshared, hshared', rfl, rfl⟩
  | record => exact ⟨hshared, hshared', rfl, rfl⟩
  | array status =>
    obtain ⟨plan, rfl, rfl⟩ : ∃ plan, status = .allocated plan ⟨r.source, r.start + x, ownership⟩ ∧
        plan.shape = s := by
      cases status <;> cases hstatus
      exact ⟨_, rfl, rfl⟩
    simp only [Node.relocate, Status.relocate, r.carries]
    exact Node.matches_materialize_array hsound hfits hshared hshared'

end NativeLayout
