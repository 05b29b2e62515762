import NativeLayout.Proofs.Tree.Claim
import NativeLayout.Proofs.Tree.Placement

namespace NativeLayout.Node

/-!
# When placing a structure fails

Once a structure fits and all its arrays have their elements, only storage that is inside it
already can keep it from being placed.

* `Free` — no storage is in the way.
* `Jammed` — storage is in the way of the first part that would be placed.
* `Settled`, `settled_claimWithin` — such a structure is placed exactly if it is free, and a failure
  leaves every part as it was exactly if it is jammed.
* `Halfway`, `claimWithin_alike_iff` — a failure of any structure leaves every part as it was, unless
  the structure fits, has its elements, and gets stuck halfway.
-/

/-- A structure that can be placed with everything in it. -/
inductive Free : Node → Prop where
  | leaf {shape : Shape} {kind : Leaf} : Free (.leaf (.allocatable shape) kind)
  | record {layout : RecordLayout} {head : RecordHead} {fields : List (Field Node)}
      (children : ∀ f ∈ fields, Free f.child) : Free (.record (.allocatable layout) head fields)
  | array {plan : ArrayPlan} {head : ArrayHead} {template : Node}
      {alternatives : List (Nat × Node)} {staged : List Node} {elements : List (Option Node)}
      (built : head.lazy = false → ∀ e ∈ staged, Free e) :
      Free (.array (.allocatable plan) head template alternatives staged elements)

/-- A structure that fails to be placed before any part of it is.  The elements of an array only
become parts of it when all of them are placed. -/
inductive Jammed : Node → Prop where
  | stored {n : Node} (h : ∀ shape, n.status ≠ .allocatable shape) : Jammed n
  | record {layout : RecordLayout} {head : RecordHead} {f : Field Node} {rest : List (Field Node)}
      (first : Jammed f.child) : Jammed (.record (.allocatable layout) head (f :: rest))
  | array {plan : ArrayPlan} {head : ArrayHead} {template : Node}
      {alternatives : List (Nat × Node)} {staged : List Node} {elements : List (Option Node)}
      (eager : head.lazy = false) {e : Node} (built : e ∈ staged) (blocked : ¬ e.Free) :
      Jammed (.array (.allocatable plan) head template alternatives staged elements)

/-- A free structure is resolved and has no storage. -/
theorem Free.status {n : Node} (h : n.Free) : ∃ shape, n.status = .allocatable shape := by
  cases h <;> exact ⟨_, rfl⟩

/-- A structure that can be placed does not fail before any part of it is. -/
theorem Free.not_jammed {n : Node} (h : n.Free) : ¬ n.Jammed := by
  induction h with
  | leaf =>
    rintro (hstored | _)
    exact hstored _ rfl
  | record children ih =>
    rintro (hstored | first | _)
    · exact hstored _ rfl
    · exact ih _ (by simp) first
  | array built ih =>
    rintro (hstored | _ | ⟨eager, hmem, blocked⟩)
    · exact hstored _ rfl
    · exact blocked (built eager _ hmem)

/-- Whether a structure of this shape fits the region from an offset on. -/
def Fits (region : Region) (offset : Nat) (n : Node) : Prop :=
  ∀ shape, n.shape? = some shape → shape.footprint ≤ region.length - offset

/-- What storage that is in the way does to a structure that is to be placed. -/
structure Settled (n : Node) (o : Outcome Node Unit) : Prop where
  ok : o.result = .ok () ↔ n.Free
  error : ∀ e, o.result = .error e → (Alike n o.state ↔ n.Jammed)

section children

variable {claimChild : Nat → Node → Shared → Outcome Node Unit} {region : Region} {start : Nat}
  {shared : Shared}

/-- An operation on a part that both keeps it sound and is settled by the storage in it. -/
def Settles (region : Region) (claimChild : Nat → Node → Shared → Outcome Node Unit) (n : Node) :
    Prop :=
  ∀ (offset : Nat) (shared : Shared), shared.Coherent → n.Fits region offset →
    Claimed region offset .claimed n (claimChild offset n shared) ∧
      Settled n (claimChild offset n shared)

/-! ### Fields -/

/-- There is room for the first of some fields. -/
theorem fits_first {from_ stop offset : Nat} {n : Node} {s : Shape} {shapes : List Shape}
    {offsets : List Nat} (hspaced : RecordLayout.Spaced from_ (s :: shapes) (offset :: offsets) stop)
    (hstop : stop ≤ region.length - start) (hs : n.shape? = some s) :
    ¬ start + offset < s.pre ∧ n.Fits region (start + offset - s.pre) := by
  obtain ⟨hbefore, hbehind⟩ := hspaced.inside (k := 0) rfl rfl
  refine ⟨by omega, fun t ht => ?_⟩
  cases hs.symm.trans ht
  rw [Shape.footprint_eq]
  omega

/-- The fields of a record can all be placed exactly if all are free; there is room for each of them. -/
theorem placeFields_ok_iff {from_ stop : Nat} {fields : List (Field Node)} {shapes : List Shape}
    {offsets : List Nat} (hspaced : RecordLayout.Spaced from_ shapes offsets stop)
    (hshapes : List.Forall₂ (fun f s => f.child.shape? = some s) fields shapes)
    (hstop : stop ≤ region.length - start)
    (hclaim : ∀ f ∈ fields, Settles region claimChild f.child) (hshared : shared.Coherent) :
    (placeFields claimChild start fields offsets shared).result = .ok () ↔
      ∀ f ∈ fields, f.child.Free := by
  -- a field that has room is placed exactly if it is free, and then there is room for the next
  induction hshapes generalizing from_ offsets shared with
  | nil =>
    refine ⟨fun _ => by simp, fun _ => ?_⟩
    cases offsets <;> rfl
  | @cons f s rest shapes hs _ ih =>
    cases offsets with
    | nil => exact hspaced.elim
    | cons offset offsets =>
      obtain ⟨hfirst, hrest⟩ := List.forall_mem_cons.1 hclaim
      obtain ⟨hroom, hfits⟩ := fits_first hspaced hstop hs
      obtain ⟨hclaimed, hsettled⟩ := hfirst _ shared hshared hfits
      simp only [placeFields, hs, Option.map_some, Option.getD_some, if_neg hroom]
      rw [List.forall_mem_cons, ← hsettled.ok]
      split
      next fault hresult => simp [hresult, Outcome.fail]
      next hresult =>
        rw [Outcome.result_mapState, ih hspaced.2 hrest hclaimed.coherent]
        simp [hresult]

/-- A record is free if its fields are. -/
theorem free_record_iff {layout : RecordLayout} {head : RecordHead} {fields : List (Field Node)} :
    (Node.record (.allocatable layout) head fields).Free ↔ ∀ f ∈ fields, f.child.Free := by
  constructor
  · rintro (_ | children)
    exact children
  · exact .record

/-- A record is jammed if already its first field is. -/
theorem jammed_record_iff {layout : RecordLayout} {head : RecordHead} {f : Field Node}
    {rest : List (Field Node)} :
    (Node.record (.allocatable layout) head (f :: rest)).Jammed ↔ f.child.Jammed := by
  constructor
  · rintro (hstored | first | _)
    · exact absurd rfl (hstored layout.shape)
    · exact first
  · exact .record

/-- If the first field is placed, the record does not look like before; if it is not, the record
does exactly if the first field does. -/
theorem settled_record {layout : RecordLayout} {head : RecordHead} {fields : List (Field Node)}
    (hn : RecordSound (.allocatable layout) head fields)
    (hfits : layout.shape.size ≤ region.length - start)
    (hclaim : ∀ f ∈ fields, Settles region claimChild f.child) (hshared : shared.Coherent) :
    Settled (.record (.allocatable layout) head fields)
      (placeChildren claimChild start (.record (.allocatable layout) head fields) shared) := by
  obtain ⟨shapes, hshapes, hlayout⟩ := hn.layout layout rfl
  obtain ⟨-, hspaced⟩ := RecordLayout.spaced_compute hlayout
  have hok := placeFields_ok_iff hspaced hshapes hfits hclaim hshared
  simp only [placeChildren, Status.plan?]
  refine ⟨hok.trans free_record_iff.symm, fun e he => ?_⟩
  generalize layout.offsets = offsets at hspaced he ⊢
  cases hshapes with
  | nil => cases offsets <;> cases he
  | @cons f s rest shapes hs _ =>
    cases offsets with
    | nil => exact hspaced.elim
    | cons offset offsets =>
      obtain ⟨hroom, hchild⟩ := fits_first hspaced hfits hs
      obtain ⟨hclaimed, hsettled⟩ := hclaim f (by simp) _ shared hshared hchild
      simp only [placeFields, hs, Option.map_some, Option.getD_some, if_neg hroom] at he ⊢
      generalize claimChild (start + offset - s.pre) f.child shared = first at he hclaimed hsettled ⊢
      rw [jammed_record_iff]
      split
      next fault hresult =>
        -- the record has another first field, and the same others
        have hfirst : Alike (.record (.allocatable layout) head (f :: rest))
            (.record (.allocatable layout) head (f.withChild first.state :: rest)) ↔
              Alike f.child first.state :=
          alike_setField_iff (k := 0) rfl
        exact hfirst.trans (hsettled.error fault hresult)
      next hresult =>
        have hfree := hsettled.ok.1 hresult
        obtain ⟨t, ht, hstatus⟩ := hclaimed.ok hresult
        refine ⟨fun halike => ?_, fun hjammed => absurd hjammed hfree.not_jammed⟩
        obtain ⟨c, hc, hfirst⟩ := halike.child (k := 0) rfl
        cases hc
        -- the first field was not stored, and now it is
        cases ht.symm.trans (hfirst.status.trans hstatus)

/-! ### Elements -/

/-- The elements of an array can all be placed exactly if all are free. -/
theorem placeElements_ok_iff {stride : Nat} {element : Shape} {elements : List Node}
    (hstride : element.footprint ≤ stride)
    (hshape : ∀ e ∈ elements, e.shape? = some element)
    (hfits : elements.length * stride ≤ region.length - start)
    (hclaim : ∀ e ∈ elements, Settles region claimChild e) (hshared : shared.Coherent) :
    (placeElements claimChild stride start elements shared).result = .ok () ↔
      ∀ e ∈ elements, e.Free := by
  induction elements generalizing start shared with
  | nil => exact ⟨fun _ => by simp, fun _ => rfl⟩
  | cons e rest ih =>
    obtain ⟨hfirst, hrest⟩ := List.forall_mem_cons.1 hclaim
    obtain ⟨heshape, hrestshape⟩ := List.forall_mem_cons.1 hshape
    rw [List.length_cons, Nat.succ_mul] at hfits
    have hchild : e.Fits region start := by
      intro t ht
      cases heshape.symm.trans ht
      omega
    obtain ⟨hclaimed, hsettled⟩ := hfirst start shared hshared hchild
    simp only [placeElements]
    rw [List.forall_mem_cons, ← hsettled.ok]
    split
    -- the first element that is not free stops the placing
    next fault hresult => simp [hresult, Outcome.fail]
    next hresult =>
      rw [Outcome.result_mapState, ih hrestshape (by omega) hrest hclaimed.coherent]
      simp [hresult]

/-- An array is free if it is lazy, or what it built in advance is. -/
theorem free_array_iff {plan : ArrayPlan} {head : ArrayHead} {template : Node}
    {alternatives : List (Nat × Node)} {staged : List Node} {elements : List (Option Node)} :
    (Node.array (.allocatable plan) head template alternatives staged elements).Free ↔
      (head.lazy = false → ∀ e ∈ staged, e.Free) := by
  constructor
  · rintro (_ | _ | built)
    exact built
  · exact .array

/-- An array that is not placed looks like before. -/
theorem settled_array {plan : ArrayPlan} {head : ArrayHead} {template : Node}
    {alternatives : List (Nat × Node)} {staged : List Node} {elements : List (Option Node)}
    (hn : ArraySound (.allocatable plan) head template alternatives staged elements)
    (hdone : head.lazy = true ∨ staged.length = head.length)
    (hfits : plan.shape.size ≤ region.length - start)
    (hclaim : ∀ e ∈ staged, Settles region claimChild e) (hshared : shared.Coherent) :
    Settled (.array (.allocatable plan) head template alternatives staged elements)
      (placeChildren claimChild start
        (.array (.allocatable plan) head template alternatives staged elements) shared) := by
  simp only [placeChildren, stageElements_of_done hdone, Outcome.pure, strideOf, Status.plan?]
  split
  next hlazy =>
    refine ⟨⟨fun _ => free_array_iff.2 fun heager => ?_, fun _ => rfl⟩, by rintro _ ⟨⟩⟩
    rw [hlazy] at heager
    cases heager
  next hlazy =>
    have heager : head.lazy = false := by simpa using hlazy
    obtain ⟨-, hplan⟩ := hn.plan plan rfl
    obtain ⟨hstride, -, hsize⟩ := arrayShape?_eq_ok hplan
    have hlength := hdone.resolve_left hlazy
    have hshape : ∀ e ∈ staged, e.shape? = some plan.element := by
      intro e he
      obtain ⟨-, _, ⟨⟩, hshape⟩ := hn.staged e he
      exact hshape
    have hok : (placeElements claimChild plan.stride start staged shared).result = .ok () ↔
        ∀ e ∈ staged, e.Free :=
      placeElements_ok_iff hstride hshape (by rwa [hlength, Nat.mul_comm, ← hsize]) hclaim hshared
    have hfree : (Node.array (.allocatable plan) head template alternatives staged elements).Free ↔
        ∀ e ∈ staged, e.Free :=
      free_array_iff.trans ⟨fun h => h heager, fun h _ => h⟩
    rw [← hfree] at hok
    split
    next fault hresult =>
      rw [hresult] at hok
      refine ⟨hok, fun _ _ => ⟨fun _ => ?_, fun _ => alike_array⟩⟩
      -- some staged element is not free
      have hblocked : ¬ ∀ e ∈ staged, e.Free := by
        rw [← hfree, ← hok]
        rintro ⟨⟩
      obtain ⟨e, hblocked⟩ := Classical.not_forall.1 hblocked
      obtain ⟨hmem, hblocked⟩ := Classical.not_imp.1 hblocked
      exact .array heager hmem hblocked
    next hresult =>
      rw [hresult] at hok
      exact ⟨hok, by rintro _ ⟨⟩⟩

end children

/-! ### Structures -/

/-- The children of a structure with all its elements, if they fit. -/
theorem settled_placeChildren {fuel start : Nat} {region : Region}
    {claimChild : Nat → Node → Shared → Outcome Node Unit} {n : Node} {s : Shape}
    (hfuel : n.depth ≤ fuel + 1) (hn : n.Sound) (hready : n.Ready)
    (hs : n.status = .allocatable s) (hsize : s.size ≤ region.length - start)
    (hclaim : ∀ m : Node, m.depth ≤ fuel → m.Sound → m.Ready → Settles region claimChild m)
    {shared : Shared} (hshared : shared.Coherent) :
    Settled n (placeChildren claimChild start n shared) := by
  cases n with
  | leaf status kind =>
    -- without children nothing can fail
    obtain rfl : status = .allocatable s := hs
    exact ⟨⟨fun _ => .leaf, fun _ => rfl⟩, by rintro _ ⟨⟩⟩
  | record status head fields =>
    obtain ⟨self, children⟩ := sound_record_iff.1 hn
    cases hready with
    | record hready =>
      cases status with
      | allocatable layout =>
        cases hs
        exact settled_record self hsize (fun f hf => hclaim f.child
          (depth_record_le_iff.1 hfuel f hf) (children f hf) (hready f hf)) hshared
      | unallocated => cases hs
      | allocated => cases hs
  | array status head template alternatives staged elements =>
    obtain ⟨self, -, built, -⟩ := sound_array_iff.1 hn
    obtain ⟨-, hdepth, -⟩ := depth_array_le_iff.1 hfuel
    cases hready with
    | array hdone hready =>
      cases status with
      | allocatable plan =>
        cases hs
        exact settled_array self hdone hsize (fun e he => hclaim e (hdepth e he)
          (built e he) (hready e he)) hshared
      | unallocated => cases hs
      | allocated => cases hs

/-- A structure with all its elements that fits is placed exactly if it is free, and otherwise every
part is as it was exactly if the structure is jammed. -/
theorem settled_claimWithin {fuel : Nat} {region : Region} {ownership : Ownership}
    {operation : Operation} {offset : Nat} {n : Node} (hfuel : n.depth ≤ fuel) (hn : n.Sound)
    (hready : n.Ready) (hfits : n.Fits region offset) {shared : Shared} (hshared : shared.Coherent) :
    Settled n (claimWithin fuel region ownership operation offset n shared) := by
  -- over the fuel, as for soundness; a part has room because the structure around it has
  induction fuel generalizing n ownership operation offset shared with
  | zero =>
    have hpos := n.depth_pos
    omega
  | succ fuel ih =>
    have hclaim : ∀ m : Node, m.depth ≤ fuel → m.Sound → m.Ready →
        Settles region (claimWithin fuel region .claimed .claim) m :=
      fun m hm hsound hready offset shared hs hfits =>
        ⟨claimed_claimWithin hm hsound hs, ih hm hsound hready hfits hs⟩
    simp only [claimWithin]
    split
    next s hs =>
      have hshape : n.shape? = some s := by
        rw [shape?, hs]
        rfl
      have hroom : ¬ region.length - offset < s.footprint := Nat.not_lt.2 (hfits s hshape)
      rw [if_neg hroom, prepare_of_ready hready, Outcome.bind_eq_of_ok rfl]
      have hsize : s.size ≤ region.length - (offset + s.pre) := by
        rw [Shape.footprint_eq, Shape.extent] at hroom
        omega
      have hplaced : Settled n (placeChildren (claimWithin fuel region .claimed .claim)
          (offset + s.pre) n shared) :=
        settled_placeChildren hfuel hn hready hs hsize hclaim hshared
      show Settled n ((placeChildren (claimWithin fuel region .claimed .claim) (offset + s.pre) n
        shared).bind _)
      generalize placeChildren (claimWithin fuel region .claimed .claim) (offset + s.pre) n shared =
        placed at hplaced ⊢
      cases hresult : placed.result with
      | error fault =>
        rw [Outcome.bind_eq_of_error hresult]
        exact ⟨hresult ▸ hplaced.ok, fun _ _ => hplaced.error fault hresult⟩
      | ok =>
        rw [Outcome.bind_eq_of_ok hresult]
        exact ⟨⟨fun _ => hplaced.ok.1 hresult, fun _ => rfl⟩, by rintro _ ⟨⟩⟩
    next hs =>
      refine ⟨⟨by rintro ⟨⟩, fun hfree => ?_⟩, fun _ _ => ⟨fun _ => .stored hs, fun _ => .refl n⟩⟩
      obtain ⟨s, hstatus⟩ := hfree.status
      exact absurd hstatus (hs s)

/-! ### Any failure -/

/-- A structure that fits and whose elements are all built, so that placing it begins: storage is not
in the way of its first part. -/
structure Halfway (region : Region) (offset : Nat) (shared : Shared) (n : Node) : Prop where
  room : ∃ s, n.status = .allocatable s ∧ s.footprint ≤ region.length - offset
  built : (n.prepare shared).result = .ok ()
  begins : ¬ (n.prepare shared).state.Jammed

section failure

variable {fuel : Nat} {region : Region} {ownership : Ownership} {operation : Operation}
  {offset : Nat} {n : Node} {shared : Shared}

/-- Once its elements are built, nothing more is built for a structure. -/
theorem claimWithin_of_prepare {s : Shape} (hn : n.Sound) (hshared : shared.Coherent)
    (hs : n.status = .allocatable s) (hfits : s.footprint ≤ region.length - offset)
    (hbuilt : (n.prepare shared).result = .ok ()) :
    claimWithin (fuel + 1) region ownership operation offset n shared =
      claimWithin (fuel + 1) region ownership operation offset (n.prepare shared).state
        (n.prepare shared).shared := by
  have hprepared := prepared_prepare hn hshared
  have hstatus := hprepared.alike.status.symm.trans hs
  have hready := hprepared.ready hbuilt
  simp only [claimWithin]
  -- preparing once more does nothing, and so both go on from the same structure
  rw [hs, hstatus, prepare_of_ready hready]
  simp only [if_neg (Nat.not_lt.2 hfits)]
  rw [Outcome.bind_eq_of_ok hbuilt]
  rfl

/-- A structure that fails to get storage looks like before, unless it got stuck halfway. -/
theorem claimWithin_alike_iff {fault : Fault} (hfuel : n.depth ≤ fuel) (hn : n.Sound)
    (hshared : shared.Coherent)
    (h : (claimWithin fuel region ownership operation offset n shared).result = .error fault) :
    Alike n (claimWithin fuel region ownership operation offset n shared).state ↔
      ¬ Halfway region offset shared n := by
  obtain ⟨fuel, rfl⟩ : ∃ i, fuel = i + 1 :=
    Nat.exists_eq_add_one.2 (Nat.lt_of_lt_of_le n.depth_pos hfuel)
  have hprepared := prepared_prepare hn hshared
  -- a call stops at the room, at the elements, or at the parts; only the last may leave a trace
  by_cases hroom : ∃ s, n.status = .allocatable s ∧ s.footprint ≤ region.length - offset
  · obtain ⟨s, hs, hfits⟩ := hroom
    cases hbuilt : (n.prepare shared).result with
    | error e =>
      -- an element could not be built, and nothing is placed yet
      have hstate : (claimWithin (fuel + 1) region ownership operation offset n shared).state =
          (n.prepare shared).state := by
        simp only [claimWithin, hs, if_neg (Nat.not_lt.2 hfits), Outcome.bind_eq_of_error hbuilt]
      rw [hstate]
      refine ⟨fun _ hhalf => ?_, fun _ => hprepared.alike⟩
      cases hbuilt.symm.trans hhalf.built
    | ok =>
      rw [claimWithin_of_prepare hn hshared hs hfits hbuilt] at h ⊢
      have hfits' : (n.prepare shared).state.Fits region offset := by
        intro t ht
        rw [shape?, ← hprepared.alike.status, hs] at ht
        cases ht
        exact hfits
      have hsettled : Settled (n.prepare shared).state (claimWithin (fuel + 1) region ownership
          operation offset (n.prepare shared).state (n.prepare shared).shared) :=
        settled_claimWithin (Nat.le_trans hprepared.depth_le hfuel) hprepared.sound
          (hprepared.ready hbuilt) hfits' hprepared.coherent
      have hhalf : Halfway region offset shared n ↔ ¬ (n.prepare shared).state.Jammed :=
        ⟨Halfway.begins, fun hbegins => ⟨⟨s, hs, hfits⟩, hbuilt, hbegins⟩⟩
      rw [hhalf, Classical.not_not, ← hsettled.error fault h]
      exact ⟨hprepared.alike.symm.trans, hprepared.alike.trans⟩
  · have hstate : (claimWithin (fuel + 1) region ownership operation offset n shared).state = n := by
      simp only [claimWithin]
      split
      next s hs =>
        rw [if_pos (Nat.lt_of_not_le fun hfits => hroom ⟨s, hs, hfits⟩)]
        rfl
      next => rfl
    rw [hstate]
    exact ⟨fun _ hhalf => hroom hhalf.room, fun _ => .refl n⟩

end failure

end NativeLayout.Node
