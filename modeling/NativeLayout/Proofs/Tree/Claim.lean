import NativeLayout.Node.Claim
import NativeLayout.Proofs.Tree.Prepare

namespace NativeLayout.Node

/-!
# Giving storage keeps structures sound

* `Claimed`, `claimed_claimWithin` — what giving storage does to a sound structure: it is stored
  behind its leading padding if this succeeds, and has the status it had if this fails.
* `FieldsPlaced`, `ElementsPlaced` — where the parts of a structure are then.
* `PlacedInside`, `placedInside_placeChildren` — once its children are placed, a structure is sound
  as soon as it is itself stored where they were placed.
-/

/-- What giving storage leaves behind of a sound structure. -/
structure Claimed (region : Region) (offset : Nat) (ownership : Ownership) (n : Node)
    (o : Outcome Node Unit) : Prop where
  coherent : o.shared.Coherent
  sound : o.state.Sound
  depth_le : o.state.depth ≤ n.depth
  ok : o.result = .ok () → ∃ s, n.status = .allocatable s ∧
    o.state.status = .allocated s ⟨region, offset + s.pre, ownership⟩
  error : ∀ e, o.result = .error e → o.state.status = n.status

section claimed

variable {region : Region} {offset : Nat} {ownership : Ownership} {n : Node}
  {o : Outcome Node Unit}

/-- A structure that got storage, or failed to, keeps its shape and its place. -/
theorem Claimed.keeps (h : Claimed region offset ownership n o) : Keeps n o.state := by
  cases hresult : o.result with
  | error e => exact .of_status_eq (h.error e hresult)
  | ok =>
    obtain ⟨s, hn, hstate⟩ := h.ok hresult
    constructor
    · intro t ht
      rw [shape?, hn] at ht
      rw [shape?, hstate]
      exact ht
    · intro p hp
      rw [placement?, hn] at hp
      cases hp

/-- Both ways the structure has only evolved. -/
theorem Claimed.evolves (h : Claimed region offset ownership n o) : Evolves n o.state :=
  ⟨h.sound, h.depth_le, h.keeps⟩

/-- What is left of a structure that failed to get storage: it is as sound and as far as before. -/
theorem Claimed.failed {m : Node} {shared : Shared} {fault : Fault} (hshared : shared.Coherent)
    (hm : m.Sound) (hdepth : m.depth ≤ n.depth) (hstatus : m.status = n.status) :
    Claimed region offset ownership n (.fail shared m fault) :=
  ⟨hshared, hm, hdepth, by rintro ⟨⟩, fun _ _ => hstatus⟩

end claimed

section children

variable {claimChild : Nat → Node → Shared → Outcome Node Unit} {region : Region} {d : Nat}
  {start stride : Nat} {shared : Shared}

/-- An operation that gives storage to every sound structure that is not too deep. -/
def Claims (region : Region) (d : Nat) (claimChild : Nat → Node → Shared → Outcome Node Unit) :
    Prop :=
  ∀ m : Node, m.depth ≤ d → m.Sound → ∀ (offset : Nat) (shared : Shared),
    shared.Coherent → Claimed region offset .claimed m (claimChild offset m shared)

/-! ### Fields -/

/-- What placing the fields of a record leaves behind. -/
structure FieldsPlaced (region : Region) (start : Nat) (fields : List (Field Node))
    (offsets : List Nat) (o : Outcome (List (Field Node)) Unit) : Prop where
  coherent : o.shared.Coherent
  evolves : List.Forall₂ (Lift Evolves) fields o.state
  ok : o.result = .ok () → ∀ (k : Nat) (f : Field Node) (offset : Nat),
    o.state[k]? = some f → offsets[k]? = some offset →
      f.child.placement? = some ⟨region, start + offset, .claimed⟩

/-- **Fields.** Each is placed at its offset, and those behind a failure are left as they were. -/
theorem fieldsPlaced_placeFields {fields : List (Field Node)} {offsets : List Nat}
    (hclaim : Claims region d claimChild)
    (hfields : ∀ f ∈ fields, f.child.Sound ∧ f.child.depth ≤ d) (hshared : shared.Coherent) :
    FieldsPlaced region start fields offsets
      (placeFields claimChild start fields offsets shared) := by
  -- behind a failure the fields are as they were
  have hsame : ∀ fields : List (Field Node), (∀ f ∈ fields, f.child.Sound ∧ f.child.depth ≤ d) →
      List.Forall₂ (Lift Evolves) fields fields :=
    fun fields h => List.forall₂_same.2 fun f hf => ⟨rfl, rfl, .refl (h f hf).1⟩
  induction fields generalizing offsets shared with
  | nil => exact ⟨hshared, .nil, by rintro - k f offset ⟨⟩⟩
  | cons f rest ih =>
    cases offsets with
    | nil => exact ⟨hshared, hsame _ hfields, by rintro - k f offset - ⟨⟩⟩
    | cons offset offsets =>
      obtain ⟨⟨hsound, hdepth⟩, hrest⟩ := List.forall_mem_cons.1 hfields
      simp only [placeFields]
      generalize hpre : (f.child.shape?.map Shape.pre).getD 0 = pre
      split
      next => exact ⟨hshared, hsame _ hfields, by rintro ⟨⟩⟩
      next hroom =>
        have hfirst := hclaim f.child hdepth hsound (start + offset - pre) shared hshared
        split
        next fault _ =>
          exact ⟨hfirst.coherent, .cons (.withChild hfirst.evolves) (hsame _ hrest), by rintro ⟨⟩⟩
        next hok =>
          have hothers : FieldsPlaced region start rest offsets _ := ih hrest hfirst.coherent
          refine ⟨hothers.coherent, .cons (.withChild hfirst.evolves) hothers.evolves, ?_⟩
          rintro hresult (_ | k) g other hg hother
          · cases hg
            cases hother
            -- the leading padding that was taken off is what the child adds again
            obtain ⟨s, hs, hstate⟩ := hfirst.ok hok
            have hshape : pre = s.pre := by rw [← hpre, shape?, hs]; rfl
            have hstart : start + offset - pre + s.pre = start + offset := by omega
            show ((claimChild _ f.child shared).state).placement? = _
            rw [placement?, hstate, hstart]
            rfl
          · exact hothers.ok hresult k g other hg hother

/-! ### Elements -/

/-- What placing the elements of an array leaves behind. -/
structure ElementsPlaced (region : Region) (start stride : Nat) (elements : List Node)
    (o : Outcome (List Node) Unit) : Prop where
  coherent : o.shared.Coherent
  ok : o.result = .ok () → o.state.length = elements.length ∧
    ∀ (i : Nat) (e : Node), o.state[i]? = some e → ∃ e₀ s, elements[i]? = some e₀ ∧
      Evolves e₀ e ∧ e.status = .allocated s ⟨region, start + i * stride + s.pre, .claimed⟩

/-- **Elements.** Each is placed one stride behind the one before. -/
theorem elementsPlaced_placeElements {elements : List Node}
    (hclaim : Claims region d claimChild)
    (helements : ∀ e ∈ elements, e.Sound ∧ e.depth ≤ d) (hshared : shared.Coherent) :
    ElementsPlaced region start stride elements
      (placeElements claimChild stride start elements shared) := by
  -- on the elements, each start one stride further
  induction elements generalizing start shared with
  | nil => exact ⟨hshared, fun _ => ⟨rfl, by rintro i e ⟨⟩⟩⟩
  | cons e rest ih =>
    obtain ⟨⟨hsound, hdepth⟩, hrest⟩ := List.forall_mem_cons.1 helements
    have hfirst := hclaim e hdepth hsound start shared hshared
    simp only [placeElements]
    split
    next => exact ⟨hfirst.coherent, by rintro ⟨⟩⟩
    next hok =>
      have hothers : ElementsPlaced region (start + stride) stride rest _ :=
        ih hrest hfirst.coherent
      refine ⟨hothers.coherent, fun hresult => ?_⟩
      obtain ⟨hlength, hplaced⟩ := hothers.ok hresult
      refine ⟨congrArg (· + 1) hlength, ?_⟩
      rintro (_ | i) e' he'
      · cases he'
        obtain ⟨s, -, hstate⟩ := hfirst.ok hok
        refine ⟨e, s, rfl, hfirst.evolves, ?_⟩
        rw [hstate, Nat.zero_mul, Nat.add_zero]
      · obtain ⟨e₀, s, he₀, hevolves, hstatus⟩ := hplaced i e' he'
        refine ⟨e₀, s, he₀, hevolves, ?_⟩
        have hstart : start + stride + i * stride = start + (i + 1) * stride := by
          rw [Nat.succ_mul]
          omega
        rw [hstatus, hstart]

end children

/-! ### Storage for the structure itself -/

/-- To note a place turns a resolved status into a stored one. -/
theorem status_withPlacement (p : Placement) (n : Node) :
    (n.withPlacement p).status = n.status.place p := by
  cases n with
  | leaf => rfl
  | record status => cases status <;> rfl
  | array status => cases status <;> rfl

/-- A place adds no depth. -/
theorem depth_withPlacement (p : Placement) (n : Node) : (n.withPlacement p).depth = n.depth := by
  cases n <;> rfl

/-- What placing the children of a structure leaves behind. -/
structure PlacedInside (region : Region) (start : Nat) (n : Node) (o : Outcome Node Unit) :
    Prop where
  coherent : o.shared.Coherent
  depth_le : o.state.depth ≤ n.depth
  status : o.state.status = n.status
  ok : o.result = .ok () → ∀ ownership, (o.state.withPlacement ⟨region, start, ownership⟩).Sound
  error : ∀ e, o.result = .error e → o.state.Sound

section inside

variable {claimChild : Nat → Node → Shared → Outcome Node Unit} {region : Region} {d : Nat}
  {start : Nat} {shared : Shared}

/-- **Records.** Once every field is at its offset, the record may get its place. -/
theorem placedInside_record {layout : RecordLayout} {head : RecordHead}
    {fields : List (Field Node)} (hn : (Node.record (.allocatable layout) head fields).Sound)
    (hclaim : Claims region d claimChild)
    (hdepth : ∀ f ∈ fields, f.child.depth ≤ d) (hshared : shared.Coherent) :
    PlacedInside region start (.record (.allocatable layout) head fields)
      (placeChildren claimChild start (.record (.allocatable layout) head fields) shared) := by
  obtain ⟨self, children⟩ := sound_record_iff.1 hn
  have hplaced : FieldsPlaced region start fields layout.offsets _ :=
    fieldsPlaced_placeFields hclaim (fun f hf => ⟨children f hf, hdepth f hf⟩) hshared
  simp only [placeChildren, Status.plan?]
  generalize placeFields claimChild start fields layout.offsets shared = o at hplaced ⊢
  have hsound := sound_record_of_lift hn hplaced.evolves
  refine ⟨hplaced.coherent, depth_record_le_of_lift hplaced.evolves, rfl, ?_, fun _ _ => hsound⟩
  intro hok ownership
  obtain ⟨hself, hchildren⟩ := sound_record_iff.1 hsound
  refine sound_record_iff.2 ⟨⟨hself.ascending, hself.layout, ?_⟩, hchildren⟩
  -- the offsets of the layout are where the fields were placed
  rintro _ _ ⟨⟩ k f offset hf hoffset
  exact hplaced.ok hok k f offset hf hoffset

/-- An array gets its elements and its place at the same time. -/
theorem sound_array_placed {plan : ArrayPlan} {p : Placement} {head : ArrayHead} {template : Node}
    {alternatives : List (Nat × Node)} {staged staged' : List Node}
    {elements elements' : List (Option Node)}
    (hn : (Node.array (.allocatable plan) head template alternatives staged elements).Sound)
    (hstaged : staged' = staged ∨ staged' = []) (hlength : elements'.length = head.length)
    (helements : ∀ (i : Nat) (e : Node), elements'[i]? = some (some e) → e.Sound ∧
      e.shape? = some plan.element ∧
      e.placement? = some ⟨p.region, p.offset + i * plan.stride + plan.element.pre, .claimed⟩) :
    (Node.array (.allocated plan p) head template alternatives staged' elements').Sound := by
  obtain ⟨self, templates, built, -⟩ := sound_array_iff.1 hn
  have hsound : ∀ e, some e ∈ elements' → e.Sound := by
    intro e he
    obtain ⟨i, hi⟩ := List.mem_iff_getElem?.1 he
    exact (helements i e hi).1
  have hplaced : ∀ plan' p', Status.allocated plan p = .allocated plan' p' →
      elements'.length = head.length ∧ ∀ (i : Nat) (e : Node), elements'[i]? = some (some e) →
        e.shape? = some plan'.element ∧ e.placement? =
          some ⟨p'.region, p'.offset + i * plan'.stride + plan'.element.pre, .claimed⟩ := by
    rintro _ _ ⟨⟩
    exact ⟨hlength, fun i e he => (helements i e he).2⟩
  -- a lazy array still has what was staged, an eager one has handed it over
  rcases hstaged with rfl | rfl
  · exact sound_array_iff.2
      ⟨⟨self.plan, self.origin, self.stagedAll, self.staged, by rintro ⟨⟩, hplaced⟩, templates, built,
        hsound⟩
  · exact sound_array_iff.2
      ⟨⟨self.plan, self.origin, .inl rfl, by simp, by rintro ⟨⟩, hplaced⟩, templates, by simp, hsound⟩

/-- Elements that were built for an array and are placed now. -/
theorem elements_of_placed {plan : ArrayPlan} {head : ArrayHead} {template : Node}
    {alternatives : List (Nat × Node)} {staged : List Node} {elements : List (Option Node)}
    {o : Outcome (List Node) Unit}
    (self : ArraySound (.allocatable plan) head template alternatives staged elements)
    (hdepth : ∀ e ∈ staged, e.depth ≤ d)
    (hplaced : ElementsPlaced region start plan.stride staged o) (hok : o.result = .ok ())
    (i : Nat) (e : Node) (he : (o.state.map some)[i]? = some (some e)) :
    e.depth ≤ d ∧ e.Sound ∧ e.shape? = some plan.element ∧ e.placement? =
      some ⟨region, start + i * plan.stride + plan.element.pre, .claimed⟩ := by
  obtain ⟨-, hat⟩ := hplaced.ok hok
  obtain ⟨e₀, s, he₀, hevolves, hstatus⟩ := hat i e (by simpa using he)
  have hmem := List.mem_of_getElem? he₀
  obtain ⟨-, _, ⟨⟩, hshape⟩ := self.staged e₀ hmem
  -- the shape of the element is the one that the array was planned for
  have hs := hevolves.keeps.shape _ hshape
  obtain rfl : s = plan.element := by simpa [shape?, hstatus, Status.plan?] using hs
  refine ⟨Nat.le_trans hevolves.depth_le (hdepth e₀ hmem), hevolves.sound, hs, ?_⟩
  rw [placement?, hstatus]
  rfl

/-- **Arrays.** A lazy one gets only its place; any other one places the elements that it built. -/
theorem placedInside_array {plan : ArrayPlan} {head : ArrayHead} {template : Node}
    {alternatives : List (Nat × Node)} {staged : List Node} {elements : List (Option Node)}
    (hn : (Node.array (.allocatable plan) head template alternatives staged elements).Sound)
    (hclaim : Claims region d claimChild)
    (hdepth : (Node.array (.allocatable plan) head template alternatives staged elements).depth =
      d + 1) (hshared : shared.Coherent) :
    PlacedInside region start (.array (.allocatable plan) head template alternatives staged elements)
      (placeChildren claimChild start
        (.array (.allocatable plan) head template alternatives staged elements) shared) := by
  obtain ⟨-, ⟨hdefault, hothers⟩, -, -⟩ := sound_array_iff.1 hn
  obtain ⟨⟨htemplate, halternatives⟩, hbuilt, -⟩ := depth_array_le_iff.1 (Nat.le_of_eq hdepth)
  simp only [placeChildren]
  -- lazy, or with elements to be placed
  split
  next hlazy =>
    refine ⟨hshared, ?_, rfl, fun _ ownership => ?_, by rintro _ ⟨⟩⟩
    · rw [hdepth]
      exact depth_array_le_iff.2 ⟨⟨htemplate, halternatives⟩, hbuilt, by simp [List.mem_replicate]⟩
    · refine sound_array_placed hn (.inl rfl) (by simp) fun i e he => ?_
      simp [List.getElem?_replicate] at he
  next hlazy =>
    -- the elements are made ready first, which may fail before any of them is placed
    have hready : Staged d (.allocatable plan) head staged _ :=
      staged_stageElements (fun m _ hm _ hs => prepared_prepare hm hs) ⟨hdefault, htemplate⟩
        (fun e he => ⟨hothers e he, halternatives e he⟩) hshared
    generalize stageElements prepare (.allocatable plan) head template alternatives staged shared =
      ready at hready ⊢
    have hprepared := prepared_array hn hdepth hready
    obtain ⟨after, ⟨head', staged'⟩, result⟩ := ready
    obtain ⟨calls, rfl⟩ : ∃ calls, head' = { head with calls } := hready.counted
    obtain ⟨self, templates, built, children⟩ := sound_array_iff.1 hprepared.sound
    have hdepth' : _ ≤ d + 1 := hdepth ▸ hprepared.depth_le
    obtain ⟨_, hbuilt', hchildren⟩ := depth_array_le_iff.1 hdepth'
    cases result with
    | error fault =>
      exact ⟨hprepared.coherent, hprepared.depth_le, rfl, by rintro ⟨⟩, fun _ _ => hprepared.sound⟩
    | ok =>
      have hplaced : ElementsPlaced region start plan.stride staged' _ :=
        elementsPlaced_placeElements hclaim (fun e he => ⟨built e he, hbuilt' e he⟩)
          hready.coherent
      simp only [strideOf, Status.plan?]
      generalize placeElements claimChild plan.stride start staged' after = o at hplaced ⊢
      split
      next fault hresult =>
        refine ⟨hplaced.coherent, ?_, rfl, by rintro ⟨⟩, fun _ _ => ?_⟩
        · rw [hdepth]
          exact depth_array_le_iff.2 ⟨⟨htemplate, halternatives⟩, by simp, hchildren⟩
        · exact sound_array_iff.2
            ⟨⟨self.plan, self.origin, .inl rfl, by simp, self.unplaced, self.placed⟩, templates, by simp,
              children⟩
      next hresult =>
        obtain ⟨hlength, -⟩ := hplaced.ok hresult
        have hall : staged'.length = head.length :=
          (hready.ready rfl).resolve_left hlazy
        have helements := elements_of_placed self hbuilt' hplaced hresult
        refine ⟨hplaced.coherent, ?_, rfl, fun _ ownership => ?_, by rintro _ ⟨⟩⟩
        · rw [hdepth]
          refine depth_array_le_iff.2 ⟨⟨htemplate, halternatives⟩, by simp, fun e he => ?_⟩
          obtain ⟨i, hi⟩ := List.mem_iff_getElem?.1 he
          exact (helements i e hi).1
        · refine sound_array_placed hprepared.sound (.inr rfl) ?_ fun i e he => (helements i e he).2
          rw [List.length_map, hlength]
          exact hall

/-- Placing the children of a structure that is about to be stored itself. -/
theorem placedInside_placeChildren {n : Node} {s : Shape} (hn : n.Sound)
    (hs : n.status = .allocatable s)
    (hclaim : Claims region d claimChild)
    (hdepth : n.depth ≤ d + 1) (hshared : shared.Coherent) :
    PlacedInside region start n (placeChildren claimChild start n shared) := by
  cases n with
  | leaf status kind =>
    -- a leaf has nothing inside it, and becomes stored as it is
    refine ⟨hshared, Nat.le_refl _, rfl, fun _ ownership => .leaf ?_, fun _ _ => hn⟩
    obtain rfl : status = .allocatable s := hs
    rintro _ ⟨⟩
    exact hn.self_of s rfl
  | record status head fields =>
    cases status with
    | allocatable layout => exact placedInside_record hn hclaim (depth_record_le_iff.1 hdepth) hshared
    | unallocated => cases hs
    | allocated => cases hs
  | array status head template alternatives staged elements =>
    obtain ⟨e, he⟩ : ∃ e, (Node.array status head template alternatives staged elements).depth =
        e + 1 := Nat.exists_eq_add_one.2 (depth_pos _)
    cases status with
    | allocatable plan =>
      exact placedInside_array hn (fun m hm => hclaim m (by omega)) he hshared
    | unallocated => cases hs
    | allocated => cases hs

end inside

/-- **Storage.** Whoever asks for it and wherever it is, a structure is left sound: stored with its
children, or not stored at all. -/
theorem claimed_claimWithin {fuel : Nat} {region : Region} {ownership : Ownership}
    {operation : Operation} {offset : Nat} {n : Node} (hfuel : n.depth ≤ fuel) (hn : n.Sound)
    {shared : Shared} (hshared : shared.Coherent) :
    Claimed region offset ownership n
      (claimWithin fuel region ownership operation offset n shared) := by
  -- over the fuel: elements that are built on the way are placed as well, and are not too deep
  induction fuel generalizing n ownership operation offset shared with
  | zero =>
    have hpos := n.depth_pos
    omega
  | succ fuel ih =>
    simp only [claimWithin]
    split
    next s hs =>
      split
      next => exact .failed hshared hn (Nat.le_refl _) rfl
      next =>
        have hprepared := prepared_prepare hn hshared
        generalize n.prepare shared = ready at hprepared ⊢
        have hstatus : ready.state.status = .allocatable s := hprepared.alike.status.symm.trans hs
        cases hresult : ready.result with
        | error fault =>
          rw [Outcome.bind_eq_of_error hresult]
          exact .failed hprepared.coherent hprepared.sound hprepared.depth_le
            hprepared.alike.status.symm
        | ok =>
          rw [Outcome.bind_eq_of_ok hresult]
          -- the children are placed before the structure itself is
          have hplaced : PlacedInside region (offset + s.pre) ready.state
              (placeChildren (claimWithin fuel region .claimed .claim) (offset + s.pre)
                ready.state ready.shared) :=
            placedInside_placeChildren hprepared.sound hstatus
              (fun m hm hsound offset shared hs => ih hm hsound hs)
              (Nat.le_trans hprepared.depth_le hfuel) hprepared.coherent
          have hdepth := Nat.le_trans hplaced.depth_le hprepared.depth_le
          generalize placeChildren (claimWithin fuel region .claimed .claim) (offset + s.pre)
            ready.state ready.shared = placed at hplaced hdepth ⊢
          cases hdone : placed.result with
          | error fault =>
            rw [Outcome.bind_eq_of_error hdone]
            exact .failed hplaced.coherent (hplaced.error fault hdone) hdepth
              (hplaced.status.trans hprepared.alike.status.symm)
          | ok =>
            rw [Outcome.bind_eq_of_ok hdone]
            refine ⟨hplaced.coherent, hplaced.ok hdone ownership, ?_, fun _ => ⟨s, hs, ?_⟩,
              by rintro _ ⟨⟩⟩
            · exact Nat.le_trans (Nat.le_of_eq (depth_withPlacement _ _)) hdepth
            · show (placed.state.withPlacement _).status = _
              rw [status_withPlacement, hplaced.status, hstatus]
              rfl
    next hs => exact .failed hshared hn (Nat.le_refl _) rfl

/-- A stored structure does not get other storage. -/
theorem state_claimWithin_of_allocated {fuel : Nat} {region : Region} {ownership : Ownership}
    {operation : Operation} {offset : Nat} {n : Node} (hn : n.stage = .allocated) (shared : Shared) :
    (claimWithin fuel region ownership operation offset n shared).state = n := by
  cases fuel with
  | zero => rfl
  | succ fuel =>
    unfold stage at hn
    simp only [claimWithin]
    split
    next s hs => simp [hs, Status.stage] at hn
    next => rfl

end NativeLayout.Node
