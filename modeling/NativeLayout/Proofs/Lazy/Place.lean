import NativeLayout.Proofs.Lazy.Build
import NativeLayout.Proofs.Tree.Element

namespace NativeLayout.Node

/-!
# Storing twins

* `Twin.claimWithin` — twins that get the same bytes succeed or fail together, and are twins
  afterwards: whether their arrays build their elements now or later shows nowhere.
* `Twin.materialize` — making an element later succeeds exactly if an eager array has it, and shows
  nowhere either.
-/

variable {n m : Node} {shared shared' : Shared} {region : Region} {start : Nat}

/-! ### Fields -/

section fields

variable {claimChild claimChild' : Nat → Node → Shared → Outcome Node Unit}

/-- Operations that do the same to twins. -/
def ClaimTwins (claimChild claimChild' : Nat → Node → Shared → Outcome Node Unit) (n m : Node) :
    Prop :=
  ∀ (offset : Nat) (shared shared' : Shared), shared.Coherent → shared'.Coherent →
    (claimChild offset n shared).Matches Shared.Coherent Twin (claimChild' offset m shared')

/-- The fields of twins are placed alike, up to the first that fails in both. -/
theorem matches_placeFields (start : Nat) {fields fields' : List (Field Node)}
    (offsets : List Nat) (hfields : List.Forall₂ (Lift Twin) fields fields')
    (hclaim : ∀ f ∈ fields, ∀ g ∈ fields', Twin f.child g.child →
      ClaimTwins claimChild claimChild' f.child g.child)
    (hshared : shared.Coherent) (hshared' : shared'.Coherent) :
    (placeFields claimChild start fields offsets shared).Matches Shared.Coherent
      (List.Forall₂ (Lift Twin)) (placeFields claimChild' start fields' offsets shared') := by
  induction hfields generalizing offsets shared shared' with
  | nil => cases offsets <;> exact ⟨hshared, hshared', .nil, rfl⟩
  | @cons f g rest rest' hfg hrest ih =>
    cases offsets with
    | nil => exact ⟨hshared, hshared', .cons hfg hrest, rfl⟩
    | cons offset offsets =>
      -- twins have the same leading padding
      simp only [placeFields, ← hfg.child.shape?]
      generalize (f.child.shape?.map Shape.pre).getD 0 = pre
      by_cases hroom : start + offset < pre
      · simp only [if_pos hroom]
        exact ⟨hshared, hshared', .cons hfg hrest, rfl⟩
      · simp only [if_neg hroom]
        have hfirst := hclaim f (by simp) g (by simp) hfg.child (start + offset - pre) shared shared'
          hshared hshared'
        have hothers := ih offsets
          (fun f hf g hg => hclaim f (by simp [hf]) g (by simp [hg])) hfirst.left hfirst.right
        have hfield : Lift Twin (f.withChild (claimChild (start + offset - pre) f.child shared).state)
            (g.withChild (claimChild' (start + offset - pre) g.child shared').state) :=
          ⟨hfg.index, hfg.name, hfirst.state⟩
        simp only [← hfirst.result]
        split
        · exact ⟨hfirst.left, hfirst.right, .cons hfield hrest, rfl⟩
        · exact ⟨hothers.left, hothers.right, .cons hfield hothers.state, hothers.result⟩

end fields

/-! ### Elements -/

section elements

variable {claimChild : Nat → Node → Shared → Outcome Node Unit} {template : Node}

/-- An operation that stores an element where there is room for it, as a twin of the sample. -/
def ClaimsSample (region : Region) (claimChild : Nat → Node → Shared → Outcome Node Unit)
    (template e : Node) : Prop :=
  ∀ (offset : Nat) (shared : Shared), shared.Coherent → e.Fits region offset →
    (claimChild offset e shared).shared.Coherent ∧ (claimChild offset e shared).result = .ok () ∧
      Twin (claimChild offset e shared).state (template.sample region offset)

/-- Elements that are claimed like the template are placed one stride behind the other. -/
theorem placeElements_sample (start : Nat) {stride : Nat} {element : Shape} {elements : List Node}
    (hclaim : ∀ e ∈ elements, ClaimsSample region claimChild template e)
    (hshape : ∀ e ∈ elements, e.shape? = some element) (hstride : element.footprint ≤ stride)
    (hfits : elements.length * stride ≤ region.length - start) (hshared : shared.Coherent) :
    (placeElements claimChild stride start elements shared).shared.Coherent ∧
      (placeElements claimChild stride start elements shared).result = .ok () ∧
      ∀ (i : Nat) (e : Node),
        (placeElements claimChild stride start elements shared).state[i]? = some e →
          Twin e (template.sample region (start + i * stride)) := by
  induction elements generalizing start shared with
  | nil => exact ⟨hshared, rfl, by rintro i e ⟨⟩⟩
  | cons e rest ih =>
    obtain ⟨hfirst, hrest⟩ := List.forall_mem_cons.1 hclaim
    obtain ⟨heshape, hrestshape⟩ := List.forall_mem_cons.1 hshape
    rw [List.length_cons, Nat.succ_mul] at hfits
    -- there is room for the first element, as its footprint is no more than a stride
    have hroom : e.Fits region start := by
      intro t ht
      cases heshape.symm.trans ht
      omega
    obtain ⟨hcoherent, hok, htwin⟩ := hfirst start shared hshared hroom
    obtain ⟨hafter, hothers, hlater⟩ := ih (start + stride) hrest hrestshape (by omega)
      hcoherent
    simp only [placeElements, hok]
    refine ⟨hafter, hothers, ?_⟩
    rintro (_ | i) e' he'
    · cases he'
      rwa [Nat.zero_mul, Nat.add_zero]
    · have hstart : start + (i + 1) * stride = start + stride + i * stride := by
        rw [Nat.succ_mul]
        omega
      rw [hstart]
      exact hlater i e' he'

end elements

/-! ### Children -/

/-- What placing the children of a tame structure leaves behind. -/
structure Lodged (region : Region) (start : Nat) (o : Outcome Node Unit) : Prop where
  ok : o.result = .ok () → ∀ ownership,
    (o.state.withPlacement ⟨region, start, ownership⟩).Regular
  error : ∀ e, o.result = .error e → o.state.Regular

section array

variable {claimChild : Nat → Node → Shared → Outcome Node Unit} {plan : ArrayPlan}
  {head : ArrayHead} {template : Node} {alternatives : List (Nat × Node)} {staged : List Node}
  {elements : List (Option Node)}

/-- An array with all its elements is always placed, and shows nothing of how. -/
theorem placeChildren_array
    (hn : (Node.array (.allocatable plan) head template alternatives staged elements).Tame)
    (hdone : head.lazy = true ∨ staged.length = head.length)
    (hsize : plan.shape.size ≤ region.length - start)
    (hclaim : ∀ e ∈ staged, ClaimsSample region claimChild template e) (hshared : shared.Coherent)
    {o : Outcome Node Unit} (ho : placeChildren claimChild start
      (.array (.allocatable plan) head template alternatives staged elements) shared = o) :
    o.shared.Coherent ∧ o.result = .ok () ∧ o.state.outline =
      (Node.array (.allocatable plan) head template alternatives staged elements).outline ∧
      Lodged region start o := by
  subst ho
  obtain ⟨self, -⟩ := sound_array_iff.1 hn.sound
  obtain ⟨uniform, templates, built, -⟩ := regular_array_iff.1 hn.regular
  simp only [placeChildren, stageElements_of_done hdone, Outcome.pure, strideOf, Status.plan?]
  split
  next hlazy =>
    -- a lazy array gets places without elements, so that nothing has to be shown of them
    refine ⟨hshared, rfl, rfl, fun _ ownership => ?_, by rintro _ ⟨⟩⟩
    have hnone : ∀ (i : Nat) (e : Node),
        (List.replicate head.length (none : Option Node))[i]? ≠ some (some e) := by
      intro i e he
      simp [List.getElem?_replicate] at he
    refine regular_array_iff.2 ⟨⟨uniform.repeats, uniform.vacant, uniform.staged, ?_, ?_⟩, templates,
      built, by simp [List.mem_replicate]⟩
    · rintro _ _ ⟨⟩
      exact hsize
    · exact fun _ _ _ i e he => absurd he (hnone i e)
  next hlazy =>
    -- an eager one has an element staged for each index, and they fit since the array does
    obtain ⟨-, hplan⟩ := self.plan plan rfl
    obtain ⟨hstride, -, htotal⟩ := arrayShape?_eq_ok hplan
    have hshape : ∀ e ∈ staged, e.shape? = some plan.element := by
      intro e he
      obtain ⟨-, _, ⟨⟩, hshape⟩ := self.staged e he
      exact hshape
    have hfits : staged.length * plan.stride ≤ region.length - start := by
      rwa [hdone.resolve_left hlazy, Nat.mul_comm, ← htotal]
    obtain ⟨hcoherent, hok, hplaced⟩ := placeElements_sample start hclaim hshape hstride hfits hshared
    simp only [hok]
    have hsample : ∀ (i : Nat) (e : Node), ((placeElements claimChild plan.stride start staged
        shared).state.map some)[i]? = some (some e) →
          Twin e (template.sample region (start + i * plan.stride)) := by
      intro i e he
      exact hplaced i e (by simpa using he)
    refine ⟨hcoherent, trivial, rfl, fun _ ownership => ?_, by rintro _ ⟨⟩⟩
    refine regular_array_iff.2 ⟨⟨uniform.repeats, uniform.vacant, by simp, ?_, ?_⟩, templates, by simp,
      fun e he => ?_⟩
    · rintro _ _ ⟨⟩
      exact hsize
    · rintro _ _ ⟨⟩ i e he
      exact (hsample i e he).outline
    · obtain ⟨i, hi⟩ := List.mem_iff_getElem?.1 he
      exact (hsample i e hi).left.regular

end array

/-- Outcomes with the same result, and with regular states of the same outline. -/
structure AlikeRegular (o o' : Outcome Node Unit) : Prop where
  outline : MatchesOutline o o'
  left : o.state.Regular
  right : o'.state.Regular

/-- The elements that an array has staged are stored as twins of the sample. -/
def SamplesStaged (region : Region) (claimChild : Nat → Node → Shared → Outcome Node Unit) :
    Node → Prop
  | .array _ _ template _ staged _ => ∀ e ∈ staged, ClaimsSample region claimChild template e
  | _ => True

/-- The fields of two records are placed alike, one by one. -/
theorem matches_placeChildren_record {claimChild claimChild' : Nat → Node → Shared → Outcome Node Unit}
    (start : Nat) {l : RecordLayout} {head : RecordHead} {fields fields' : List (Field Node)}
    (hfields : List.Forall₂ (Lift Twin) fields fields')
    (hclaim : ∀ f ∈ fields, ∀ g ∈ fields', Twin f.child g.child →
      ClaimTwins claimChild claimChild' f.child g.child)
    (hshared : shared.Coherent) (hshared' : shared'.Coherent) :
    MatchesOutline (placeChildren claimChild start (.record (.allocatable l) head fields) shared)
        (placeChildren claimChild' start (.record (.allocatable l) head fields') shared') ∧
      Lodged region start
        (placeChildren claimChild start (.record (.allocatable l) head fields) shared) ∧
      Lodged region start
        (placeChildren claimChild' start (.record (.allocatable l) head fields') shared') := by
  have hplaced := matches_placeFields start l.offsets hfields hclaim hshared hshared'
  simp only [placeChildren, Status.plan?]
  -- which of the fields failed is of no account: what is left of them are twins
  generalize placeFields claimChild start fields l.offsets shared = o at hplaced ⊢
  generalize placeFields claimChild' start fields' l.offsets shared' = o' at hplaced ⊢
  have hregular : ∀ status, (Node.record status head o.state).Regular := by
    refine fun status => regular_record_iff.2 fun f hf => ?_
    obtain ⟨_, -, hfg⟩ := forall₂_mem hplaced.state.flip hf
    exact hfg.child.left.regular
  have hregular' : ∀ status, (Node.record status head o'.state).Regular := by
    refine fun status => regular_record_iff.2 fun g hg => ?_
    obtain ⟨_, -, hfg⟩ := forall₂_mem hplaced.state hg
    exact hfg.child.right.regular
  exact ⟨⟨hplaced.left, hplaced.right, outline_record_eq (hplaced.state.imp fun _ _ hfg =>
    hfg.imp Twin.outline), hplaced.result⟩, ⟨fun _ _ => hregular _, fun _ _ => hregular _⟩,
    ⟨fun _ _ => hregular' _, fun _ _ => hregular' _⟩⟩

/-- The children of twins that have all their elements are placed alike. -/
theorem matches_placeChildren {claimChild claimChild' : Nat → Node → Shared → Outcome Node Unit}
    (start : Nat) {d d' : Nat} {s : Shape} (h : Twin n m) (hs : n.status = .allocatable s)
    (hn : n.depth ≤ d + 1) (hm : m.depth ≤ d' + 1) (hready : n.Ready) (hready' : m.Ready)
    (hsize : s.size ≤ region.length - start)
    (hfields : ∀ c c', Twin c c' → c.depth ≤ d → c'.depth ≤ d' →
      ClaimTwins claimChild claimChild' c c')
    (hstaged : SamplesStaged region claimChild n) (hstaged' : SamplesStaged region claimChild' m)
    (hshared : shared.Coherent) (hshared' : shared'.Coherent) :
    MatchesOutline (placeChildren claimChild start n shared)
        (placeChildren claimChild' start m shared') ∧
      Lodged region start (placeChildren claimChild start n shared) ∧
      Lodged region start (placeChildren claimChild' start m shared') := by
  cases n with
  | leaf status kind =>
    obtain rfl := outline_eq_leaf h.outline
    have hlodged : ∀ shared, Lodged region start (placeChildren claimChild start
        (.leaf status kind) shared) := fun _ => ⟨fun _ _ => .leaf trivial, fun _ _ => .leaf trivial⟩
    exact ⟨⟨hshared, hshared', rfl, rfl⟩, hlodged _, hlodged _⟩
  | record status head fields =>
    obtain ⟨fields', rfl, htwins⟩ := h.record
    obtain ⟨l, rfl, -⟩ : ∃ l, status = .allocatable l ∧ l.shape = s := by
      cases status <;> cases hs
      exact ⟨_, rfl, rfl⟩
    exact matches_placeChildren_record start htwins (fun f hf g hg hfg => hfields _ _ hfg
      (depth_record_le_iff.1 hn f hf) (depth_record_le_iff.1 hm g hg)) hshared hshared'
  | array status head template alternatives staged elements =>
    obtain ⟨lazy, calls, counter, template', alternatives', staged', elements', rfl, -⟩ := h.array
    obtain ⟨plan, rfl, rfl⟩ : ∃ plan, status = .allocatable plan ∧ plan.shape = s := by
      cases status <;> cases hs
      exact ⟨_, rfl, rfl⟩
    cases hready with
    | array hdone =>
      cases hready' with
      | array hdone' =>
        -- each of the two succeeds on its own and shows what it did before, so they need not be compared
        obtain ⟨hcoherent, hok, houtline, hlodged⟩ :=
          placeChildren_array h.left hdone hsize hstaged hshared rfl
        obtain ⟨hcoherent', hok', houtline', hlodged'⟩ :=
          placeChildren_array h.right hdone' hsize hstaged' hshared' rfl
        exact ⟨⟨hcoherent, hcoherent', houtline.trans (h.outline.trans houtline'.symm),
          hok.trans hok'.symm⟩, hlodged, hlodged'⟩

/-! ### Structures -/

/-- An element of an array that has the outline of its resolved template. -/
theorem claimsSample_of_twin {fuel : Nat} {template e : Node} (hv : template.Vacant)
    (htwin : Twin e template.resolved) (hdepth : e.depth ≤ fuel) (hready : e.Ready)
    (hshape : e.shape?.isSome)
    (hclaim : ClaimTwins (claimWithin fuel region .claimed .claim)
      (claimWithin template.resolved.depth region .claimed .claim) e template.resolved) :
    ClaimsSample region (claimWithin fuel region .claimed .claim) template e := by
  intro offset shared hshared hfits
  have hmatch := hclaim offset shared .empty hshared Shared.coherent_empty
  -- only storage that is in the way could keep the element from being placed
  have hfree : e.Free := by
    have hvacant := hv.resolved
    exact (hvacant.of_outline htwin.outline.symm).free htwin.left hshape
  have hsettled : Settled e (claimWithin fuel region .claimed .claim offset e shared) :=
    settled_claimWithin hdepth htwin.left.sound hready hfits hshared
  exact ⟨hmatch.left, hsettled.ok.2 hfree, hmatch.state⟩

/-- The elements that a tame array has staged are twins of its resolved template. -/
theorem Tame.samplesStaged {fuel d : Nat} (hn : n.Tame) (hdepth : n.depth ≤ fuel + 1)
    (hd : n.depth ≤ d + 1)
    (hclaim : ∀ c c', Twin c c' → c.depth ≤ fuel → c'.depth ≤ d →
      ClaimTwins (claimWithin fuel region .claimed .claim)
        (claimWithin c'.depth region .claimed .claim) c c') :
    SamplesStaged region (claimWithin fuel region .claimed .claim) n := by
  cases n with
  | leaf => trivial
  | record => trivial
  | array status head template alternatives staged elements =>
    intro e he
    obtain ⟨-, hstaged, -⟩ := depth_array_le_iff.1 hdepth
    obtain ⟨⟨htemplate, -⟩, -⟩ := depth_array_le_iff.1 hd
    -- a staged element is prepared already; the template is resolved, but has built nothing
    obtain ⟨hready, _, -, hshape⟩ := (sound_array_iff.1 hn.sound).1.staged e he
    have htwin : Twin e template.resolved :=
      ⟨hn.built he, hn.default.resolved, hn.uniform.staged e he⟩
    have hresolved : template.resolved.depth ≤ d :=
      Nat.le_trans (resolved_resolve hn.default.sound Shared.coherent_empty).depth_le htemplate
    refine claimsSample_of_twin hn.uniform.vacant htwin (hstaged e he) hready ?_
      (hclaim e _ htwin (hstaged e he) hresolved)
    rw [hshape]
    rfl

/-- Storing the children of twins alike, and then the structures around them. -/
theorem Lodged.place {o o' : Outcome Node Unit} (hmatch : MatchesOutline o o')
    (h : Lodged region start o) (h' : Lodged region start o') (ownership : Ownership) :
    AlikeRegular
      (o.bind fun shared n _ => .pure shared (n.withPlacement ⟨region, start, ownership⟩) ())
      (o'.bind fun shared n _ => .pure shared (n.withPlacement ⟨region, start, ownership⟩) ()) := by
  cases hdone : o.result with
  | error fault =>
    have hdone' := hmatch.result.symm.trans hdone
    rw [Outcome.bind_eq_of_error hdone, Outcome.bind_eq_of_error hdone']
    exact ⟨⟨hmatch.left, hmatch.right, hmatch.state, rfl⟩, h.error fault hdone, h'.error fault hdone'⟩
  | ok =>
    have hdone' := hmatch.result.symm.trans hdone
    rw [Outcome.bind_eq_of_ok hdone, Outcome.bind_eq_of_ok hdone']
    refine ⟨⟨hmatch.left, hmatch.right, ?_, rfl⟩, h.ok hdone ownership, h'.ok hdone' ownership⟩
    show (o.state.withPlacement _).outline = (o'.state.withPlacement _).outline
    -- the place itself is the same for both
    rw [outline_withPlacement, outline_withPlacement, hmatch.state]

/-- Twins that get bytes which their children can get. -/
theorem alike_claimWithin {k k' : Nat} (hfuel : n.depth ≤ k + 1) (hfuel' : m.depth ≤ k' + 1)
    (h : Twin n m)
    (ih : ∀ (d d' : Nat) (c c' : Node), d ≤ max k k' → d' ≤ max k k' → c.depth ≤ d → c'.depth ≤ d' →
      Twin c c' → ClaimTwins (claimWithin d region .claimed .claim)
        (claimWithin d' region .claimed .claim) c c')
    (ownership : Ownership) (operation : Operation) (offset : Nat) (hshared : shared.Coherent)
    (hshared' : shared'.Coherent) :
    AlikeRegular (claimWithin (k + 1) region ownership operation offset n shared)
      (claimWithin (k' + 1) region ownership operation offset m shared') := by
  have hkept : ∀ fault, AlikeRegular (.fail shared n fault) (.fail shared' m fault) :=
    fun _ => ⟨⟨hshared, hshared', h.outline, rfl⟩, h.left.regular, h.right.regular⟩
  simp only [claimWithin, ← h.status]
  cases hstatus : n.status with
  | unallocated => exact hkept _
  | allocated => exact hkept _
  | allocatable s =>
    by_cases hroom : region.length - offset < s.footprint
    · simp only [if_pos hroom]
      exact hkept _
    · simp only [if_neg hroom]
      -- there are bytes enough: both are prepared, which succeeds and leaves twins
      have hshape : n.shape?.isSome := by
        rw [shape?, hstatus]
        rfl
      obtain ⟨hok, htwin⟩ := h.left.prepare hshape hshared
      obtain ⟨hok', htwin'⟩ := h.right.prepare (h.shape? ▸ hshape) hshared'
      have hprepared := prepared_prepare h.left.sound hshared
      have hprepared' := prepared_prepare h.right.sound hshared'
      rw [Outcome.bind_eq_of_ok hok, Outcome.bind_eq_of_ok hok']
      generalize n.prepare shared = ready at hok htwin hprepared ⊢
      generalize m.prepare shared' = ready' at hok' htwin' hprepared' ⊢
      have hdepth := Nat.le_trans hprepared.depth_le hfuel
      have hdepth' := Nat.le_trans hprepared'.depth_le hfuel'
      -- the children get what is left behind the padding in front
      have hsize : s.size ≤ region.length - (offset + s.pre) := by
        rw [Shape.footprint_eq, Shape.extent] at hroom
        omega
      have hk : k ≤ max k k' := Nat.le_max_left _ _
      have hk' : k' ≤ max k k' := Nat.le_max_right _ _
      -- a staged element and the template may differ in depth, so the induction has two fuels
      obtain ⟨hmatch, hlodged, hlodged'⟩ := matches_placeChildren (offset + s.pre)
        ((htwin.symm.trans h).trans htwin') (htwin.status.symm.trans hstatus) hdepth hdepth'
        (hprepared.ready hok) (hprepared'.ready hok') hsize
        (fun c c' hc hd hd' => ih k k' c c' hk hk' hd hd' hc)
        (htwin.right.samplesStaged hdepth hdepth fun c c' hc hd hd' =>
          ih k c'.depth c c' hk (Nat.le_trans hd' hk) hd (Nat.le_refl _) hc)
        (htwin'.right.samplesStaged hdepth' hdepth' fun c c' hc hd hd' =>
          ih k' c'.depth c c' hk' (Nat.le_trans hd' hk') hd (Nat.le_refl _) hc)
        hprepared.coherent hprepared'.coherent
      exact hlodged.place hmatch hlodged' ownership

/-- Twins that get the same bytes succeed or fail together, and are twins afterwards. -/
theorem twin_claimWithin (bound : Nat) {fuel fuel' : Nat} (hbound : fuel ≤ bound)
    (hbound' : fuel' ≤ bound) {n m : Node} (hfuel : n.depth ≤ fuel) (hfuel' : m.depth ≤ fuel')
    (h : Twin n m) (ownership : Ownership) (operation : Operation) :
    ClaimTwins (claimWithin fuel region ownership operation)
      (claimWithin fuel' region ownership operation) n m := by
  -- over a bound of both fuels: on either side, staged elements are compared with the sample
  induction bound generalizing fuel fuel' n m ownership operation with
  | zero =>
    have hpos := n.depth_pos
    omega
  | succ bound ih =>
    intro offset shared shared' hshared hshared'
    have hclaimed : Claimed region offset ownership n
        (claimWithin fuel region ownership operation offset n shared) :=
      claimed_claimWithin hfuel h.left.sound hshared
    have hclaimed' : Claimed region offset ownership m
        (claimWithin fuel' region ownership operation offset m shared') :=
      claimed_claimWithin hfuel' h.right.sound hshared'
    obtain ⟨k, rfl⟩ : ∃ k, fuel = k + 1 :=
      Nat.exists_eq_add_one.2 (Nat.lt_of_lt_of_le n.depth_pos hfuel)
    obtain ⟨k', rfl⟩ : ∃ k', fuel' = k' + 1 :=
      Nat.exists_eq_add_one.2 (Nat.lt_of_lt_of_le m.depth_pos hfuel')
    obtain ⟨hmatch, hregular, hregular'⟩ := alike_claimWithin hfuel hfuel' h
      (fun d d' c c' hd hd' hc hc' htwin => ih (by omega) (by omega) hc hc' htwin .claimed .claim)
      ownership operation offset hshared hshared'
    exact ⟨hmatch.left, hmatch.right, ⟨⟨hclaimed.sound, hregular⟩, ⟨hclaimed'.sound, hregular'⟩,
      hmatch.state⟩, hmatch.result⟩

/-- Twins that get the bytes of a region from the same offset on. -/
theorem Twin.claimWithin {fuel fuel' : Nat} (h : Twin n m) (hfuel : n.depth ≤ fuel)
    (hfuel' : m.depth ≤ fuel') (ownership : Ownership) (operation : Operation) :
    ClaimTwins (Node.claimWithin fuel region ownership operation)
      (Node.claimWithin fuel' region ownership operation) n m :=
  twin_claimWithin (max fuel fuel') (Nat.le_max_left _ _) (Nat.le_max_right _ _) hfuel hfuel' h
    ownership operation

/-- Samples of twins are twins. -/
theorem Twin.sample (h : Twin n m) (region : Region) (offset : Nat) :
    Twin (n.sample region offset) (m.sample region offset) :=
  (h.resolved.claimWithin (Nat.le_refl _) (Nat.le_refl _) .claimed .claim offset .empty .empty
    Shared.coherent_empty Shared.coherent_empty).state

/-! ### Elements that are made later -/

section array

variable {plan : ArrayPlan} {p : Placement} {head : ArrayHead} {template : Node}
  {alternatives : List (Nat × Node)} {staged : List Node} {elements : List (Option Node)}
  {index : Nat}

/-- An array never fails to make an element, and shows nothing of making it. -/
theorem materialize_array
    (hn : (Node.array (.allocated plan p) head template alternatives staged elements).Tame)
    (hindex : index < head.length) (hshared : shared.Coherent) {o : Outcome Node Unit}
    (ho : materialize index (.array (.allocated plan p) head template alternatives staged elements)
      shared = o) :
    o.result = .ok () ∧ o.state.Regular ∧ o.state.outline =
      (Node.array (.allocated plan p) head template alternatives staged elements).outline := by
  subst ho
  obtain ⟨self, ⟨hdefault, hothers⟩, -, -⟩ := sound_array_iff.1 hn.sound
  have uniform := hn.uniform
  simp only [materialize, if_pos hindex]
  split
  next => exact ⟨rfl, hn.regular, rfl⟩
  next hnone =>
    obtain ⟨d, hd⟩ : ∃ d, (Node.array (.allocated plan p) head template alternatives staged
        elements).depth = d + 1 := Nat.exists_eq_add_one.2 (depth_pos _)
    obtain ⟨⟨htemplate, halternatives⟩, -, -⟩ := depth_array_le_iff.1 (Nat.le_of_eq hd)
    have hprep : Prepares d prepare := fun m _ hm hs _ hshared => hm.prepare hs hshared
    obtain ⟨e, he, htame, houtline⟩ := exists_build hn rfl hprep htemplate index head.calls hshared
    have hmakes : Makes head (Fresh d (.allocated plan p))
        (build prepare (.allocated plan p) template alternatives index head shared) :=
      makes_build (fun m _ hm _ hs => prepared_prepare hm hs) ⟨hdefault, htemplate⟩
        (fun e he => ⟨hothers e he, halternatives e he⟩) index head.calls hshared
    generalize build prepare (.allocated plan p) template alternatives index head shared = made
      at he hmakes ⊢
    obtain ⟨after, head', result⟩ := made
    obtain ⟨calls, rfl⟩ : ∃ calls, head' = { head with calls } := hmakes.counted
    obtain rfl : result = .ok e := he
    obtain ⟨-, -, hready, _, ⟨⟩, hshape⟩ := hmakes.ok e rfl
    -- there is room for every element, so there is for this one
    have hfits : e.Fits p.region (p.offset + index * plan.stride) := by
      intro t ht
      cases hshape.symm.trans ht
      obtain ⟨hstride, -, htotal⟩ := arrayShape?_eq_ok (self.plan plan rfl).2
      have hroom := uniform.room plan p rfl
      have hinside : (index + 1) * plan.stride ≤ plan.stride * head.length := by
        rw [Nat.mul_comm]
        exact Nat.mul_le_mul_left _ hindex
      rw [Nat.succ_mul] at hinside
      omega
    have htwin : Twin e template.resolved := ⟨htame, hn.default.resolved, houtline⟩
    obtain ⟨hcoherent, hok, hsample⟩ := claimsSample_of_twin uniform.vacant htwin (Nat.le_refl _)
      hready (by rw [hshape]; rfl) (htwin.claimWithin (Nat.le_refl _) (Nat.le_refl _) .claimed .claim)
      (p.offset + index * plan.stride) after hmakes.coherent hfits
    have hclaim : Node.claim p.region (p.offset + index * plan.stride) e after =
        Node.claimWithin e.depth p.region .claimed .claim (p.offset + index * plan.stride) e after :=
      rfl
    simp only [hclaim, hok]
    refine ⟨rfl, regular_setElement hn.regular hsample.left.regular ?_, rfl⟩
    rintro _ _ ⟨⟩
    exact hsample.outline

end array

/-- Making sure of an element succeeds or fails together on twins, and shows nowhere. -/
theorem Twin.materialize (h : Twin n m) (index : Nat) (hshared : shared.Coherent)
    (hshared' : shared'.Coherent) :
    (Node.materialize index n shared).Matches Shared.Coherent Twin
        (Node.materialize index m shared') ∧
      (Node.materialize index n shared).state.outline = n.outline := by
  have hmade : Materialized index n (Node.materialize index n shared) :=
    materialized_materialize h.left.sound hshared
  have hmade' : Materialized index m (Node.materialize index m shared') :=
    materialized_materialize h.right.sound hshared'
  cases n with
  | leaf =>
    obtain rfl := outline_eq_leaf h.outline
    exact ⟨⟨hshared, hshared', h, rfl⟩, rfl⟩
  | record =>
    obtain ⟨_, rfl, -⟩ := h.record
    exact ⟨⟨hshared, hshared', h, rfl⟩, rfl⟩
  | array status head template alternatives staged elements =>
    obtain ⟨lazy, calls, counter, template', alternatives', staged', elements', rfl, -⟩ := h.array
    cases status with
    | unallocated => exact ⟨⟨hshared, hshared', h, rfl⟩, rfl⟩
    | allocatable => exact ⟨⟨hshared, hshared', h, rfl⟩, rfl⟩
    | allocated plan p =>
      by_cases hindex : index < head.length
      · -- each of the two gets its element, so neither has to be compared with the other
        obtain ⟨hok, hregular, houtline⟩ := materialize_array h.left hindex hshared rfl
        obtain ⟨hok', hregular', houtline'⟩ := materialize_array h.right hindex hshared' rfl
        refine ⟨⟨hmade.coherent, hmade'.coherent, ⟨⟨hmade.evolves.sound, hregular⟩,
          ⟨hmade'.evolves.sound, hregular'⟩, ?_⟩, hok.trans hok'.symm⟩, houtline⟩
        rw [houtline, houtline', h.outline]
      · simp only [Node.materialize, if_neg hindex]
        exact ⟨⟨hshared, hshared', h, rfl⟩, rfl⟩

end NativeLayout.Node
