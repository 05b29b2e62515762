import NativeLayout.Node.Element
import NativeLayout.Node.Record
import NativeLayout.Proofs.Tree.Claim

namespace NativeLayout

/-!
# Structures only move on

* `Node.inside?` — the structure at the end of a way, fields by their index and elements by theirs.
* `Node.Forward` — a structure is what it was and knows all it knew; the fields of a record with a
  layout stay under their indices and names.
* `Node.Advances` — so does every structure of a tree, each in its place.
* `Node.advances_resolve`, `Node.advances_claimWithin`, `Node.advances_materialize`,
  `Node.advances_register` — no operation does anything else, whether it succeeds or not.
-/

/-- How far a stage is on the way to storage. -/
def Stage.rank : Stage → Nat
  | .unallocated => 0
  | .allocatable => 1
  | .allocated => 2

namespace Status

variable {α : Type}

/-- All that was known is still known. -/
structure Extends (s t : Status α) : Prop where
  plan : ∀ plan, s.plan? = some plan → t.plan? = some plan
  placement : ∀ p, s.placement? = some p → t.placement? = some p

@[refl] theorem Extends.refl (s : Status α) : s.Extends s := ⟨fun _ h => h, fun _ h => h⟩

/-- What was known before two steps is known after them. -/
theorem Extends.trans {s t u : Status α} (h : s.Extends t) (h' : t.Extends u) : s.Extends u :=
  ⟨fun plan hplan => h'.plan plan (h.plan plan hplan), fun p hp => h'.placement p (h.placement p hp)⟩

/-- Nothing was known, so nothing can be lost. -/
theorem extends_of_unallocated (s : Status α) : unallocated.Extends s :=
  ⟨by rintro _ ⟨⟩, by rintro _ ⟨⟩⟩

/-- Getting storage keeps the plan; a structure that has storage already keeps it. -/
theorem extends_place (p : Placement) (s : Status α) : s.Extends (s.place p) := by
  cases s with
  | unallocated => exact .refl _
  | allocatable plan => exact ⟨fun _ h => h, by rintro _ ⟨⟩⟩
  | allocated => exact .refl _

/-- The order does not depend on what plans are made of. -/
theorem Extends.map {β : Type} {s t : Status α} (h : s.Extends t) (f : α → β) :
    (s.map f).Extends (t.map f) := by
  constructor
  · intro plan hplan
    rw [plan?_map] at hplan ⊢
    obtain ⟨a, ha, rfl⟩ := Option.map_eq_some_iff.1 hplan
    rw [h.plan a ha]
    rfl
  · intro p hp
    rw [placement?_map] at hp ⊢
    exact h.placement p hp

/-- What is known tells the stage. -/
theorem Extends.rank_le {s t : Status α} (h : s.Extends t) : s.stage.rank ≤ t.stage.rank := by
  cases s with
  | unallocated => exact Nat.zero_le _
  | allocatable plan =>
    have hplan := h.plan plan rfl
    cases t with
    | unallocated => cases hplan
    | allocatable => exact Nat.le_refl _
    | allocated => exact Nat.le_succ _
  | allocated plan p =>
    have hp := h.placement p rfl
    cases t with
    | unallocated => cases hp
    | allocatable => cases hp
    | allocated => exact Nat.le_refl _

end Status

namespace Node

/-- The field of a record under an index, or the element of an array at an index. -/
def part? (k : Nat) : Node → Option Node
  | .leaf .. => none
  | .record _ _ fields => field? fields k
  | .array _ _ _ _ _ elements => (elements[k]?).join

/-- The structure at the end of a way. -/
def inside? : List Nat → Node → Option Node
  | [], n => some n
  | k :: way, n => (n.part? k).bind (inside? way)

/-- The index and the name of each field. -/
def labels (fields : List (Field Node)) : List (Nat × String) :=
  fields.map fun f => (f.index, f.name)

/-- A structure that is what it was and knows what it knew.  Once a record has a layout, its fields
are fixed. -/
inductive Forward : Node → Node → Prop where
  | leaf {status status' : Status Shape} {kind : Leaf} (known : status.Extends status') :
      Forward (.leaf status kind) (.leaf status' kind)
  | record {status status' : Status RecordLayout} {head : RecordHead}
      {fields fields' : List (Field Node)} (known : status.Extends status')
      (fixed : status.plan?.isSome → labels fields' = labels fields) :
      Forward (.record status head fields) (.record status' head fields')
  | array (calls : Nat) {status status' : Status ArrayPlan} {head : ArrayHead} {template : Node}
      {alternatives : List (Nat × Node)} {staged staged' : List Node}
      {elements elements' : List (Option Node)} (known : status.Extends status') :
      Forward (.array status head template alternatives staged elements)
        (.array status' { head with calls } template alternatives staged' elements')

@[refl] theorem Forward.refl (n : Node) : Forward n n := by
  cases n with
  | leaf => exact .leaf (.refl _)
  | record => exact .record (.refl _) fun _ => rfl
  | array status head => exact .array head.calls (.refl _)

/-- The order of fields is fixed as soon as there is a layout, so it is fixed through both steps. -/
theorem Forward.trans {a b c : Node} (hab : Forward a b) (hbc : Forward b c) : Forward a c := by
  cases hab with
  | leaf known =>
    cases hbc with
    | leaf known' => exact .leaf (known.trans known')
  | record known fixed =>
    cases hbc with
    | record known' fixed' =>
      refine .record (known.trans known') fun hplan => ?_
      obtain ⟨layout, hlayout⟩ := Option.isSome_iff_exists.1 hplan
      -- the first step keeps the layout, so the second one keeps the order
      rw [fixed' (by rw [known.plan layout hlayout]; rfl), fixed hplan]
  | array _ known =>
    cases hbc with
    | array calls known' => exact .array calls (known.trans known')

/-- What a structure knew about itself is still known. -/
theorem Forward.status {c d : Node} (h : Forward c d) : c.status.Extends d.status := by
  cases h with
  | leaf known => exact known
  | record known => exact known.map _
  | array _ known => exact known.map _

/-- Every structure of the tree is still there, and only moved on. -/
def Advances (n m : Node) : Prop :=
  ∀ way c, n.inside? way = some c → ∃ d, m.inside? way = some d ∧ Forward c d

@[refl] theorem Advances.refl (n : Node) : Advances n n := fun _ c h => ⟨c, h, .refl c⟩

/-- A structure is followed along the same way in both steps. -/
theorem Advances.trans {a b c : Node} (hab : Advances a b) (hbc : Advances b c) :
    Advances a c := by
  intro way x hx
  obtain ⟨y, hy, hxy⟩ := hab way x hx
  obtain ⟨z, hz, hyz⟩ := hbc way y hy
  exact ⟨z, hz, hxy.trans hyz⟩

/-- It is enough to look at the structure itself and, one level down, at its parts. -/
theorem Advances.of_parts {n m : Node} (h : Forward n m)
    (hparts : ∀ k c, n.part? k = some c → ∃ d, m.part? k = some d ∧ Advances c d) :
    Advances n m := by
  intro way x hx
  -- the way either ends here or enters one of the parts
  cases way with
  | nil =>
    cases hx
    exact ⟨m, rfl, h⟩
  | cons k way =>
    obtain ⟨c, hc, hx⟩ := Option.bind_eq_some_iff.1 hx
    obtain ⟨d, hd, hcd⟩ := hparts k c hc
    obtain ⟨y, hy, hxy⟩ := hcd way x hx
    exact ⟨y, by rw [inside?, hd]; exact hy, hxy⟩

/-- The empty way leads to the structure itself. -/
theorem Advances.forward {n m : Node} (h : Advances n m) : Forward n m := by
  obtain ⟨d, hd, hforward⟩ := h [] n rfl
  obtain rfl : m = d := Option.some.inj hd
  exact hforward

/-! ### One structure and its parts -/

section record

variable {status status' : Status RecordLayout} {head : RecordHead}
  {fields fields' : List (Field Node)}

/-- Fields that are replaced one by one keep their indices and names. -/
theorem labels_of_lift {R : Node → Node → Prop} (h : List.Forall₂ (Lift R) fields fields') :
    labels fields' = labels fields := by
  induction h with
  | nil => rfl
  | cons hfg _ ih =>
    simp only [labels, List.map_cons, hfg.index, hfg.name] at ih ⊢
    rw [ih]

/-- So a field is found again under its index. -/
theorem field?_of_lift {R : Node → Node → Prop} (h : List.Forall₂ (Lift R) fields fields') {k : Nat}
    {c : Node} (hc : field? fields k = some c) : ∃ d, field? fields' k = some d ∧ R c d := by
  induction h with
  | nil => cases hc
  | @cons f g _ _ hfg _ ih =>
    simp only [field?, List.find?_cons, hfg.index] at hc ih ⊢
    -- the first field with the index is found, here as there
    by_cases hk : f.index = k
    · simp only [hk, decide_true, Option.map_some, Option.some.injEq] at hc ⊢
      exact ⟨g.child, rfl, hc ▸ hfg.child⟩
    · simp only [hk, decide_false] at hc ⊢
      exact ih hc

/-- A record that learned something, with fields that moved on. -/
theorem advances_record (hstatus : status.Extends status')
    (h : List.Forall₂ (Lift Advances) fields fields') :
    Advances (.record status head fields) (.record status' head fields') :=
  .of_parts (.record hstatus fun _ => labels_of_lift h) fun _ _ hc => field?_of_lift h hc

end record

section array

variable {status status' : Status ArrayPlan} {head : ArrayHead} {calls : Nat} {template : Node}
  {alternatives : List (Nat × Node)} {staged staged' : List Node}
  {elements elements' : List (Option Node)}

/-- An array that learned something, with elements that moved on and perhaps new ones. -/
theorem advances_array (calls : Nat) (hstatus : status.Extends status')
    (h : ∀ (k : Nat) (e : Node), (elements[k]?).join = some e →
      ∃ e', (elements'[k]?).join = some e' ∧ Advances e e') :
    Advances (.array status head template alternatives staged elements)
      (.array status' { head with calls } template alternatives staged' elements') :=
  .of_parts (.array calls hstatus) h

/-- An array whose elements stayed as they were. -/
theorem advances_array_same (calls : Nat) (hstatus : status.Extends status') :
    Advances (.array status head template alternatives staged elements)
      (.array status' { head with calls } template alternatives staged' elements) :=
  advances_array calls hstatus fun _ e he => ⟨e, he, .refl e⟩

end array

/-- Noting where a structure is stored leaves what is inside as it is. -/
theorem advances_withPlacement (p : Placement) (n : Node) : Advances n (n.withPlacement p) := by
  cases n with
  | leaf status kind =>
    exact .of_parts (.leaf (Status.extends_place p status)) (by rintro _ _ ⟨⟩)
  | record status head fields =>
    exact advances_record (Status.extends_place p status)
      (List.forall₂_same.2 fun f _ => ⟨rfl, rfl, .refl f.child⟩)
  | array status head => exact advances_array_same head.calls (Status.extends_place p status)

/-! ### Resolving -/

/-- **Resolving.** Plans are added from the leaves up; whatever fails, the plans found so far stay. -/
theorem advances_resolve {n : Node} (hn : n.Sound) {shared : Shared} (hshared : shared.Coherent) :
    Advances n (n.resolve shared).state := by
  -- on the structure; a structure that has a plan is left alone
  induction hn generalizing shared with
  | @leaf status kind self =>
    cases status with
    | unallocated =>
      simp only [resolve, Status.plan?]
      split
      · exact .refl _
      · exact .of_parts (.leaf (Status.extends_of_unallocated _)) (by rintro _ _ ⟨⟩)
    | allocatable => exact .refl _
    | allocated => exact .refl _
  | @record status head fields self children ih =>
    cases status with
    | unallocated =>
      obtain ⟨-, hlift⟩ := traverse_forall₂
        (R := Lift Advances) (f := fun f shared => (f.child.resolve shared).mapState f.withChild)
        (fun f _ => ⟨rfl, rfl, .refl f.child⟩)
        (fun f hf shared hs =>
          ⟨(resolved_resolve (children f hf) hs).coherent, .withChild (ih f hf hs)⟩) hshared
      rw [resolve_record]
      generalize traverse (fun f shared => (f.child.resolve shared).mapState f.withChild) fields
        shared = r at hlift ⊢
      simp only
      -- an error among the fields, an error in the layout, or a layout
      split
      · exact advances_record (.refl _) hlift
      · split
        · exact advances_record (.refl _) hlift
        · exact advances_record (Status.extends_of_unallocated _) hlift
    | allocatable => exact .refl _
    | allocated => exact .refl _
  | @array status head template alternatives staged elements =>
    cases status with
    | unallocated =>
      by_cases hlength : head.length = 0
      · simp only [resolve, Status.plan?, if_pos hlength]
        exact .refl _
      · rw [resolve_array _ _ _ _ _ _ hlength]
        simp only
        split
        · exact advances_array_same _ (.refl _)
        · split
          · exact advances_array_same _ (.refl _)
          · exact advances_array_same _ (Status.extends_of_unallocated _)
    | allocatable => exact .refl _
    | allocated => exact .refl _

/-! ### Preparing -/

/-- **Preparing.** It only builds elements in advance, and these are not yet inside. -/
theorem advances_prepareWithin {fuel : Nat} {n : Node} (hfuel : n.depth ≤ fuel) (hn : n.Sound)
    {shared : Shared} (hshared : shared.Coherent) : Advances n (prepareWithin fuel n shared).state := by
  -- on the fuel, which is enough for every part
  induction fuel generalizing n shared with
  | zero => exact .refl n
  | succ fuel ih =>
    cases n with
    | leaf => exact .refl _
    | record status head fields =>
      have hchildren := (sound_record_iff.1 hn).2
      have hdepth := depth_record_le_iff.1 hfuel
      obtain ⟨-, hlift⟩ := traverse_forall₂ (R := Lift Advances)
        (f := fun (f : Field Node) shared => (prepareWithin fuel f.child shared).mapState f.withChild)
        (fun f _ => ⟨rfl, rfl, .refl f.child⟩)
        (fun f hf shared hs =>
          have h := prepared_prepareWithin (hdepth f hf) (hchildren f hf) hs
          ⟨h.coherent, .withChild (ih (hdepth f hf) (hchildren f hf) hs)⟩) hshared
      exact advances_record (.refl _) hlift
    | array status head template alternatives staged elements =>
      obtain ⟨calls, hhead⟩ := counted_stageElements (prepareWithin fuel) status head template
        alternatives staged shared
      simp only [prepareWithin, Outcome.mapState, hhead]
      exact advances_array_same _ (.refl _)

/-! ### Getting storage -/

section children

variable {claimChild : Nat → Node → Shared → Outcome Node Unit} {region : Region} {d : Nat}

/-- An operation that gives storage to structures and only moves them on. -/
def ClaimsForward (region : Region) (d : Nat)
    (claimChild : Nat → Node → Shared → Outcome Node Unit) : Prop :=
  ∀ m : Node, m.depth ≤ d → m.Sound → ∀ (offset : Nat) (shared : Shared), shared.Coherent →
    Claimed region offset .claimed m (claimChild offset m shared) ∧
      Advances m (claimChild offset m shared).state

/-- The fields before the first failure have moved on, and the others are as they were. -/
theorem advances_placeFields {fields : List (Field Node)} {offsets : List Nat} {start : Nat}
    (hclaim : ClaimsForward region d claimChild)
    (hfields : ∀ f ∈ fields, f.child.Sound ∧ f.child.depth ≤ d) {shared : Shared}
    (hshared : shared.Coherent) :
    List.Forall₂ (Lift Advances) fields (placeFields claimChild start fields offsets shared).state := by
  have hsame : ∀ fields : List (Field Node), List.Forall₂ (Lift Advances) fields fields :=
    fun fields => List.forall₂_same.2 fun f _ => ⟨rfl, rfl, .refl f.child⟩
  -- on the fields with the offsets that are left
  induction fields generalizing offsets shared with
  | nil => exact .nil
  | cons f rest ih =>
    cases offsets with
    | nil => exact hsame _
    | cons offset offsets =>
      obtain ⟨⟨hsound, hdepth⟩, hrest⟩ := List.forall_mem_cons.1 hfields
      simp only [placeFields]
      split
      next => exact hsame _
      next =>
        obtain ⟨hclaimed, hfirst⟩ := hclaim f.child hdepth hsound
          (start + offset - (f.child.shape?.map Shape.pre).getD 0) shared hshared
        split
        next => exact .cons (.withChild hfirst) (hsame _)
        next => exact .cons (.withChild hfirst) (ih hrest hclaimed.coherent)

/-- Placing the children of a structure without storage only moves them on. -/
theorem advances_placeChildren {start : Nat} {n : Node} (hclaim : ClaimsForward region d claimChild)
    (hdepth : n.depth ≤ d + 1) (hn : n.Sound) (hnone : n.placement? = none) {shared : Shared}
    (hshared : shared.Coherent) : Advances n (placeChildren claimChild start n shared).state := by
  cases n with
  | leaf => exact .refl _
  | record status head fields =>
    have hchildren := (sound_record_iff.1 hn).2
    have hfields := depth_record_le_iff.1 hdepth
    simp only [placeChildren]
    split
    · exact .refl _
    · exact advances_record (.refl _)
        (advances_placeFields hclaim (fun f hf => ⟨hchildren f hf, hfields f hf⟩) hshared)
  | array status head template alternatives staged elements =>
    -- there are no elements yet, so none of them can be lost
    have hempty : elements = [] := by
      refine (sound_array_iff.1 hn).1.unplaced ?_
      rwa [placement?, Node.status, Status.placement?_map] at hnone
    have hnew : ∀ (calls : Nat) {staged' : List Node} {elements' : List (Option Node)},
        Advances (.array status head template alternatives staged elements)
          (.array status { head with calls } template alternatives staged' elements') :=
      fun calls => advances_array calls (.refl _) fun k e he => by simp [hempty] at he
    simp only [placeChildren]
    split
    · exact hnew head.calls
    · obtain ⟨calls, hhead⟩ := counted_stageElements prepare status head template alternatives staged
        shared
      rw [hhead]
      split
      · exact hnew calls
      · split <;> exact hnew calls

end children

/-- **Getting storage.** It is preparing, placing the children and noting the place, and each of the three
only moves the structure on, as far as it comes. -/
theorem advances_claimWithin {fuel : Nat} {region : Region} {ownership : Ownership}
    {operation : Operation} {offset : Nat} {n : Node} (hfuel : n.depth ≤ fuel) (hn : n.Sound)
    {shared : Shared} (hshared : shared.Coherent) :
    Advances n (claimWithin fuel region ownership operation offset n shared).state := by
  induction fuel generalizing n ownership operation offset shared with
  | zero => exact .refl n
  | succ fuel ih =>
    simp only [claimWithin]
    split
    next s hs =>
      split
      next => exact .refl n
      next =>
        -- from here on only what the three steps preserve matters
        have hprepared := prepared_prepare hn hshared
        have hadvances : Advances n (n.prepare shared).state :=
          advances_prepareWithin (Nat.le_refl _) hn hshared
        generalize n.prepare shared = ready at hprepared hadvances ⊢
        cases hresult : ready.result with
        | error fault =>
          rw [Outcome.bind_eq_of_error hresult]
          exact hadvances
        | ok =>
          rw [Outcome.bind_eq_of_ok hresult]
          have hnone : ready.state.placement? = none := by
            rw [placement?, ← hprepared.alike.status, hs]
            rfl
          have hplaced : Advances ready.state (placeChildren (claimWithin fuel region .claimed .claim)
              (offset + s.pre) ready.state ready.shared).state :=
            advances_placeChildren
              (fun m hm hsound offset shared hs =>
                ⟨claimed_claimWithin hm hsound hs, ih hm hsound hs⟩)
              (Nat.le_trans hprepared.depth_le hfuel) hprepared.sound hnone hprepared.coherent
          generalize placeChildren (claimWithin fuel region .claimed .claim) (offset + s.pre)
            ready.state ready.shared = placed at hplaced ⊢
          cases hdone : placed.result with
          | error fault =>
            rw [Outcome.bind_eq_of_error hdone]
            exact hadvances.trans hplaced
          | ok =>
            rw [Outcome.bind_eq_of_ok hdone]
            exact (hadvances.trans hplaced).trans (advances_withPlacement _ _)
    next => exact .refl n

/-! ### Elements and fields -/

/-- **Making an element.** It enters a place that was empty, so no element is replaced. -/
theorem advances_materialize (index : Nat) (n : Node) (shared : Shared) :
    Advances n (n.materialize index shared).state := by
  cases n with
  | leaf => exact .refl _
  | record => exact .refl _
  | array status head template alternatives staged elements =>
    cases status with
    | unallocated => exact .refl _
    | allocatable => exact .refl _
    | allocated plan p =>
      simp only [materialize]
      split
      · split
        next => exact .refl _
        next hnone =>
          obtain ⟨calls, hhead⟩ := counted_build prepare (.allocated plan p) head template alternatives
            index shared
          rw [hhead]
          split
          · exact advances_array_same _ (.refl _)
          · split
            · exact advances_array_same _ (.refl _)
            · refine advances_array _ (.refl _) fun k e he => ⟨e, ?_, .refl e⟩
              -- the new element has an index of its own
              have hk : index ≠ k := by
                rintro rfl
                rw [hnone] at he
                cases he
              rw [List.getElem?_set_ne hk]
              exact he
      · exact .refl _

/-- Filing a field does not change what is found under another index. -/
theorem field?_fileField_of_ne {f : Field Node} {fields filed : List (Field Node)}
    (h : fileField f fields = some filed) {k : Nat} (hk : f.index ≠ k) :
    field? filed k = field? fields k := by
  -- on the fields that are passed on the way to the place of the new one
  induction fields generalizing filed with
  | nil =>
    cases h
    simp [field?, hk]
  | cons g rest ih =>
    unfold fileField at h
    split at h
    next =>
      cases h
      simp [field?, hk]
    next =>
      split at h
      next => cases h
      next =>
        obtain ⟨later, hlater, rfl⟩ := Option.map_eq_some_iff.1 h
        have hrest := ih hlater
        simp only [field?, List.find?_cons] at hrest ⊢
        split
        · rfl
        · exact hrest

/-- A new field leaves the others under their indices. -/
theorem field?_of_fileField {f : Field Node} {fields filed : List (Field Node)}
    (hasc : fields.Pairwise fun g g' => g.index < g'.index) (h : fileField f fields = some filed)
    {k : Nat} {c : Node} (hc : field? fields k = some c) : field? filed k = some c := by
  have hk : f.index ≠ k := by
    rintro rfl
    -- an index that is taken is refused
    obtain ⟨g, hg, -⟩ := Option.map_eq_some_iff.1 hc
    have hnone := (fileField_eq_none_iff hasc).2
      ⟨g, List.mem_of_find?_eq_some hg, by simpa using List.find?_some hg⟩
    rw [hnone] at h
    cases h
  rw [field?_fileField_of_ne h hk]
  exact hc

/-- **Registering a field.** The record has no layout yet, so its order of fields is not fixed. -/
theorem advances_register {index : Nat} {name : String} {child : Node}
    {status : Status RecordLayout} {head : RecordHead} {fields filed : List (Field Node)}
    (hasc : fields.Pairwise fun g g' => g.index < g'.index)
    (h : register index name child status head fields = .ok filed) :
    Advances (.record status head fields) (.record status head filed) := by
  obtain ⟨rfl, hfiled⟩ := register_eq_ok h
  refine .of_parts (.record (.refl _) (by rintro ⟨⟩)) fun k c hc => ⟨c, ?_, .refl c⟩
  exact field?_of_fileField hasc hfiled hc

end Node

end NativeLayout
