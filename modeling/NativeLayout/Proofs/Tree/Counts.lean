import NativeLayout.Proofs.Tree.Stems

namespace NativeLayout.Node

/-!
# What is built for storage

* `continues_claimWithin` — a structure that gets storage builds what is there afterwards: an array
  that is not lazy has an element for each index then, and a lazy one has none.
* `Stems.materialize` — an element that is made later is one call, unless it was there.
-/

variable {n : Node} {shared : Shared} {d fuel : Nat}

/-! ### Storage -/

/-- An operation that gives storage to pristine structures that are not too deep, and builds nothing that
is not there afterwards. -/
def ClaimsCounting (region : Region) (d : Nat)
    (claimChild : Nat → Node → Shared → Outcome Node Unit) : Prop :=
  ∀ m : Node, m.depth ≤ d → m.Sound → m.Pristine → ∀ (offset : Nat) (shared : Shared),
    shared.Coherent → Claimed region offset .claimed m (claimChild offset m shared) ∧
      ((claimChild offset m shared).result = .ok () → Continues m (claimChild offset m shared).state)

section children

variable {claimChild : Nat → Node → Shared → Outcome Node Unit} {region : Region} {start : Nat}

/-- **Fields** that are all placed have counted what they built. -/
theorem continues_placeFields {fields : List (Field Node)} {offsets : List Nat}
    (hclaim : ClaimsCounting region d claimChild)
    (hfields : ∀ f ∈ fields, f.child.Sound ∧ f.child.depth ≤ d ∧ f.child.Pristine)
    (hshared : shared.Coherent)
    (hok : (placeFields claimChild start fields offsets shared).result = .ok ()) :
    List.Forall₂ (Lift Continues) fields (placeFields claimChild start fields offsets shared).state := by
  induction fields generalizing offsets shared with
  | nil => exact .nil
  | cons f rest ih =>
    cases offsets with
    | nil => exact List.forall₂_same.2 fun f _ => ⟨rfl, rfl, .refl f.child⟩
    | cons offset offsets =>
      obtain ⟨⟨hsound, hdepth, hpristine⟩, hrest⟩ := List.forall_mem_cons.1 hfields
      simp only [placeFields] at hok ⊢
      by_cases hpre : start + offset < (f.child.shape?.map Shape.pre).getD 0
      · simp only [if_pos hpre] at hok
        cases hok
      · obtain ⟨hclaimed, hfirst⟩ := hclaim f.child hdepth hsound hpristine
          (start + offset - (f.child.shape?.map Shape.pre).getD 0) shared hshared
        simp only [if_neg hpre] at hok ⊢
        cases hresult : (claimChild (start + offset - (f.child.shape?.map Shape.pre).getD 0) f.child
            shared).result with
        | error fault =>
          simp only [hresult] at hok
          cases hok
        | ok =>
          simp only [hresult] at hok ⊢
          -- a field whose claim succeeded is followed by the others, which are placed too
          exact .cons (.withChild (hfirst hresult)) (ih hrest hclaimed.coherent hok)

/-- **Elements** that are all placed have counted what they built. -/
theorem continues_placeElements {stride : Nat} {elements : List Node}
    (hclaim : ClaimsCounting region d claimChild)
    (helements : ∀ e ∈ elements, e.Sound ∧ e.depth ≤ d ∧ e.Pristine) (hshared : shared.Coherent)
    (hok : (placeElements claimChild stride start elements shared).result = .ok ()) :
    List.Forall₂ Continues elements (placeElements claimChild stride start elements shared).state := by
  induction elements generalizing start shared with
  | nil => exact .nil
  | cons e rest ih =>
    obtain ⟨⟨hsound, hdepth, hpristine⟩, hrest⟩ := List.forall_mem_cons.1 helements
    obtain ⟨hclaimed, hfirst⟩ := hclaim e hdepth hsound hpristine start shared hshared
    simp only [placeElements] at hok ⊢
    cases hresult : (claimChild start e shared).result with
    | error fault =>
      simp only [hresult] at hok
      cases hok
    | ok =>
      simp only [hresult] at hok ⊢
      exact .cons (hfirst hresult) (ih hrest hclaimed.coherent hok)

section array

variable {status : Status ArrayPlan} {head : ArrayHead} {template : Node}
  {alternatives : List (Nat × Node)} {staged : List Node} {elements : List (Option Node)}

/-- A lazy array that gets storage has no elements then. -/
theorem made_replicate (hlazy : head.lazy = true) :
    Made head unasked (List.replicate head.length none) := by
  intro k
  have hnone : (List.replicate head.length (none : Option Node))[k]?.join = none := by
    rw [List.getElem?_replicate]
    split <;> rfl
  rw [hnone]
  constructor
  · rintro ⟨⟩
  · rintro ⟨-, h⟩
    obtain ⟨_, ⟨⟩⟩ := h hlazy

/-- Any other one has all its elements. -/
theorem made_placed {es : List Node} (hlazy : ¬ head.lazy = true) (hlength : es.length = head.length) :
    Made head unasked (es.map some) := by
  intro k
  have hget : (es.map some)[k]?.join = es[k]? := by
    rw [List.getElem?_map]
    cases es[k]? <;> rfl
  have hsome : es[k]?.isSome ↔ k < head.length := by simp [← hlength]
  rw [hget, hsome]
  exact ⟨fun hk => ⟨hk, fun h => absurd h hlazy⟩, And.left⟩

/-- A lazy array that gets storage has no elements then; any other one has those it had built. -/
theorem continues_placeChildren_array (hclaim : ClaimsCounting region d claimChild)
    (hdepth : (Node.array status head template alternatives staged elements).depth ≤ d + 1)
    (hn : (Node.array status head template alternatives staged elements).Sound)
    (hready : (Node.array status head template alternatives staged elements).Ready)
    (hpristine : (Node.array status head template alternatives staged elements).Pristine)
    (hshared : shared.Coherent)
    (hok : (placeChildren claimChild start (.array status head template alternatives staged elements)
      shared).result = .ok ()) :
    Continues (.array status head template alternatives staged elements)
      (placeChildren claimChild start (.array status head template alternatives staged elements)
        shared).state := by
  obtain ⟨self, -, hsound, -⟩ := sound_array_iff.1 hn
  obtain ⟨-, hstaged, -⟩ := depth_array_le_iff.1 hdepth
  obtain rfl := hpristine.elements_eq_nil self
  obtain ⟨-, -, hpristine, -⟩ := forall_array_iff.1 hpristine
  cases hready with
  | array hdone =>
    simp only [placeChildren, stageElements_of_done hdone, Outcome.pure] at hok ⊢
    by_cases hlazy : head.lazy = true
    · simp only [if_pos hlazy]
      intro born hborn
      -- a lazy array stages nothing, so its calls are those of the plan alone
      obtain rfl : staged = [] := hborn.staged_eq_nil hlazy
      refine continues_array head.calls ?_ (fun _ h => h)
        (.inr (.inr ⟨rfl, made_replicate hlazy⟩)) (fun _ e he => by cases he) (fun k e he => ?_) born
        hborn
      · rw [built_replicate]
      · cases List.eq_of_mem_replicate (List.mem_of_getElem? he)
    · simp only [if_neg hlazy] at hok ⊢
      cases hplaced : (placeElements claimChild (strideOf status) start staged shared).result with
      | error fault =>
        simp only [hplaced] at hok
        cases hok
      | ok =>
        have hall : List.Forall₂ Continues staged _ :=
          continues_placeElements hclaim (fun e he => ⟨hsound e he, hstaged e he, hpristine e he⟩)
            hshared hplaced
        have hlength := hall.length_eq.symm.trans (hdone.resolve_left hlazy)
        refine continues_array head.calls ?_ (fun h => absurd h hlazy)
          (.inr (.inr ⟨rfl, made_placed hlazy hlength⟩)) (fun _ e he => by cases he) fun k e he => ?_
        · -- as many elements are placed as there were before
          rw [built_placed, ← hall.length_eq]
          rfl
        · rw [List.getElem?_map] at he
          obtain ⟨_, he, ⟨⟩⟩ := Option.map_eq_some_iff.1 he
          obtain ⟨c, hc, hce⟩ := forall₂_getElem? hall he
          exact ⟨c, .inl (List.mem_of_getElem? hc), hce⟩

end array

/-- **Children.** A ready structure builds nothing more for itself when its children are placed. -/
theorem continues_placeChildren (start : Nat) (hclaim : ClaimsCounting region d claimChild)
    (hdepth : n.depth ≤ d + 1) (hn : n.Sound) (hready : n.Ready) (hpristine : n.Pristine)
    (hshared : shared.Coherent) (hok : (placeChildren claimChild start n shared).result = .ok ()) :
    Continues n (placeChildren claimChild start n shared).state := by
  cases n with
  | leaf => exact .refl _
  | record status head fields =>
    have hchildren := (sound_record_iff.1 hn).2
    have hfields := depth_record_le_iff.1 hdepth
    have hpristine := (forall_record_iff.1 hpristine).2
    simp only [placeChildren] at hok ⊢
    cases hplan : status.plan? with
    | none => exact .refl _
    | some layout =>
      simp only [hplan] at hok
      exact continues_record (continues_placeFields hclaim
        (fun f hf => ⟨hchildren f hf, hfields f hf, hpristine f hf⟩) hshared hok)
  | array status head template alternatives staged elements =>
    exact continues_placeChildren_array hclaim hdepth hn hready hpristine hshared hok

end children

/-- To note a place counts nothing. -/
theorem continues_withPlacement (p : Placement) : Continues n (n.withPlacement p) := by
  cases n with
  | leaf status kind => exact continues_leaf
  | record status head fields =>
    exact continues_record (List.forall₂_same.2 fun f _ => ⟨rfl, rfl, .refl f.child⟩)
  | array status head template alternatives staged elements =>
    exact continues_array_same (by rw [planned_place])

/-- A structure that gets storage builds what is there afterwards. -/
theorem continues_claimWithin {region : Region} {ownership : Ownership} {operation : Operation}
    {offset : Nat} (hfuel : n.depth ≤ fuel) (hn : n.Sound) (hpristine : n.Pristine)
    (hshared : shared.Coherent)
    (hok : (claimWithin fuel region ownership operation offset n shared).result = .ok ()) :
    Continues n (claimWithin fuel region ownership operation offset n shared).state := by
  induction fuel generalizing n ownership operation offset shared with
  | zero => exact .refl n
  | succ fuel ih =>
    have hclaim : ClaimsCounting region fuel (claimWithin fuel region .claimed .claim) :=
      fun m hm hsound hpristine offset shared hs =>
        ⟨claimed_claimWithin hm hsound hs, ih hm hsound hpristine hs⟩
    simp only [claimWithin] at hok ⊢
    split at hok
    next s hs =>
      by_cases hfull : region.length - offset < s.footprint
      · rw [if_pos hfull] at hok
        cases hok
      · rw [if_neg hfull] at hok ⊢
        have hprepared := prepared_prepare hn hshared
        have hready := continues_prepare hn hpristine hshared
        have hafter := lasting_pristineHere.prepare hn hpristine hshared
        -- preparing builds what is staged, and placing makes elements of it
        generalize n.prepare shared = ready at hprepared hready hafter hok ⊢
        cases hresult : ready.result with
        | error fault =>
          rw [Outcome.bind_eq_of_error hresult] at hok
          cases hok
        | ok =>
          rw [Outcome.bind_eq_of_ok hresult] at hok ⊢
          have hplaced := continues_placeChildren (offset + s.pre) hclaim
            (Nat.le_trans hprepared.depth_le hfuel) hprepared.sound (hprepared.ready hresult) hafter
            hprepared.coherent
          generalize placeChildren (claimWithin fuel region .claimed .claim) (offset + s.pre)
            ready.state ready.shared = placed at hplaced hok ⊢
          cases hdone : placed.result with
          | error fault =>
            rw [Outcome.bind_eq_of_error hdone] at hok
            cases hok
          | ok =>
            rw [Outcome.bind_eq_of_ok hdone]
            -- resolved, prepared and placed, one continues the other
            exact ((hready hresult).trans (hplaced hdone)).trans (continues_withPlacement _)
    next => cases hok

/-! ### Elements that are made later -/

variable {asked asked' : List Nat → Prop} {born : Node}

/-- A record of which one field changed, and in which nothing was asked for in any other field. -/
theorem Stems.setField {status : Status RecordLayout} {head : RecordHead} {fields : List (Field Node)}
    {k : Nat} {f : Field Node} {c : Node} (h : Stems asked born (.record status head fields))
    (hf : fields[k]? = some f) (hothers : ∀ j, k ≠ j → ∀ way, asked' (j :: way) ↔ asked (j :: way))
    (hchild : ∀ b, Stems (fun way => asked (k :: way)) b f.child →
      Stems (fun way => asked' (k :: way)) b c) :
    Stems asked' born (.record status head (fields.set k (f.withChild c))) := by
  have hsame : List.Forall₂ (Lift fun _ _ => True) fields (fields.set k (f.withChild c)) :=
    forall₂_set (fun _ _ => ⟨rfl, rfl, trivial⟩) hf (.withChild trivial)
  cases h with
  | record same children =>
    refine .record ((labels_of_lift hsame).trans same) fun j f₀ g hf₀ hg => ?_
    by_cases hj : k = j
    · subst hj
      rw [List.getElem?_set_self (List.getElem?_eq_some_iff.1 hf).1] at hg
      cases hg
      exact hchild _ (children k f₀ f hf₀ hf)
    · -- any other field stems from what it did, after the same questions
      rw [List.getElem?_set_ne hj] at hg
      exact (children j f₀ g hf₀ hg).congr fun i way => hothers j hj (i :: way)

section array

variable {status : Status ArrayPlan} {head : ArrayHead} {template : Node}
  {alternatives : List (Nat × Node)} {staged : List Node} {elements : List (Option Node)} {k : Nat}
  {c e : Node}

/-- An array of which one element changed or is new, and in which nothing was asked for at any other
index. -/
theorem Stems.setElement (calls : Nat)
    (h : Stems asked born (.array status head template alternatives staged elements))
    (hcounted : calls + built staged elements =
      head.calls + built staged (elements.set k (some e)))
    (hmade : staged = [] ∧ Made head asked' (elements.set k (some e)))
    (hothers : ∀ j, k ≠ j → ∀ way, asked' (j :: way) ↔ asked (j :: way))
    (hchild : (∃ call, Stems (fun way => asked' (k :: way)) (choose call alternatives template) e) ∨
      ∃ c, elements[k]? = some (some c) ∧ ∀ b, Stems (fun way => asked (k :: way)) b c →
        Stems (fun way => asked' (k :: way)) b e) :
    Stems asked' born
      (.array status { head with calls } template alternatives staged (elements.set k (some e))) := by
  cases h with
  | @array _ status₀ _ head₀ calls₀ _ _ _ _ default others counted lazy _ call call' waiting parts =>
    have hcounted : calls + built staged elements =
        calls₀ + built staged (elements.set k (some e)) := hcounted
    refine stems_array default others (by omega) lazy (.inr hmade)
      (fun e he => ⟨call e, waiting e he⟩) fun j c hc => ?_
    by_cases hj : k = j
    · subst hj
      obtain ⟨hlt, rfl⟩ : k < elements.length ∧ e = c := by
        rw [List.getElem?_set] at hc
        simpa using hc
      -- the element is a new one, or it continues the one that was there
      rcases hchild with hnew | ⟨c, hc, hstems⟩
      · exact hnew
      · exact ⟨call' k, hstems _ (parts k c hc)⟩
    · rw [List.getElem?_set_ne hj] at hc
      exact ⟨call' j, (parts j c hc).congr fun i way => hothers j hj (i :: way)⟩

/-- A stored array has the elements that were asked for. -/
theorem Stems.made (h : Stems asked born (.array status head template alternatives staged elements))
    (hlength : elements.length = head.length) (hpos : 0 < head.length) :
    staged = [] ∧ Made head asked elements := by
  cases h with
  | array _ _ _ _ made =>
    refine made.resolve_left ?_
    rintro rfl
    exact absurd hlength (Nat.ne_of_lt hpos)

/-- An array that is not lazy has an element at each of its indices. -/
theorem Made.countP_eq_length (h : Made head asked elements) (hlength : elements.length = head.length)
    (hlazy : ¬ head.lazy = true) : elements.countP Option.isSome = head.length := by
  rw [← hlength, List.countP_eq_length]
  intro e he
  obtain ⟨k, hk⟩ := List.mem_iff_getElem?.1 he
  obtain ⟨hindex, -⟩ := List.getElem?_eq_some_iff.1 hk
  have hsome := (h k).2 ⟨by omega, fun h => absurd h hlazy⟩
  rwa [hk] at hsome

/-- A lazy array has no element before one is asked for. -/
theorem Made.countP_eq_zero (h : Made head asked elements) (hlazy : head.lazy = true)
    (hnone : ∀ k way, ¬ asked (k :: way)) : elements.countP Option.isSome = 0 := by
  rw [List.countP_eq_zero]
  intro e he hsome
  obtain ⟨k, hk⟩ := List.mem_iff_getElem?.1 he
  obtain ⟨-, hasked⟩ := (h k).1 (by rwa [hk])
  obtain ⟨way, hway⟩ := hasked hlazy
  exact hnone k way hway

/-- After something is asked for at an index, or in the element there, an array with this element has
the elements that were asked for. -/
theorem Made.set (h : Made head asked elements) (hlength : elements.length = head.length)
    (hk : k < head.length) (hself : head.lazy = true → ∃ way, asked' (k :: way))
    (hothers : ∀ j, k ≠ j → ∀ way, asked' (j :: way) ↔ asked (j :: way)) :
    Made head asked' (elements.set k (some e)) := by
  intro j
  by_cases hj : k = j
  · subst hj
    rw [List.getElem?_set_self (by omega)]
    exact ⟨fun _ => ⟨hk, hself⟩, fun _ => rfl⟩
  · rw [List.getElem?_set_ne hj, h j]
    exact and_congr_right fun _ => imp_congr_right fun _ => exists_congr fun way =>
      (hothers j hj way).symm

/-- An array of which one element changed, after something more was asked for in it. -/
theorem Stems.inElement {plan : ArrayPlan} {p : Placement}
    (h : Stems asked born (.array (.allocated plan p) head template alternatives staged elements))
    (self : ArraySound (.allocated plan p) head template alternatives staged elements)
    (hc : elements[k]? = some (some c)) (hmore : ∀ way, asked (k :: way) → asked' (k :: way))
    (hothers : ∀ j, k ≠ j → ∀ way, asked' (j :: way) ↔ asked (j :: way))
    (hchild : ∀ b, Stems (fun way => asked (k :: way)) b c → Stems (fun way => asked' (k :: way)) b e) :
    Stems asked' born (.array (.allocated plan p) head template alternatives staged
      (elements.set k (some e))) := by
  obtain ⟨hlength, -⟩ := self.placed plan p rfl
  obtain ⟨hstaged, hall⟩ := h.made hlength (self.plan plan rfl).1
  obtain ⟨hk, hself⟩ := (hall k).1 (by rw [hc]; rfl)
  -- the element was there, so it is there once more, and was asked for
  have hmade : Made head asked' (elements.set k (some e)) := by
    refine hall.set hlength hk (fun hlazy => ?_) hothers
    obtain ⟨way, hway⟩ := hself hlazy
    exact ⟨way, hmore way hway⟩
  exact h.setElement head.calls (by rw [built_set_of_some hc]) ⟨hstaged, hmade⟩ hothers
    (.inr ⟨c, hc, hchild⟩)

/-- What is asked for at one index is not asked for at the others. -/
theorem asked_other {j : Nat} (hj : k ≠ j) (way : List Nat) :
    (asked (j :: way) ∨ j :: way = [k]) ↔ asked (j :: way) := by
  refine or_iff_left ?_
  rintro ⟨⟩
  exact hj rfl

/-- An element that an array builds and places is one call and one element. -/
theorem Stems.placed {plan : ArrayPlan} {p : Placement} {region : Region} {offset : Nat}
    (h : Stems asked born (.array (.allocated plan p) head template alternatives staged elements))
    (hn : (Node.array (.allocated plan p) head template alternatives staged elements).Sound)
    (hpristine : template.Pristine ∧ ∀ e ∈ alternatives, e.2.Pristine)
    (hshared : shared.Coherent) (hnone : elements[k]? = some none) :
    let made := build prepare (.allocated plan p) template alternatives k head shared
    made.result = .ok e → (claim region offset e made.shared).result = .ok () →
      Stems (fun way => asked way ∨ way = [k]) born
        (.array (.allocated plan p) made.state template alternatives staged
          (elements.set k (some (claim region offset e made.shared).state))) := by
  intro made hmade hplaced
  obtain ⟨self, ⟨hdefault, hothers⟩, -, -⟩ := sound_array_iff.1 hn
  obtain ⟨hlength, -⟩ := self.placed plan p rfl
  obtain ⟨hk, -⟩ := List.getElem?_eq_some_iff.1 hnone
  obtain ⟨hstaged, hall⟩ := h.made hlength (self.plan plan rfl).1
  -- nothing was asked for in the element, since it did not exist
  have hunasked : ∀ way, ¬ asked (k :: way) := by
    intro way hway
    have hsome := (hall k).2 ⟨by omega, fun _ => ⟨way, hway⟩⟩
    rw [hnone] at hsome
    cases hsome
  obtain ⟨d, hd⟩ : ∃ d, (Node.array (.allocated plan p) head template alternatives staged
      elements).depth = d + 1 := Nat.exists_eq_add_one.2 (depth_pos _)
  obtain ⟨⟨htemplate, halternatives⟩, -, -⟩ := depth_array_le_iff.1 (Nat.le_of_eq hd)
  have hprep : PreparesCounting d prepare :=
    fun _ _ hm _ hs => ⟨prepared_prepare hm hs, fun hm' => continues_prepare hm hm' hs⟩
  obtain ⟨hcoherent, hstate, hstems⟩ := stems_build head.calls hprep
    ⟨hdefault, htemplate⟩ (fun e he => ⟨hothers e he, halternatives e he⟩) hpristine h.templates hshared
    hmade
  have hfresh : Makes head (fun e => e.Pristine)
      (build prepare (.allocated plan p) template alternatives k head shared) :=
    lasting_pristineHere.build
      (fun m _ hm hp _ hs => ⟨prepared_prepare hm hs, lasting_pristineHere.prepare hm hp hs⟩)
      ⟨hdefault, htemplate, hpristine.1⟩
      (fun e he => ⟨hothers e he, halternatives e he, hpristine.2 e he⟩) k head.calls hshared
  have hsound : e.Sound := ((fresh_build hn k hshared).ok e hmade).sound
  have hclaimed : Continues e (claim region offset e made.shared).state :=
    continues_claimWithin (Nat.le_refl _) hsound (hfresh.ok e hmade) hcoherent hplaced
  rw [show made.state = { head with calls := head.calls + 1 } from hstate]
  refine h.setElement _ ?_ ⟨hstaged, ?_⟩ (fun j hj way => asked_other hj way) (.inl ⟨head.calls, ?_⟩)
  · rw [built_set_of_none hnone]
    omega
  · exact hall.set hlength (by omega) (fun _ => ⟨[], .inr rfl⟩) fun j hj way => asked_other hj way
  · refine (hclaimed _ hstems).congr fun j way => iff_of_false ?_ id
    rintro (hway | ⟨⟨⟩⟩)
    exact hunasked _ hway

end array

/-- An element that is made is built with one call, unless it was there. -/
theorem Stems.materialize {index : Nat} (h : Stems asked born n) (hn : n.Sound)
    (hcomplete : n.Complete) (hshared : shared.Coherent)
    (hok : (n.materialize index shared).result = .ok ()) :
    Stems (fun way => asked way ∨ way = [index]) born (n.materialize index shared).state := by
  cases n with
  | leaf => cases hok
  | record => cases hok
  | array status head template alternatives staged elements =>
    cases status with
    | unallocated => cases hok
    | allocatable => cases hok
    | allocated plan p =>
      obtain ⟨self, -⟩ := sound_array_iff.1 hn
      obtain ⟨hlength, -⟩ := self.placed plan p rfl
      simp only [Node.materialize] at hok ⊢
      by_cases hindex : index < head.length
      · simp only [if_pos hindex] at hok ⊢
        cases hjoin : elements[index]?.join with
        | some e =>
          have he : elements[index]? = some (some e) := Option.join_eq_some_iff.1 hjoin
          -- an element that is there is put back where it was, so nothing is counted
          have hsame : elements.set index (some e) = elements := by
            obtain ⟨hlt, hget⟩ := List.getElem?_eq_some_iff.1 he
            rw [← hget, List.set_getElem_self hlt]
          have hset : Stems (fun way => asked way ∨ way = [index]) born (.array (.allocated plan p) head
              template alternatives staged (elements.set index (some e))) :=
            h.inElement self he (fun _ => .inl) (fun j hj way => asked_other hj way)
              fun b hb => hb.congr fun j way => or_iff_left (by rintro ⟨⟨⟩⟩)
          rwa [hsame] at hset
        | none =>
          have hnone : elements[index]? = some none := by
            rw [List.getElem?_eq_getElem (by omega)] at hjoin ⊢
            exact congrArg some hjoin
          simp only [hjoin] at hok ⊢
          cases hmade : (build prepare (.allocated plan p) template alternatives index head
              shared).result with
          | error fault =>
            simp only [hmade] at hok
            cases hok
          | ok e =>
            simp only [hmade] at hok ⊢
            cases hplaced : (claim p.region (p.offset + index * plan.stride) e
                (build prepare (.allocated plan p) template alternatives index head
                  shared).shared).result with
            | error fault =>
              simp only [hplaced] at hok
              cases hok
            | ok =>
              cases hcomplete with
              | array _ _ default others =>
                exact h.placed hn ⟨default, others⟩ hshared hnone hmade hplaced
      · simp only [if_neg hindex] at hok
        cases hok

end NativeLayout.Node
