import NativeLayout.Proofs.Tree.Advance
import NativeLayout.Proofs.Tree.Commit

namespace NativeLayout.Node

/-!
# What becomes of a structure

An array counts how often it builds something.  Here the count is compared with what there is: one for
the plan, and one for each element.

* `Untried` — no array in the structure built an element so far.
* `Stems` — what became of a structure: each array in it has counted as much as it has built since then,
  each of its elements is what became of one of its templates, and if it is lazy it has exactly those
  elements that were asked for.
* `Stems.at`, `Stems.tallied` — what this says of each array.
* `Continues` — a structure that stems from all that another one stems from, as long as no element was
  asked for.
* `continues_resolve`, `continues_prepare` — what succeeds builds nothing that is not there afterwards.
-/

/-- If the structure is an array, it built no element so far. -/
def UntriedHere : Node → Prop
  | .array _ _ _ _ staged elements => staged = [] ∧ elements = []
  | _ => True

/-- No array in the structure built an element so far, and none in a template. -/
abbrev Untried (n : Node) : Prop := n.Forall UntriedHere

/-- One for an array that has a plan, since its first element was built for that. -/
def planned (status : Status ArrayPlan) : Nat := if status.plan?.isSome then 1 else 0

/-- To get storage is not to be planned again. -/
theorem planned_place (status : Status ArrayPlan) (p : Placement) :
    planned (status.place p) = planned status := by
  cases status <;> rfl

/-- How many elements an array has, placed or not. -/
def built (staged : List Node) (elements : List (Option Node)) : Nat :=
  staged.length + elements.countP Option.isSome

/-- There is nothing at an index whose element is not made yet. -/
theorem built_replicate (staged : List Node) (count : Nat) :
    built staged (List.replicate count none) = built staged [] := by
  simp [built, List.countP_replicate]

/-- Elements count the same whether they are placed or not. -/
theorem built_placed (es : List Node) : built [] (es.map some) = es.length := by
  have hall : es.countP (Option.isSome ∘ some) = es.length := List.countP_eq_length.2 fun _ _ => rfl
  rw [built, List.countP_map, hall, List.length_nil, Nat.zero_add]

section set

variable {staged : List Node} {elements : List (Option Node)} {index : Nat} {e e' : Node}

/-- One more element, at an index that had none. -/
theorem built_set_of_none (hnone : elements[index]? = some none) :
    built staged (elements.set index (some e)) = built staged elements + 1 := by
  obtain ⟨hlt, hget⟩ := List.getElem?_eq_some_iff.1 hnone
  rw [built, built, List.countP_set hlt, hget]
  exact Nat.add_assoc _ _ 1

/-- Another element, at an index that had one. -/
theorem built_set_of_some (he : elements[index]? = some (some e)) :
    built staged (elements.set index (some e')) = built staged elements := by
  obtain ⟨hlt, hget⟩ := List.getElem?_eq_some_iff.1 he
  have hpos : 0 < elements.countP Option.isSome :=
    List.countP_pos_iff.2 ⟨some e, List.mem_of_getElem? he, rfl⟩
  rw [built, built, List.countP_set hlt, hget]
  exact congrArg (staged.length + ·) (Nat.sub_add_cancel hpos)

end set

/-! ### Where structures come from -/

/-- Of a stored array: it has an element for each index, if it is lazy for each that was asked for, be
it for something inside the element. -/
def Made (head : ArrayHead) (asked : List Nat → Prop) (elements : List (Option Node)) : Prop :=
  ∀ k, (elements[k]?.join).isSome ↔ k < head.length ∧ (head.lazy = true → ∃ way, asked (k :: way))

/-- No element was asked for. -/
abbrev unasked : List Nat → Prop := fun _ => False

/-- What became of a structure, after the elements at the ends of some ways were asked for.  A record
still has its fields; an array counted one call for its plan, if it did not have one, and one for each
of its elements. -/
inductive Stems : (List Nat → Prop) → Node → Node → Prop where
  | leaf {asked : List Nat → Prop} {status status' : Status Shape} {kind : Leaf} :
      Stems asked (.leaf status kind) (.leaf status' kind)
  | record {asked : List Nat → Prop} {status status' : Status RecordLayout} {head : RecordHead}
      {fields fields' : List (Field Node)} (same : labels fields' = labels fields)
      (children : ∀ (k : Nat) (f g : Field Node), fields[k]? = some f → fields'[k]? = some g →
        Stems (fun way => asked (k :: way)) f.child g.child) :
      Stems asked (.record status head fields) (.record status' head fields')
  | array {asked : List Nat → Prop} {status status' : Status ArrayPlan} {head : ArrayHead}
      {calls : Nat} {template : Node} {alternatives : List (Nat × Node)} {staged : List Node}
      {elements : List (Option Node)}
      (default : template.Untried) (others : ∀ e ∈ alternatives, e.2.Untried)
      (counted : calls + planned status = head.calls + planned status' + built staged elements)
      (lazy : head.lazy = true → staged = [])
      (made : elements = [] ∨ staged = [] ∧ Made head asked elements) (call : Node → Nat)
      (call' : Nat → Nat)
      (waiting : ∀ e ∈ staged, Stems unasked (choose (call e) alternatives template) e)
      (parts : ∀ (k : Nat) (e : Node), elements[k]? = some (some e) →
        Stems (fun way => asked (k :: way)) (choose (call' k) alternatives template) e) :
      Stems asked (.array status head template alternatives [] [])
        (.array status' { head with calls } template alternatives staged elements)

variable {n : Node} {asked : List Nat → Prop}

section array

variable {status status' : Status ArrayPlan} {head : ArrayHead} {calls : Nat} {template : Node}
  {alternatives : List (Nat × Node)} {staged : List Node} {elements : List (Option Node)}

/-- The part of an array at each index stems from what some call built. -/
theorem stems_array (default : template.Untried) (others : ∀ e ∈ alternatives, e.2.Untried)
    (counted : calls + planned status = head.calls + planned status' + built staged elements)
    (lazy : head.lazy = true → staged = [])
    (made : elements = [] ∨ staged = [] ∧ Made head asked elements)
    (waiting : ∀ e ∈ staged, ∃ call, Stems unasked (choose call alternatives template) e)
    (parts : ∀ (k : Nat) (e : Node), elements[k]? = some (some e) →
      ∃ call, Stems (fun way => asked (k :: way)) (choose call alternatives template) e) :
    Stems asked (.array status head template alternatives [] [])
      (.array status' { head with calls } template alternatives staged elements) := by
  have hwaiting : ∀ e, ∃ call, e ∈ staged → Stems unasked (choose call alternatives template) e := by
    intro e
    by_cases he : e ∈ staged
    · obtain ⟨call, hcall⟩ := waiting e he
      exact ⟨call, fun _ => hcall⟩
    · exact ⟨0, fun h => absurd h he⟩
  have hparts : ∀ k, ∃ call, ∀ e, elements[k]? = some (some e) →
      Stems (fun way => asked (k :: way)) (choose call alternatives template) e := by
    intro k
    by_cases he : ∃ e, elements[k]? = some (some e)
    · obtain ⟨e, he⟩ := he
      obtain ⟨call, hcall⟩ := parts k e he
      refine ⟨call, fun c hc => ?_⟩
      cases he.symm.trans hc
      exact hcall
    · exact ⟨0, fun e h => absurd ⟨e, h⟩ he⟩
  -- one call is chosen for each staged element, and one for each index
  obtain ⟨call, hcall⟩ := Classical.skolem.1 hwaiting
  obtain ⟨call', hcall'⟩ := Classical.skolem.1 hparts
  exact .array default others counted lazy made call call' hcall hcall'

/-- The templates of an array that stems from another one. -/
theorem Stems.templates {born : Node}
    (h : Stems asked born (.array status head template alternatives staged elements)) :
    template.Untried ∧ ∀ e ∈ alternatives, e.2.Untried := by
  cases h with
  | array default others => exact ⟨default, others⟩

/-- A lazy array never builds in advance. -/
theorem Stems.staged_eq_nil {born : Node}
    (h : Stems asked born (.array status head template alternatives staged elements))
    (hlazy : head.lazy = true) : staged = [] := by
  cases h with
  | array _ _ _ lazy => exact lazy hlazy

end array

/-- What a structure that was not tried stems from is itself. -/
theorem Untried.stems (h : n.Untried) : Stems asked n n := by
  induction h generalizing asked with
  | leaf => exact .leaf
  | record _ _ ih =>
    refine .record rfl fun k f g hf hg => ?_
    rw [hf] at hg
    cases hg
    exact ih f (List.mem_of_getElem? hf)
  | @array status head template alternatives staged elements self default others =>
    obtain ⟨rfl, rfl⟩ := self
    exact stems_array default others rfl (fun _ => rfl) (.inl rfl) (by simp) (by simp)

/-- What is asked for at the end of no way at all does not matter. -/
theorem Stems.congr {asked' : List Nat → Prop} {born now : Node} (h : Stems asked born now)
    (hasked : ∀ k way, asked' (k :: way) ↔ asked (k :: way)) : Stems asked' born now := by
  have hsame : ∀ k, (fun way => asked (k :: way)) = fun way => asked' (k :: way) :=
    fun k => funext fun way => (propext (hasked k way)).symm
  cases h with
  | leaf => exact .leaf
  | record same children => exact .record same fun k f g hf hg => hsame k ▸ children k f g hf hg
  | array default others counted lazy made call call' waiting parts =>
    refine .array default others counted lazy ?_ call call' waiting
      fun k e he => hsame k ▸ parts k e he
    refine made.imp_right (And.imp_right fun h k => (h k).trans ?_)
    exact and_congr_right fun _ => imp_congr_right fun _ => exists_congr fun way => (hasked k way).symm

/-- The field that was there from the beginning. -/
theorem field_of_labels {fields fields' : List (Field Node)} (h : labels fields' = labels fields)
    {k : Nat} {g : Field Node} (hg : fields'[k]? = some g) : ∃ f, fields[k]? = some f := by
  have hlength : fields'.length = fields.length := by simpa [labels] using congrArg List.length h
  obtain ⟨hk, -⟩ := List.getElem?_eq_some_iff.1 hg
  have hk : k < fields.length := by omega
  exact ⟨fields[k], List.getElem?_eq_getElem hk⟩

/-- Every structure inside stems from something, after what was asked for there, and from nothing that
has not all the properties of the whole. -/
theorem Stems.at {P : Node → Prop} {born now c : Node} {route : List Nat} (h : Stems asked born now)
    (hborn : born.Forall P) (hc : now.at? route = some c) :
    ∃ b : Node, b.Forall P ∧ Stems (fun way => asked (route ++ way)) b c := by
  induction h generalizing route with
  | leaf =>
    cases route with
    | nil =>
      cases hc
      exact ⟨_, hborn, .leaf⟩
    | cons => cases hc
  | @record asked status status' head fields fields' same children ih =>
    cases route with
    | nil =>
      cases hc
      exact ⟨_, hborn, .record same children⟩
    | cons k route =>
      obtain ⟨m, hm, hc⟩ := Option.bind_eq_some_iff.1 hc
      obtain ⟨g, hg, rfl⟩ := Option.map_eq_some_iff.1 hm
      obtain ⟨f, hf⟩ := field_of_labels same hg
      exact ih k f g hf hg ((forall_record_iff.1 hborn).2 f (List.mem_of_getElem? hf)) hc
  | array default others counted lazy made call call' waiting parts _ ih =>
    cases route with
    | nil =>
      cases hc
      exact ⟨_, hborn, .array default others counted lazy made call call' waiting parts⟩
    | cons k route =>
      obtain ⟨e, he, hc⟩ := Option.bind_eq_some_iff.1 hc
      obtain ⟨-, ⟨hdefault, hothers⟩, -⟩ := forall_array_iff.1 hborn
      -- what an element stems from is a template, and these have the properties too
      exact ih k e (Option.join_eq_some_iff.1 he)
        (choose_induction (P := fun m : Node => m.Forall P) hdefault hothers) hc

/-- If the structure is an array, it is not resolved and built nothing so far. -/
def UncalledHere : Node → Prop
  | .array status head _ _ _ _ => status.plan? = none ∧ head.calls = 0
  | _ => True

/-- If the structure is an array, its calls are one for its plan and one for each of its elements. -/
def TalliedHere : Node → Prop
  | .array status head _ _ staged elements => head.calls = planned status + built staged elements
  | _ => True

/-- Where nothing was built at first, all calls of all arrays are accounted for. -/
theorem Stems.tallied {born now c : Node} {route : List Nat} (h : Stems asked born now)
    (hborn : born.Forall UncalledHere) (hc : now.at? route = some c) : c.TalliedHere := by
  obtain ⟨b, hb, hstems⟩ := h.at hborn hc
  cases hstems with
  | leaf => trivial
  | record => trivial
  | @array _ status status' head calls _ _ staged elements _ _ counted =>
    obtain ⟨hplan, hcalls⟩ : status.plan? = none ∧ head.calls = 0 := hb.self_of
    have hnone : planned status = 0 := by rw [planned, hplan]; rfl
    show calls = planned status' + built staged elements
    omega

/-! ### Structures that continue others -/

/-- Whatever the first one stems from, the second one does, as long as no element was asked for. -/
def Continues (n m : Node) : Prop := ∀ born, Stems unasked born n → Stems unasked born m

@[refl] theorem Continues.refl (n : Node) : Continues n n := fun _ h => h

/-- What a structure stems from is the same through both steps. -/
theorem Continues.trans {a b c : Node} (hab : Continues a b) (hbc : Continues b c) : Continues a c :=
  fun born h => hbc born (hab born h)

/-- A leaf has nothing to count. -/
theorem continues_leaf {status status' : Status Shape} {kind : Leaf} :
    Continues (.leaf status kind) (.leaf status' kind) := by
  intro born h
  cases h with
  | leaf => exact .leaf

/-- A record whose fields continue what they were. -/
theorem continues_record {status status' : Status RecordLayout} {head : RecordHead}
    {fields fields' : List (Field Node)} (h : List.Forall₂ (Lift Continues) fields fields') :
    Continues (.record status head fields) (.record status' head fields') := by
  intro born hborn
  cases hborn with
  | record same children =>
    refine .record ((labels_of_lift h).trans same) fun k f g hf hg => ?_
    obtain ⟨g', hg', hlift⟩ := forall₂_getElem? h hg
    exact hlift.child _ (children k f g' hf hg')

section array

variable {status status' : Status ArrayPlan} {head : ArrayHead} {template : Node}
  {alternatives : List (Nat × Node)} {staged staged' : List Node}
  {elements elements' : List (Option Node)}

/-- An array that counted what it built: its elements continue those it had, or are built from
templates. -/
theorem continues_array (calls : Nat)
    (hcounted : calls + planned status + built staged elements =
      head.calls + planned status' + built staged' elements')
    (hlazy : head.lazy = true → staged = [] → staged' = [])
    (hmade : staged' = staged ∧ elements' = elements ∨ elements' = [] ∨
      staged' = [] ∧ Made head unasked elements')
    (hwaiting : (template.Untried ∧ ∀ e ∈ alternatives, e.2.Untried) → ∀ e ∈ staged',
      (∃ c ∈ staged, Continues c e) ∨ ∃ call, Stems unasked (choose call alternatives template) e)
    (hparts : ∀ (k : Nat) (e : Node), elements'[k]? = some (some e) →
      ∃ c, (c ∈ staged ∨ elements[k]? = some (some c)) ∧ Continues c e) :
    Continues (.array status head template alternatives staged elements)
      (.array status' { head with calls } template alternatives staged' elements') := by
  intro born h
  cases h with
  | @array _ status₀ _ head₀ calls₀ _ _ _ _ default others counted lazy made call call' waiting parts =>
    have hcounted : calls + planned status + built staged elements =
        calls₀ + planned status' + built staged' elements' := hcounted
    refine stems_array default others (by omega) (fun h => hlazy h (lazy h)) ?_ ?_ ?_
    · rcases hmade with ⟨rfl, rfl⟩ | hmade
      · exact made
      · exact hmade
    · intro e he
      rcases hwaiting ⟨default, others⟩ e he with ⟨c, hc, hcontinues⟩ | hstems
      · exact ⟨call c, hcontinues _ (waiting c hc)⟩
      · exact hstems
    · -- what is at an index was staged, or was there, and stems from the call of either
      intro k e he
      obtain ⟨c, hc | hc, hcontinues⟩ := hparts k e he
      · exact ⟨call c, hcontinues _ (waiting c hc)⟩
      · exact ⟨call' k, hcontinues _ (parts k c hc)⟩

/-- An array that learned something and is the same apart from that. -/
theorem continues_array_same {calls : Nat}
    (hcounted : calls + planned status = head.calls + planned status') :
    Continues (.array status head template alternatives staged elements)
      (.array status' { head with calls } template alternatives staged elements) :=
  continues_array calls (by omega) (fun _ h => h) (.inl ⟨rfl, rfl⟩)
    (fun _ e he => .inl ⟨e, he, .refl e⟩) fun _ e he => ⟨e, .inr he, .refl e⟩

end array

variable {s : Shape} {shared : Shared} {d fuel : Nat}

/-! ### Resolving -/

/-- An array that is resolved counts one call, for its plan. -/
theorem continues_resolve (hshared : shared.Coherent) (hok : (n.resolve shared).result = .ok s) :
    Continues n (n.resolve shared).state := by
  induction n.forall_true generalizing shared s with
  | @leaf status kind =>
    cases status with
    | unallocated =>
      simp only [resolve, Status.plan?]
      split
      · exact .refl _
      · exact continues_leaf
    | allocatable => exact .refl _
    | allocated => exact .refl _
  | @record status head fields _ _ ih =>
    cases status with
    | unallocated =>
      have hcoherent : ∀ f : Field Node, ∀ shared : Shared, shared.Coherent →
          (f.child.resolve shared).shared.Coherent :=
        fun f shared hs => (f.child.oblivious_resolve shared shared hs hs).left
      have hafter : (traverse (fun (f : Field Node) shared =>
          (f.child.resolve shared).mapState f.withChild) fields shared).shared.Coherent :=
        (traverse_forall₂ (R := fun _ _ => True) (fun _ _ => trivial)
          (fun f _ shared hs => ⟨hcoherent f shared hs, trivial⟩) hshared).1
      obtain ⟨shapes, l, hresult, -, -, hstate⟩ := resolve_record_eq_ok rfl hafter hok
      rw [hstate]
      refine continues_record (traverse_forall₂_of_ok (fun f hf shared hs => ?_) hshared hresult)
      exact ⟨hcoherent f shared hs, fun _ hfield => .withChild (ih f hf hs hfield)⟩
    | allocatable => exact .refl _
    | allocated => exact .refl _
  | @array status head template alternatives staged elements =>
    cases status with
    | unallocated =>
      obtain ⟨plan, -, -, -, hstate⟩ := resolve_array_eq_ok rfl hok
      rw [hstate]
      -- the plan is one call more; nothing is built for it that stays
      exact continues_array_same rfl
    | allocatable => exact .refl _
    | allocated => exact .refl _

/-! ### Preparing -/

/-- An operation that prepares every sound structure that is not too deep, and builds nothing for a
pristine one that is not there afterwards. -/
def PreparesCounting (d : Nat) (prep : Node → Shared → Outcome Node Unit) : Prop :=
  ∀ m : Node, m.depth ≤ d → m.Sound → ∀ shared : Shared, shared.Coherent →
    Prepared m (prep m shared) ∧
      (m.Pristine → (prep m shared).result = .ok () → Continues m (prep m shared).state)

section array

variable {prep : Node → Shared → Outcome Node Unit} {status : Status ArrayPlan} {head : ArrayHead}
  {template : Node} {alternatives : List (Nat × Node)} {staged : List Node}
  {elements : List (Option Node)}

/-- An array without storage has no elements. -/
theorem Pristine.elements_eq_nil
    (h : (Node.array status head template alternatives staged elements).Pristine)
    (self : ArraySound status head template alternatives staged elements) : elements = [] := by
  obtain ⟨hnone, -⟩ := h.self_of
  refine self.unplaced ?_
  rwa [placement?, Node.status, Status.placement?_map] at hnone

/-- What an array builds stems from the template that it chose. -/
theorem stems_build (calls : Nat) (hprep : PreparesCounting d prep)
    (hdefault : template.Sound ∧ template.depth ≤ d)
    (hothers : ∀ e ∈ alternatives, e.2.Sound ∧ e.2.depth ≤ d)
    (hpristine : template.Pristine ∧ ∀ e ∈ alternatives, e.2.Pristine)
    (huntried : template.Untried ∧ ∀ e ∈ alternatives, e.2.Untried) {index : Nat} {e : Node}
    (hshared : shared.Coherent)
    (h : (build prep status template alternatives index { head with calls } shared).result = .ok e) :
    (build prep status template alternatives index { head with calls } shared).shared.Coherent ∧
      (build prep status template alternatives index { head with calls } shared).state =
        { head with calls := calls + 1 } ∧ Stems unasked (choose calls alternatives template) e := by
  obtain ⟨⟨hsound, hdepth⟩, hpristine, huntried⟩ : ((choose calls alternatives template).Sound ∧
      (choose calls alternatives template).depth ≤ d) ∧
      (choose calls alternatives template).Pristine ∧ (choose calls alternatives template).Untried :=
    choose_induction (P := fun m : Node => (m.Sound ∧ m.depth ≤ d) ∧ m.Pristine ∧ m.Untried)
      ⟨hdefault, hpristine.1, huntried.1⟩
      fun e he => ⟨hothers e he, hpristine.2 e he, huntried.2 e he⟩
  have hmakes : Makes head (Fresh d status)
      (build prep status template alternatives index { head with calls } shared) :=
    makes_build (fun m hm hs shared hc => (hprep m hm hs shared hc).1) hdefault hothers index calls
      hshared
  obtain ⟨⟨s, hmade⟩, hready, rfl, hstate⟩ := build_eq_ok h
  have hcounted := hshared.count head.counter
  have hresolved := resolved_resolve hsound hcounted
  have hresolve : Continues (choose calls alternatives template) _ :=
    continues_resolve hcounted hmade
  -- the chosen template is resolved and then prepared, and each step continues it
  obtain ⟨-, hprepare⟩ := hprep _ (Nat.le_trans hresolved.depth_le hdepth) hresolved.sound _
    hresolved.coherent
  have hafter := lasting_pristineHere.resolve hpristine hcounted
  exact ⟨hmakes.coherent, hstate, hprepare hafter hready _ (hresolve _ huntried.stems)⟩

/-- An array that gets its elements ready. -/
theorem continues_stageElements (hprep : PreparesCounting d prep)
    (self : ArraySound status head template alternatives staged elements)
    (hpristine : (Node.array status head template alternatives staged elements).Pristine)
    (hdefault : template.Sound ∧ template.depth ≤ d)
    (hothers : ∀ e ∈ alternatives, e.2.Sound ∧ e.2.depth ≤ d) (hshared : shared.Coherent)
    (hok : (stageElements prep status head template alternatives staged shared).result = .ok ()) :
    Continues (.array status head template alternatives staged elements)
      (.array status (stageElements prep status head template alternatives staged shared).state.1
        template alternatives
        (stageElements prep status head template alternatives staged shared).state.2 elements) := by
  by_cases hdone : head.lazy = true ∨ staged.length = head.length
  · rw [stageElements_of_done hdone]
    exact .refl _
  · -- nothing is staged yet: what is staged is staged for all indices
    have hlazy : ¬ head.lazy = true := fun h => hdone (.inl h)
    obtain rfl : staged = [] := self.stagedAll.resolve_right fun h => hdone (.inr h)
    obtain ⟨-, htemplates, -⟩ := forall_array_iff.1 hpristine
    obtain rfl := hpristine.elements_eq_nil self
    simp only [stageElements, if_neg hdone] at hok ⊢
    cases hmade : (buildMany (build prep status template alternatives) head.length 0 head
        shared).result with
    | error fault =>
      simp only [hmade] at hok
      cases hok
    | ok es =>
      simp only [Outcome.pure]
      intro born hborn
      obtain ⟨hstate, hlength, hall⟩ := buildMany_eq_ok
        (Q := fun e => ∃ call, Stems unasked (choose call alternatives template) e)
        (fun index calls shared hs e he =>
          have hbuilt := stems_build calls hprep hdefault hothers htemplates hborn.templates hs he
          ⟨hbuilt.1, hbuilt.2.1, calls, hbuilt.2.2⟩)
        head.calls hshared hmade
      rw [hstate]
      refine continues_array _ ?_ (fun h => absurd h hlazy) (.inr (.inl rfl))
        (fun _ e he => .inr (hall e he)) (fun _ e he => ⟨e, .inr he, .refl e⟩) born hborn
      simp only [built, hlength, List.length_nil]
      omega

end array

/-- **Preparing** builds the elements of an array once, at the first level that asks for them. -/
theorem continues_prepareWithin (hfuel : n.depth ≤ fuel) (hn : n.Sound) (hpristine : n.Pristine)
    (hshared : shared.Coherent)
    (hok : (prepareWithin fuel n shared).result = .ok ()) :
    Continues n (prepareWithin fuel n shared).state := by
  -- over the fuel: what is built for an array is prepared as well, and is no part of it yet
  induction fuel generalizing n shared with
  | zero => exact .refl n
  | succ fuel ih =>
    cases n with
    | leaf => exact .refl _
    | record status head fields =>
      have hchildren := (sound_record_iff.1 hn).2
      have hdepth := depth_record_le_iff.1 hfuel
      have hfields := (forall_record_iff.1 hpristine).2
      obtain ⟨values, hvalues⟩ : ∃ values, (traverse (fun (f : Field Node) shared =>
          (prepareWithin fuel f.child shared).mapState f.withChild) fields shared).result =
            .ok values := Outcome.ok_of_map hok
      refine continues_record (traverse_forall₂_of_ok (fun f hf shared hs => ?_) hshared hvalues)
      have hprepared := prepared_prepareWithin (hdepth f hf) (hchildren f hf) hs
      exact ⟨hprepared.coherent, fun _ hfield =>
        .withChild (ih (hdepth f hf) (hchildren f hf) (hfields f hf) hs hfield)⟩
    | array status head template alternatives staged elements =>
      obtain ⟨self, ⟨hdefault, hothers⟩, -, -⟩ := sound_array_iff.1 hn
      obtain ⟨⟨htemplate, halternatives⟩, -, -⟩ := depth_array_le_iff.1 hfuel
      exact continues_stageElements
        (fun m hm hsound _ hs =>
          ⟨prepared_prepareWithin hm hsound hs, fun hm' => ih hm hsound hm' hs⟩) self hpristine
        ⟨hdefault, htemplate⟩ (fun e he => ⟨hothers e he, halternatives e he⟩) hshared hok

/-- The same for the fuel that preparing is given. -/
theorem continues_prepare (hn : n.Sound) (hpristine : n.Pristine) (hshared : shared.Coherent)
    (hok : (n.prepare shared).result = .ok ()) : Continues n (n.prepare shared).state :=
  continues_prepareWithin (Nat.le_refl _) hn hpristine hshared hok

end NativeLayout.Node
