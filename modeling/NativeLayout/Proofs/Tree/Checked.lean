import NativeLayout.Proofs.Arena.Push
import NativeLayout.Proofs.Memory.Heap
import NativeLayout.Proofs.Tree.Commit

namespace NativeLayout.Node

/-!
# No offset leaves the words

Giving storage adds and multiplies offsets without a look at the result.  Here are the same operations
once more, each sum and each product checked: a result that is no word is an overflow.

* `Checked.claimWithin`, `Checked.allocate`, `Checked.materialize` — the operations with checks.
* `Checked.claimWithin_eq` — where the footprint of a structure ends at a word, no check fails.
* `Checked.allocate_eq` — so none fails in a region that was made for the structure.
* `Complete.checked_materialize` — and none fails when an element of a complete array is made.
-/

namespace Checked

/-! ### The operations with checks -/

/-- Goes on with a word; a result that is none is an overflow. -/
def withWord {σ α : Type} (word : Option Nat) (shared : Shared) (state : σ)
    (next : Nat → Outcome σ α) : Outcome σ α :=
  match word with
  | some word => next word
  | none => .fail shared state (.layout .overflow)

/-- All bytes of a shape. -/
def footprint? (s : Shape) : Option Nat :=
  (Word.add? s.pre s.size).bind fun bytes => Word.add? bytes s.post

/-- The offset of an element, some strides behind the first one. -/
def slot? (start stride index : Nat) : Option Nat :=
  (Word.mul? index stride).bind fun bytes => Word.add? start bytes

/-- The sum that leads to a field is checked; its leading padding is taken away with a check anyway. -/
def placeFields (claimChild : Nat → Node → Shared → Outcome Node Unit) (start : Nat) :
    List (Field Node) → List Nat → Shared → Outcome (List (Field Node)) Unit
  | f :: rest, offset :: offsets, shared =>
    withWord (Word.add? start offset) shared (f :: rest) fun value =>
      let pre := (f.child.shape?.map Shape.pre).getD 0
      if value < pre then .fail shared (f :: rest) (.layout .overflow)
      else
        let first := claimChild (value - pre) f.child shared
        match first.result with
        | .error fault => .fail first.shared (f.withChild first.state :: rest) fault
        | .ok _ =>
          (placeFields claimChild start rest offsets first.shared).mapState
            (f.withChild first.state :: ·)
  | fields, _, shared => .pure shared fields ()

/-- The offset of an element is a product and a sum, both checked; it is not carried along from one
element to the next. -/
def placeElements (claimChild : Nat → Node → Shared → Outcome Node Unit) (stride start : Nat) :
    (index : Nat) → List Node → Shared → Outcome (List Node) Unit
  | _, [], shared => .pure shared [] ()
  | index, element :: rest, shared =>
    withWord (slot? start stride index) shared (element :: rest) fun offset =>
      let first := claimChild offset element shared
      match first.result with
      | .error fault => .fail first.shared (first.state :: rest) fault
      | .ok _ =>
        (placeElements claimChild stride start (index + 1) rest first.shared).mapState
          (first.state :: ·)

def placeChildren (claimChild : Nat → Node → Shared → Outcome Node Unit) (start : Nat) :
    Node → Shared → Outcome Node Unit
  | .leaf status kind, shared => .pure shared (.leaf status kind) ()
  | .record status head fields, shared =>
    match status.plan? with
    | none =>
      .fail shared (.record status head fields) (.illegal .placeFields (.atStage status.stage))
    | some layout =>
      (placeFields claimChild start fields layout.offsets shared).mapState
        fun fields => .record status head fields
  | .array status head template alternatives staged elements, shared =>
    if head.lazy then
      .pure shared
        (.array status head template alternatives staged (List.replicate head.length none)) ()
    else
      let ready := stageElements prepare status head template alternatives staged shared
      let (head, staged) := ready.state
      match ready.result with
      | .error fault =>
        .fail ready.shared (.array status head template alternatives staged elements) fault
      | .ok _ =>
        let placed := placeElements claimChild (strideOf status) start 0 staged ready.shared
        match placed.result with
        | .error fault =>
          .fail placed.shared (.array status head template alternatives [] elements) fault
        | .ok _ =>
          .pure placed.shared
            (.array status head template alternatives [] (placed.state.map some)) ()

/-- The footprint is checked before it is compared, and so is the start of the value. -/
def claimWithin : (fuel : Nat) → (region : Region) → (ownership : Ownership) →
    (operation : Operation) → (offset : Nat) → Node → Shared → Outcome Node Unit
  | 0, _, _, _, _, n, shared => .pure shared n ()
  | fuel + 1, region, ownership, operation, offset, n, shared =>
    match n.status with
    | .allocatable shape =>
      withWord (footprint? shape) shared n fun footprint =>
        if region.length - offset < footprint then
          .fail shared n (.capacity footprint (region.length - offset))
        else
          (n.prepare shared).bind fun shared n _ =>
            withWord (Word.add? offset shape.pre) shared n fun start =>
              (placeChildren (claimWithin fuel region .claimed .claim) start n shared).bind
                fun shared n _ =>
                  .pure shared (n.withPlacement { region, offset := start, ownership }) ()
    | status => .fail shared n (.illegal operation (.atStage status.stage))

def claim (region : Region) (offset : Nat) (n : Node) (shared : Shared) : Outcome Node Unit :=
  claimWithin n.depth region .claimed .claim offset n shared

def allocate (n : Node) (heap : Heap) (shared : Shared) : Outcome Node Unit × Heap :=
  match n.status with
  | .allocatable shape =>
    match footprint? shape with
    | none => (.fail shared n (.layout .overflow), heap)
    | some footprint =>
      match heap.allocate footprint shape.align with
      | .error e => (.fail shared n (.layout e), heap)
      | .ok (region, heap) => (claimWithin n.depth region .root .allocate 0 n shared, heap)
  | status => (.fail shared n (.illegal .allocate (.atStage status.stage)), heap)

def materialize (index : Nat) (n : Node) (shared : Shared) : Outcome Node Unit :=
  match n with
  | .array status head template alternatives staged elements =>
    match status with
    | .allocated plan placement =>
      if index < head.length then
        match (elements[index]?).join with
        | some _ => .pure shared n ()
        | none =>
          let made := build prepare status template alternatives index head shared
          let withElements (elements : List (Option Node)) : Node :=
            .array status made.state template alternatives staged elements
          match made.result with
          | .error fault => .fail made.shared (withElements elements) fault
          | .ok element =>
            withWord (slot? placement.offset plan.stride index) made.shared (withElements elements)
              fun offset =>
                let placed := claim placement.region offset element made.shared
                match placed.result with
                | .error fault => .fail placed.shared (withElements elements) fault
                | .ok _ =>
                  .pure placed.shared (withElements (elements.set index (some placed.state))) ()
      else .fail shared n (.outOfRange index head.length)
    | status => .fail shared n (.illegal .getElement (.atStage status.stage))
  | n => .fail shared n (.outOfRange index 0)

/-! ### Checks that do not fail -/

variable {n : Node} {s : Shape} {shared : Shared} {d fuel start offset : Nat} {region : Region}
  {claimChild checkedChild : Nat → Node → Shared → Outcome Node Unit}

/-- A sum that is a word passes its check. -/
theorem add?_eq {a b : Nat} (h : a + b < Word.limit) : Word.add? a b = some (a + b) :=
  Word.add?_eq_some_iff.2 ⟨h, rfl⟩

/-- A footprint that is a word passes its checks. -/
theorem footprint?_eq (h : s.footprint < Word.limit) : footprint? s = some s.footprint := by
  unfold Shape.footprint at h
  rw [footprint?, add?_eq (by omega), Option.bind_some, add?_eq h]
  rfl

/-- A footprint that is no word fails one of them. -/
theorem footprint?_eq_none (h : Word.limit ≤ s.footprint) : footprint? s = none := by
  rw [footprint?, Option.bind_eq_none_iff]
  intro bytes hbytes
  obtain ⟨-, rfl⟩ := Word.add?_eq_some_iff.1 hbytes
  exact Word.add?_eq_none_iff.2 h

/-- The start of a slot passes its checks if it is a word; so does every product before. -/
theorem slot?_eq {stride index : Nat} (h : start + index * stride < Word.limit) :
    slot? start stride index = some (start + index * stride) := by
  have hmul : Word.mul? index stride = some (index * stride) :=
    Word.mul?_eq_some_iff.2 ⟨by omega, rfl⟩
  rw [slot?, hmul, Option.bind_some, add?_eq h]

/-- The checks do notice a product that is too large. -/
example : slot? 0 (2 ^ 63) 2 = none := by decide

/-- Two operations that give the same storage to every sound structure that is not too deep, as long
as its footprint ends at a word. -/
def Agrees (region : Region) (d : Nat)
    (claimChild checkedChild : Nat → Node → Shared → Outcome Node Unit) : Prop :=
  ∀ m : Node, m.depth ≤ d → m.Sound → ∀ s, m.shape? = some s →
    ∀ offset, offset + s.footprint < Word.limit → ∀ shared : Shared, shared.Coherent →
      Claimed region offset .claimed m (claimChild offset m shared) ∧
        checkedChild offset m shared = claimChild offset m shared

/-- Where the record ends at a word, all sums for its fields pass their checks. -/
theorem placeFields_eq {from_ stop : Nat} {fields : List (Field Node)} {shapes : List Shape}
    {offsets : List Nat} (hclaim : Agrees region d claimChild checkedChild)
    (hspaced : RecordLayout.Spaced from_ shapes offsets stop)
    (hshapes : List.Forall₂ (fun f s => f.child.shape? = some s) fields shapes)
    (hfields : ∀ f ∈ fields, f.child.depth ≤ d ∧ f.child.Sound)
    (hword : start + stop < Word.limit) (hshared : shared.Coherent) :
    placeFields checkedChild start fields offsets shared =
      Node.placeFields claimChild start fields offsets shared := by
  induction hshapes generalizing from_ offsets shared with
  | nil =>
    simp only [placeFields, Node.placeFields]
  | @cons f s rest shapes hs _ ih =>
    cases offsets with
    | nil => exact hspaced.elim
    | cons offset offsets =>
      obtain ⟨⟨hdepth, hsound⟩, hrest⟩ := List.forall_mem_cons.1 hfields
      -- the layout keeps the padding in front of the field and the field itself below `stop`
      obtain ⟨hbefore, hbehind⟩ := hspaced.inside (k := 0) rfl rfl
      have hfirst : start + offset - s.pre + s.footprint < Word.limit := by
        rw [Shape.footprint_eq]
        omega
      obtain ⟨hclaimed, heq⟩ := hclaim f.child hdepth hsound s hs _ hfirst shared hshared
      have hlater := ih hspaced.2 hrest hclaimed.coherent
      have hvalue : Word.add? start offset = some (start + offset) := add?_eq (by omega)
      cases hresult : (claimChild (start + offset - s.pre) f.child shared).result <;>
        simp only [placeFields, Node.placeFields, hvalue, withWord, hs, Option.map_some,
          Option.getD_some, heq, hresult, hlater]

/-- Where the array ends at a word, all sums and products for its elements pass their checks. -/
theorem placeElements_eq {stride index : Nat} {element : Shape} {elements : List Node}
    (hclaim : Agrees region d claimChild checkedChild) (hstride : element.footprint ≤ stride)
    (helements : ∀ e ∈ elements, e.depth ≤ d ∧ e.Sound ∧ e.shape? = some element)
    (hword : start + (index + elements.length) * stride < Word.limit) (hshared : shared.Coherent) :
    placeElements checkedChild stride start index elements shared =
      Node.placeElements claimChild stride (start + index * stride) elements shared := by
  induction elements generalizing index shared with
  | nil => rfl
  | cons e rest ih =>
    obtain ⟨⟨hdepth, hsound, hs⟩, hrest⟩ := List.forall_mem_cons.1 helements
    -- the slot of this element ends where the next one starts, and that is not behind the array
    have hnext : start + index * stride + stride ≤
        start + (index + (e :: rest).length) * stride := by
      rw [Nat.add_assoc, ← Nat.succ_mul]
      exact Nat.add_le_add_left (Nat.mul_le_mul_right _ (by simp)) _
    obtain ⟨hclaimed, heq⟩ := hclaim e hdepth hsound element hs (start + index * stride) (by omega)
      shared hshared
    have hlater : placeElements checkedChild stride start (index + 1) rest
        (claimChild (start + index * stride) e shared).shared = _ := ih hrest
      (by rwa [List.length_cons, Nat.add_comm rest.length, ← Nat.add_assoc] at hword)
      hclaimed.coherent
    -- one more stride in the product is the stride that the other operation adds
    rw [Nat.succ_mul, ← Nat.add_assoc] at hlater
    have hslot : slot? start stride index = some (start + index * stride) := slot?_eq (by omega)
    cases hresult : (claimChild (start + index * stride) e shared).result <;>
      simp only [placeElements, Node.placeElements, hslot, withWord, heq, hresult, hlater]

/-- The children of a structure with all its elements, if its value ends at a word. -/
theorem placeChildren_eq (hclaim : Agrees region d claimChild checkedChild)
    (hdepth : n.depth ≤ d + 1) (hn : n.Sound) (hready : n.Ready) (hs : n.shape? = some s)
    (hword : start + s.size < Word.limit) (hshared : shared.Coherent) :
    placeChildren checkedChild start n shared = Node.placeChildren claimChild start n shared := by
  cases n with
  | leaf => rfl
  | record status head fields =>
    obtain ⟨self, hsound⟩ := sound_record_iff.1 hn
    have hdepth := depth_record_le_iff.1 hdepth
    obtain ⟨layout, hlayout, rfl⟩ := shape?_record_eq_some_iff.1 hs
    obtain ⟨shapes, hshapes, hcompute⟩ := self.layout layout hlayout
    obtain ⟨-, hspaced⟩ := RecordLayout.spaced_compute hcompute
    simp only [placeChildren, Node.placeChildren, hlayout]
    rw [placeFields_eq hclaim hspaced hshapes (fun f hf => ⟨hdepth f hf, hsound f hf⟩) hword hshared]
  | array status head template alternatives staged elements =>
    obtain ⟨self, -, hsound, -⟩ := sound_array_iff.1 hn
    obtain ⟨-, hdepth, -⟩ := depth_array_le_iff.1 hdepth
    obtain ⟨plan, hplan, rfl⟩ := shape?_array_eq_some_iff.1 hs
    obtain ⟨hstride, -, hsize⟩ := arrayShape?_eq_ok (self.plan plan hplan).2
    have helements : ∀ e ∈ staged, e.depth ≤ d ∧ e.Sound ∧ e.shape? = some plan.element := by
      intro e he
      obtain ⟨-, plan', hplan', hshape⟩ := self.staged e he
      cases hplan.symm.trans hplan'
      exact ⟨hdepth e he, hsound e he, hshape⟩
    cases hready with
    | array hdone =>
      have hstrideOf : strideOf status = plan.stride := by
        rw [strideOf, hplan]
      cases hlazy : head.lazy with
      | true => simp only [placeChildren, Node.placeChildren, hlazy, if_true]
      | false =>
        have hlength : staged.length = head.length := hdone.resolve_left (by rw [hlazy]; decide)
        -- the last slot ends where the array does, which is a word
        have hall : start + (0 + staged.length) * plan.stride < Word.limit := by
          rwa [hlength, Nat.zero_add, Nat.mul_comm, ← hsize]
        have hplaced : placeElements checkedChild plan.stride start 0 staged shared =
            Node.placeElements claimChild plan.stride (start + 0 * plan.stride) staged shared :=
          placeElements_eq hclaim hstride helements hall hshared
        rw [Nat.zero_mul, Nat.add_zero] at hplaced
        cases hresult : (Node.placeElements claimChild plan.stride start staged shared).result <;>
          simp only [placeChildren, Node.placeChildren, hlazy, Bool.false_eq_true, if_false,
            stageElements_of_done hdone, Outcome.pure, hstrideOf, hplaced, hresult]

/-- A structure whose footprint ends at a word gets its storage without a check that fails. -/
theorem claimWithin_eq {ownership : Ownership} {operation : Operation} (hfuel : n.depth ≤ fuel)
    (hn : n.Sound) (hs : n.shape? = some s) (hword : offset + s.footprint < Word.limit)
    (hshared : shared.Coherent) :
    claimWithin fuel region ownership operation offset n shared =
      Node.claimWithin fuel region ownership operation offset n shared := by
  -- over the fuel: the elements that are staged on the way are no parts of the structure yet
  induction fuel generalizing n s ownership operation offset shared with
  | zero => rfl
  | succ fuel ih =>
    have hclaim : Agrees region fuel (Node.claimWithin fuel region .claimed .claim)
        (claimWithin fuel region .claimed .claim) :=
      fun m hm hsound t ht offset hword shared hs =>
        ⟨claimed_claimWithin hm hsound hs, ih hm hsound ht hword hs⟩
    cases hstatus : n.status with
    | unallocated => simp only [claimWithin, Node.claimWithin, hstatus]
    | allocated => simp only [claimWithin, Node.claimWithin, hstatus]
    | allocatable t =>
      obtain rfl : t = s := by
        rw [shape?, hstatus] at hs
        exact Option.some.inj hs
      have hprepared := prepared_prepare hn hshared
      have hstart : offset + t.pre < Word.limit := by
        rw [Shape.footprint] at hword
        omega
      have hvalue : offset + t.pre + t.size < Word.limit := by
        rw [Shape.footprint] at hword
        omega
      simp only [claimWithin, Node.claimWithin, hstatus, withWord,
        footprint?_eq (show t.footprint < Word.limit by omega), add?_eq hstart]
      cases hresult : (n.prepare shared).result with
      | error fault => rw [Outcome.bind_eq_of_error hresult, Outcome.bind_eq_of_error hresult]
      | ok =>
        rw [Outcome.bind_eq_of_ok hresult, Outcome.bind_eq_of_ok hresult,
          placeChildren_eq hclaim (Nat.le_trans hprepared.depth_le hfuel) hprepared.sound
            (hprepared.ready hresult) (hprepared.keeps.shape t hs) hvalue hprepared.coherent]

/-- In a region of its own a structure gets its storage without a check that fails. -/
theorem allocate_eq {heap : Heap} (hn : n.Sound) (hshared : shared.Coherent) :
    allocate n heap shared = n.allocate heap shared := by
  cases hstatus : n.status with
  | unallocated => simp only [allocate, Node.allocate, hstatus]
  | allocated => simp only [allocate, Node.allocate, hstatus]
  | allocatable t =>
    -- the region starts at zero, so that offsets are at most the footprint
    have hs : n.shape? = some t := by
      rw [shape?, hstatus]
      rfl
    simp only [allocate, Node.allocate, hstatus]
    by_cases hword : t.footprint < Word.limit
    · simp only [footprint?_eq hword]
      cases heap.allocate t.footprint t.align with
      | error e => rfl
      | ok made =>
        obtain ⟨region, heap⟩ := made
        have hclaim : claimWithin n.depth region .root .allocate 0 n shared =
            Node.claimWithin n.depth region .root .allocate 0 n shared :=
          claimWithin_eq (Nat.le_refl _) hn hs (by omega) hshared
        simp only [hclaim]
    · -- no region is as large as that
      have hword := Nat.le_of_not_lt hword
      have hlarge : Heap.sizeLimit < max t.footprint 1 + t.align := by
        have hlimit : Heap.sizeLimit < Word.limit := by decide
        omega
      have hfails : heap.allocate t.footprint t.align = .error .overflow :=
        (Heap.allocate_eq_error_iff (align_isPowerOfTwo hn.self_of hs)).2 ⟨rfl, hlarge⟩
      rw [footprint?_eq_none hword, hfails]

end Checked

/-- No check fails when an element of a complete array is made. -/
theorem Complete.checked_materialize {n : Node} {shared : Shared} (index : Nat) (h : n.Complete)
    (hn : n.Sound) (hshared : shared.Coherent) :
    Checked.materialize index n shared = n.materialize index shared := by
  cases n with
  | leaf => rfl
  | record => rfl
  | array status head template alternatives staged elements =>
    cases status with
    | unallocated => cases h
    | allocatable => cases h
    | allocated plan p =>
      cases h with
      | array room =>
        have self := (sound_array_iff.1 hn).1
        simp only [Checked.materialize, Node.materialize]
        by_cases hindex : index < head.length
        · simp only [if_pos hindex]
          have hmade := fresh_build hn index hshared
          generalize build prepare (.allocated plan p) template alternatives index head shared = made
            at hmade ⊢
          cases elements[index]?.join with
          | some e => rfl
          | none =>
            cases hresult : made.result with
            | error fault => rfl
            | ok e =>
              obtain ⟨hsound, -, -, _, ⟨⟩, hshape⟩ := hmade.ok e hresult
              obtain ⟨-, hword⟩ := room.slot (self.plan plan rfl).2 hindex
              -- the slot lies within the array, whose end is a word
              have hclaim : Checked.claim p.region (p.offset + index * plan.stride) e made.shared =
                  claim p.region (p.offset + index * plan.stride) e made.shared :=
                Checked.claimWithin_eq (Nat.le_refl _) hsound hshape hword hmade.coherent
              have hslot : Checked.slot? p.offset plan.stride index =
                  some (p.offset + index * plan.stride) := Checked.slot?_eq (by omega)
              cases hplaced :
                  (claim p.region (p.offset + index * plan.stride) e made.shared).result <;>
                simp only [hslot, Checked.withWord, hclaim, hplaced]
        · simp only [if_neg hindex]

end NativeLayout.Node
