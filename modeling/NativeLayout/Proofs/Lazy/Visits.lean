import NativeLayout.Arena
import NativeLayout.Proofs.Lazy.Place
import NativeLayout.Proofs.Session.Safe
import NativeLayout.Proofs.Tree.Placement

namespace NativeLayout

/-!
# Operations on twins

* `Visited.Agrees`, `Visit.Agrees` — two operations answer the same on twins, change the same memory,
  and leave twins behind; a stored structure keeps its outline.
* `Visit.agrees_resolve`, `Visit.agrees_allocate`, `Visit.agrees_claim`, `Visit.agrees_push`,
  `Visit.agrees_register` — the operations on one structure.
* `Visit.Agrees.field`, `Visit.Agrees.element`, `Visit.Agrees.along` — operations on the structures
  inside twins.
-/

open Node

variable {α β : Type}

/-! ### Fields of twins -/

/-- Related lists stay related when related items take the same place in both. -/
theorem forall₂_set_set {R : α → β → Prop} {xs : List α} {ys : List β} {k : Nat} {x : α} {y : β}
    (h : List.Forall₂ R xs ys) (hxy : R x y) : List.Forall₂ R (xs.set k x) (ys.set k y) := by
  induction h generalizing k with
  | nil => exact .nil
  | cons hfirst hrest ih =>
    cases k with
    | zero => exact .cons hxy hrest
    | succ k => exact .cons hfirst ih

namespace Node

section fields

variable {R : Node → Node → Prop} {fields fields' : List (Field Node)}

/-- A field is found at the same rank by its index or its name. -/
theorem findIdx?_of_lift {p : Field Node → Bool}
    (hp : ∀ f g : Field Node, g.index = f.index → g.name = f.name → p g = p f)
    (h : List.Forall₂ (Lift R) fields fields') : fields'.findIdx? p = fields.findIdx? p := by
  induction h with
  | nil => rfl
  | cons hfg _ ih => rw [List.findIdx?_cons, List.findIdx?_cons, hp _ _ hfg.index hfg.name, ih]

/-- A field that is added without an index gets the same one in both records. -/
theorem nextIndex_of_lift (h : List.Forall₂ (Lift R) fields fields') :
    nextIndex fields' = nextIndex fields := by
  have hlast : ∀ fields : List (Field Node), nextIndex fields =
      ((fields.map Field.index).getLast?.map (· + 1)).getD 0 := by
    intro fields
    rw [List.getLast?_map]
    cases hlast : fields.getLast? <;> simp only [nextIndex, hlast, Option.map, Option.getD]
  rw [hlast, hlast, map_index_eq_of_lift h]

/-- Related fields are filed at the same place, or both refused. -/
theorem fileField_lift {f g : Field Node} (hfg : Lift R f g)
    (h : List.Forall₂ (Lift R) fields fields') :
    Option.Rel (List.Forall₂ (Lift R)) (fileField f fields) (fileField g fields') := by
  induction h with
  | nil => exact .some (.cons hfg .nil)
  | @cons a b rest rest' hab hrest ih =>
    simp only [fileField, hfg.index, hab.index]
    split
    · exact .some (.cons hfg (.cons hab hrest))
    · split
      · exact .none
      · -- behind this field, where both are filed or both refused
        generalize fileField f rest = filed at ih ⊢
        generalize fileField g rest' = filed' at ih ⊢
        cases ih with
        | none => exact .none
        | some hfiled => exact .some (.cons hab hfiled)

end fields

variable {n m : Node}

/-- Twins are equally far on the way to storage. -/
theorem Twin.stage (h : Twin n m) : n.stage = m.stage := congrArg Status.stage h.status

/-- Records with twins as fields are twins. -/
theorem twin_record {status : Status RecordLayout} {head : RecordHead}
    {fields fields' : List (Field Node)} (hn : (Node.record status head fields).Sound)
    (hm : (Node.record status head fields').Sound) (h : List.Forall₂ (Lift Twin) fields fields') :
    Twin (.record status head fields) (.record status head fields') := by
  refine ⟨⟨hn, regular_record_iff.2 fun f hf => ?_⟩, ⟨hm, regular_record_iff.2 fun g hg => ?_⟩,
    outline_record_eq (h.imp fun _ _ hfg => hfg.imp Twin.outline)⟩
  · obtain ⟨g, -, hfg⟩ := forall₂_mem h.flip hf
    exact hfg.child.left.regular
  · obtain ⟨f, -, hfg⟩ := forall₂_mem h hg
    exact hfg.child.right.regular

/-- A record keeps its outline if the field that changes keeps its own. -/
theorem outline_setField {status : Status RecordLayout} {head : RecordHead}
    {fields : List (Field Node)} {k : Nat} {f : Field Node} {c : Node} (hf : fields[k]? = some f)
    (hc : c.outline = f.child.outline) :
    (Node.record status head (fields.set k (f.withChild c))).outline =
      (Node.record status head fields).outline :=
  (outline_record_eq (forall₂_set (fun _ _ => ⟨rfl, rfl, rfl⟩) hf (.withChild hc.symm))).symm

end Node

/-! ### Operations -/

/-- What two operations leave behind of twins. -/
structure Visited.Agrees (n : Node) (r r' : Visited α) : Prop where
  twin : Twin r.node r'.node
  heap : r.store.heap = r'.store.heap
  result : r.result = r'.result
  /-- A stored structure only makes elements. -/
  fixed : n.stage = .allocated → r.node.outline = n.outline

namespace Visit

/-- Two operations that do the same to twins. -/
structure Agrees (v w : Visit α) : Prop where
  left : v.Safe
  right : w.Safe
  agree : ∀ (n m : Node) (store store' : Store), Twin n m → store.shared.Coherent →
    store'.shared.Coherent → store.heap = store'.heap → (v n store).Agrees n (w m store')

variable {n m : Node} {store store' : Store}

/-- Operations that leave everything as it is and answer the same agree. -/
theorem agrees_of_unchanged {r r' : Except SessionError α} (h : Twin n m)
    (hheap : store.heap = store'.heap) (hresult : r = r') :
    Visited.Agrees n ⟨n, store, r⟩ ⟨m, store', r'⟩ :=
  ⟨h, hheap, hresult, fun _ => rfl⟩

/-- A question about what twins have in common. -/
theorem agrees_read {f : Node → Store → Except SessionError α}
    (hf : ∀ n m (store store' : Store), Twin n m → store.heap = store'.heap →
      f n store = f m store') : (read f).Agrees (read f) :=
  ⟨safe_read f, safe_read f, fun n m store store' h _ _ hheap =>
    agrees_of_unchanged h hheap (hf n m store store' h hheap)⟩

/-- A change of the tree agrees if it turns twins into twins, and a stored structure keeps its outline. -/
theorem agrees_change {f : Node → Shared → Outcome Node α} (hsafe : (change f).Safe)
    (hf : ∀ n m (shared shared' : Shared), Twin n m → shared.Coherent → shared'.Coherent →
      (f n shared).Matches Shared.Coherent Twin (f m shared'))
    (hfixed : ∀ n (shared : Shared), n.Tame → shared.Coherent → n.stage = .allocated →
      (f n shared).state.outline = n.outline) : (change f).Agrees (change f) := by
  refine ⟨hsafe, hsafe, fun n m store store' h hs hs' hheap => ?_⟩
  have hmatch := hf n m store.shared store'.shared h hs hs'
  exact ⟨hmatch.state, hheap, congrArg (Except.mapError SessionError.fault) hmatch.result,
    hfixed n store.shared h.left hs⟩

/-- Operations that agree, one after the other. -/
theorem Agrees.bind {v w : Visit α} {next next' : α → Visit β} (h : v.Agrees w)
    (hnext : ∀ a, (next a).Agrees (next' a)) : (v.bind next).Agrees (w.bind next') := by
  refine ⟨h.left.bind fun a => (hnext a).left, h.right.bind fun a => (hnext a).right,
    fun n m store store' htwin hs hs' hheap => ?_⟩
  have hfirst := h.agree n m store store' htwin hs hs' hheap
  have hsafe := h.left n store htwin.left.sound hs
  have hsafe' := h.right m store' htwin.right.sound hs'
  simp only [Visit.bind, ← hfirst.result]
  split
  next a _ =>
    have hsecond := (hnext a).agree _ _ _ _ hfirst.twin hsafe.coherent hsafe'.coherent hfirst.heap
    refine ⟨hsecond.twin, hsecond.heap, hsecond.result, fun hstage => ?_⟩
    -- the outline that the first one keeps tells that the structure is still stored for the second
    have houtline := hfirst.fixed hstage
    rw [hsecond.fixed ((congrArg Status.stage (status_eq_of_outline houtline)).trans hstage),
      houtline]
  next => exact ⟨hfirst.twin, hfirst.heap, rfl, hfirst.fixed⟩

/-! ### One structure -/

/-- **Resolving twins.** A stored structure is left as it is. -/
theorem agrees_resolve : resolve.Agrees resolve :=
  agrees_change safe_resolve (fun _ _ _ _ h hs hs' => h.resolve hs hs') fun _ shared _ _ hstage => by
    rw [state_resolve_of_allocated hstage shared]

/-- **Claiming room for twins.** A stored structure refuses it. -/
theorem agrees_claim (region : Region) (offset : Nat) :
    (claim region offset).Agrees (claim region offset) := by
  refine agrees_change (safe_claim region offset) (fun n m shared shared' h hs hs' => ?_)
    fun n shared _ _ hstage => ?_
  · exact h.claimWithin (Nat.le_refl _) (Nat.le_refl _) .claimed .claim offset shared shared' hs hs'
  · rw [Node.claim, state_claimWithin_of_allocated hstage]

/-- **Allocating twins.** Both get the same region, since the memory is the same and they have the same
shape. -/
theorem agrees_allocate : allocate.Agrees allocate := by
  refine ⟨safe_allocate, safe_allocate, fun n m store store' h hs hs' hheap => ?_⟩
  simp only [allocate, Node.allocate, ← h.status, ← hheap]
  -- only a resolved structure comes as far as the memory
  cases hstatus : n.status with
  | unallocated => exact agrees_of_unchanged h rfl rfl
  | allocated => exact agrees_of_unchanged h rfl rfl
  | allocatable s =>
    simp only
    split
    next => exact agrees_of_unchanged h rfl rfl
    next region heap _ =>
      have hmatch : (claimWithin n.depth region .root .allocate 0 n store.shared).Matches
          Shared.Coherent Twin (claimWithin m.depth region .root .allocate 0 m store'.shared) :=
        h.claimWithin (Nat.le_refl _) (Nat.le_refl _) .root .allocate 0 _ _ hs hs'
      refine ⟨hmatch.state, rfl, congrArg (Except.mapError SessionError.fault) hmatch.result,
        fun hstage => ?_⟩
      rw [state_claimWithin_of_allocated hstage]

/-- A structure on the stack of an arena; the arena with it. -/
def push (a : Arena) : Visit Arena := fun node store =>
  let p := a.push node store.heap store.shared
  { node := p.outcome.state
    store := { heap := p.heap, shared := p.outcome.shared }
    result := (p.outcome.result.map fun _ => p.arena).mapError .fault }

/-- A push keeps trees sound, whatever it fails on. -/
theorem safe_push (a : Arena) : (push a).Safe := by
  intro n store hn hstore
  have hresolved : Resolved n (n.resolve store.shared) := resolved_resolve hn hstore
  simp only [push, Arena.push]
  generalize n.resolve store.shared = r at hresolved ⊢
  split
  next => exact ⟨hresolved.coherent, hresolved.sound, hresolved.keeps⟩
  next =>
    split
    next => exact ⟨hresolved.coherent, hresolved.sound, hresolved.keeps⟩
    -- a push is a claim of the next bytes of the arena, after the structure is resolved
    next start stop _ =>
      have hclaimed : Claimed a.region start .claimed r.state (r.state.claim a.region start r.shared) :=
        claimed_claimWithin (Nat.le_refl _) hresolved.sound hresolved.coherent
      exact ⟨hclaimed.coherent, hclaimed.sound, hresolved.keeps.trans hclaimed.evolves.keeps⟩

/-- A push resolves the structure and gives it the next block of the arena. -/
theorem agrees_push (a : Arena) : (push a).Agrees (push a) := by
  refine ⟨safe_push a, safe_push a, fun n m store store' h hs hs' hheap => ?_⟩
  have hresolved := h.resolve hs hs'
  have hkept : n.stage = .allocated → (n.resolve store.shared).state = n :=
    fun hstage => state_resolve_of_allocated hstage store.shared
  simp only [push, Arena.push, ← hheap]
  -- the block that the arena grants only depends on the shape that both resolved to
  generalize n.resolve store.shared = r at hresolved hkept ⊢
  generalize m.resolve store'.shared = r' at hresolved ⊢
  simp only [← hresolved.result]
  split
  next => exact ⟨hresolved.state, rfl, rfl, fun hstage => by rw [Outcome.fail, hkept hstage]⟩
  next s _ =>
    split
    next => exact ⟨hresolved.state, rfl, rfl, fun hstage => by rw [Outcome.fail, hkept hstage]⟩
    next start stop _ =>
      have hclaimed : (r.state.claim a.region start r.shared).Matches Shared.Coherent Twin
          (r'.state.claim a.region start r'.shared) :=
        hresolved.state.claimWithin (Nat.le_refl _) (Nat.le_refl _) .claimed .claim start _ _
          hresolved.left hresolved.right
      refine ⟨hclaimed.state, rfl, by simp only [hclaimed.result], fun hstage => ?_⟩
      simp only [Node.claim]
      rw [hkept hstage, state_claimWithin_of_allocated hstage]

/-- Records with twins as fields take twins as a new field, or both refuse them. -/
theorem register_twin (index : Nat) (name : String) (status : Status RecordLayout)
    (head : RecordHead) {c c' : Node} {fields fields' : List (Field Node)} (hc : Twin c c')
    (hfields : List.Forall₂ (Lift Twin) fields fields') :
    (∃ e, Node.register index name c status head fields = .error e ∧
      Node.register index name c' status head fields' = .error e) ∨
    ∃ filed filed', Node.register index name c status head fields = .ok filed ∧
      Node.register index name c' status head fields' = .ok filed' ∧
      List.Forall₂ (Lift Twin) filed filed' := by
  have hfiled := fileField_lift (f := ⟨index, name, c⟩) (g := ⟨index, name, c'⟩) ⟨rfl, rfl, hc⟩
    hfields
  unfold Node.register
  rw [← hc.stage]
  generalize fileField ⟨index, name, c⟩ fields = filed at hfiled ⊢
  generalize fileField ⟨index, name, c'⟩ fields' = filed' at hfiled ⊢
  split
  · exact .inl ⟨_, rfl, rfl⟩
  · split
    · exact .inl ⟨_, rfl, rfl⟩
    · -- the index is taken in both records or in neither
      cases hfiled with
      | none => exact .inl ⟨_, rfl, rfl⟩
      | some hfiled => exact .inr ⟨_, _, rfl, rfl, hfiled⟩

/-- **Registering a field.** Twins take twins under the same index. -/
theorem agrees_register (index : Option Nat) (name : String) {c c' : Node} (hc : Twin c c') :
    (register index name c).Agrees (register index name c') := by
  refine ⟨safe_register index name hc.left.sound, safe_register index name hc.right.sound,
    fun n m store store' h hs hs' hheap => ?_⟩
  have hsafe := safe_register index name hc.left.sound n store h.left.sound hs
  have hsafe' := safe_register index name hc.right.sound m store' h.right.sound hs'
  cases n with
  | leaf =>
    obtain rfl := outline_eq_leaf h.outline
    exact agrees_of_unchanged h hheap rfl
  | array =>
    obtain ⟨_, _, _, _, _, _, _, rfl, -⟩ := h.array
    exact agrees_of_unchanged h hheap rfl
  | record status head fields =>
    obtain ⟨fields', rfl, hfields⟩ := h.record
    -- where no index is given, both take the next one, which is the same
    simp only [register, nextIndex_of_lift hfields] at hsafe hsafe' ⊢
    obtain ⟨e, hleft, hright⟩ | ⟨filed, filed', hleft, hright, hfiled⟩ :=
      register_twin (index.getD (nextIndex fields)) name status head hc hfields
    · simp only [hleft, hright]
      exact agrees_of_unchanged h hheap rfl
    · obtain ⟨rfl, -⟩ := register_eq_ok hleft
      simp only [hleft, hright] at hsafe hsafe' ⊢
      exact ⟨twin_record hsafe.sound hsafe'.sound hfiled, hheap, rfl, by rintro ⟨⟩⟩

/-! ### A structure inside another one -/

/-- **A field of twins.** It is found at the same rank, and what is done in it keeps the records twins. -/
theorem Agrees.field {v w : Visit α} (h : v.Agrees w) {p : Field Node → Bool}
    (hp : ∀ f g : Field Node, g.index = f.index → g.name = f.name → p g = p f) :
    (field p v).Agrees (field p w) := by
  refine ⟨h.left.field p, h.right.field p, fun n m store store' htwin hs hs' hheap => ?_⟩
  have hsafe := h.left.field p n store htwin.left.sound hs
  have hsafe' := h.right.field p m store' htwin.right.sound hs'
  cases n with
  | leaf =>
    obtain rfl := outline_eq_leaf htwin.outline
    exact agrees_of_unchanged htwin hheap rfl
  | array =>
    obtain ⟨_, _, _, _, _, _, _, rfl, -⟩ := htwin.array
    exact agrees_of_unchanged htwin hheap rfl
  | record status head fields =>
    obtain ⟨fields', rfl, hfields⟩ := htwin.record
    simp only [Visit.field, findIdx?_of_lift hp hfields] at hsafe hsafe' ⊢
    cases hk : fields.findIdx? p with
    | none => exact agrees_of_unchanged htwin hheap rfl
    | some k =>
      simp only [hk] at hsafe hsafe'
      cases hg : fields'[k]? with
      | none =>
        have hf := forall₂_getElem?_none hfields hg
        simp only [hf, hg]
        exact agrees_of_unchanged htwin hheap rfl
      | some g =>
        obtain ⟨f, hf, hfg⟩ := forall₂_getElem? hfields hg
        simp only [hf, hg] at hsafe hsafe' ⊢
        have hinside := h.agree f.child g.child store store' hfg.child hs hs' hheap
        refine ⟨twin_record hsafe.sound hsafe'.sound (forall₂_set_set hfields
          ⟨hfg.index, hfg.name, hinside.twin⟩), hinside.heap, hinside.result, fun hstage => ?_⟩
        -- the fields of a stored record are stored
        have hchild : (Node.record status head fields).child? k = some f.child := by
          rw [child?, hf, Option.map_some]
        exact outline_setField hf
          (hinside.fixed (stage_child htwin.left.sound.self_of hstage hchild))

/-- Only a stored array has elements. -/
theorem exists_allocated {status : Status ArrayPlan} {head : ArrayHead} {template : Node}
    {alternatives : List (Nat × Node)} {staged : List Node} {elements : List (Option Node)} {k : Nat}
    {e : Node} (h : ArraySound status head template alternatives staged elements)
    (he : elements[k]? = some (some e)) : ∃ plan p, status = .allocated plan p := by
  cases status with
  | allocated plan p => exact ⟨plan, p, rfl⟩
  | unallocated =>
    rw [h.unplaced rfl] at he
    cases he
  | allocatable =>
    rw [h.unplaced rfl] at he
    cases he

/-- The children of an array are its elements. -/
theorem element?_of_outline {status : Status ArrayPlan} {head : ArrayHead} {template : Node}
    {alternatives : List (Nat × Node)} {staged : List Node} {elements : List (Option Node)} {k : Nat}
    {e : Node}
    (h : n.outline = (Node.array status head template alternatives staged elements).outline)
    (he : n.child? k = some e) : n.element? k = some e := by
  obtain ⟨_, _, _, _, _, _, _, rfl, -⟩ := outline_eq_array h.symm
  exact he

/-- The elements of twins are twins: both became what the template becomes at their place. -/
theorem twin_element {e e' : Node} {k : Nat} (h : Twin n m) (he : n.element? k = some e)
    (he' : m.element? k = some e') : Twin e e' := by
  cases n with
  | leaf => cases he
  | record => cases he
  | array status head template alternatives staged elements =>
    obtain ⟨_, _, _, template', _, _, elements', rfl, htemplate⟩ := h.array
    have hget : elements[k]? = some (some e) := Option.join_eq_some_iff.1 he
    have hget' : elements'[k]? = some (some e') := Option.join_eq_some_iff.1 he'
    refine ⟨h.left.element (List.mem_of_getElem? hget), h.right.element (List.mem_of_getElem? hget'),
      ?_⟩
    -- an array with an element has storage, and so the slot of the index
    obtain ⟨plan, p, rfl⟩ := exists_allocated (sound_array_iff.1 h.left.sound).1 hget
    rw [h.left.uniform.elements plan p rfl k e hget, h.right.uniform.elements plan p rfl k e' hget']
    exact (htemplate.sample p.region (p.offset + k * plan.stride)).outline

/-- An operation on an element that is there on both sides. -/
theorem Agrees.inside {v w : Visit α} (h : v.Agrees w) {e e' : Node} {k : Nat}
    (store store' : Store) (htwin : Twin n m) (he : n.element? k = some e)
    (he' : m.element? k = some e') (hs : store.shared.Coherent) (hs' : store'.shared.Coherent)
    (hheap : store.heap = store'.heap) (hsound : (n.setElement k (v e store).node).Sound)
    (hsound' : (m.setElement k (w e' store').node).Sound) :
    Visited.Agrees n { v e store with node := n.setElement k (v e store).node }
      { w e' store' with node := m.setElement k (w e' store').node } := by
  have hinside := h.agree e e' store store' (twin_element htwin he he') hs hs' hheap
  have helement := twin_element htwin he he'
  cases n with
  | leaf => cases he
  | record => cases he
  | array status head template alternatives staged elements =>
    obtain ⟨_, _, _, template', _, _, elements', rfl, htemplate⟩ := htwin.array
    have hget : elements[k]? = some (some e) := Option.join_eq_some_iff.1 he
    have hget' : elements'[k]? = some (some e') := Option.join_eq_some_iff.1 he'
    -- an element of an array is stored, so it keeps its outline
    obtain ⟨plan, p, rfl⟩ := exists_allocated (sound_array_iff.1 htwin.left.sound).1 hget
    have hstage : e.stage = .allocated := stage_child htwin.left.sound.self_of rfl he
    have houtline := hinside.fixed hstage
    have houtline' : (w e' store').node.outline = e'.outline := by
      rw [← hinside.twin.outline, houtline, helement.outline]
    refine ⟨⟨⟨hsound, ?_⟩, ⟨hsound', ?_⟩, htwin.outline⟩, hinside.heap, hinside.result, fun _ => rfl⟩
    · refine regular_setElement htwin.left.regular hinside.twin.left.regular ?_
      rintro _ _ ⟨⟩
      rw [houtline, htwin.left.uniform.elements plan p rfl k e hget]
    · refine regular_setElement htwin.right.regular hinside.twin.right.regular ?_
      rintro _ _ ⟨⟩
      rw [houtline', htwin.right.uniform.elements plan p rfl k e' hget']

/-- **An element of twins.** It may be there already in one of them and be made only now in the other;
afterwards both have it. -/
theorem Agrees.element {v w : Visit α} (h : v.Agrees w) (index : Nat) :
    (element index v).Agrees (element index w) := by
  refine ⟨h.left.element index, h.right.element index, fun n m store store' htwin hs hs' hheap => ?_⟩
  have hsafe := h.left.element index n store htwin.left.sound hs
  have hsafe' := h.right.element index m store' htwin.right.sound hs'
  obtain ⟨hmatch, houtline⟩ := htwin.materialize index hs hs'
  have hmade : Materialized index n (n.materialize index store.shared) :=
    materialized_materialize htwin.left.sound hs
  have hmade' : Materialized index m (m.materialize index store'.shared) :=
    materialized_materialize htwin.right.sound hs'
  cases n with
  | leaf =>
    obtain rfl := outline_eq_leaf htwin.outline
    exact agrees_of_unchanged htwin hheap rfl
  | record =>
    obtain ⟨_, rfl, -⟩ := htwin.record
    exact agrees_of_unchanged htwin hheap rfl
  | array status head template alternatives staged elements =>
    obtain ⟨_, _, _, _, _, _, _, rfl, -⟩ := htwin.array
    simp only [Visit.element, onArray, Visit.bind, change] at hsafe hsafe' ⊢
    generalize Node.materialize index (.array status head template alternatives staged elements)
      store.shared = made at hsafe hmatch houtline hmade ⊢
    generalize Node.materialize index (.array status _ _ _ _ _) store'.shared = made'
      at hsafe' hmatch hmade' ⊢
    have hresult := hmatch.result
    -- it is made in both, or in neither
    cases hdone : made.result with
    | error fault =>
      simp only [← hresult, hdone, Except.mapError]
      exact ⟨hmatch.state, hheap, rfl, fun _ => houtline⟩
    | ok =>
      have hdone' := hresult.symm.trans hdone
      obtain ⟨e, he⟩ := hmade.ok hdone
      obtain ⟨e', he'⟩ := hmade'.ok hdone'
      replace he := element?_of_outline houtline he
      replace he' := element?_of_outline (hmatch.state.outline.symm.trans houtline) he'
      simp only [hdone, hdone', Except.mapError, he, he'] at hsafe hsafe' ⊢
      have hinside := h.inside ⟨store.heap, made.shared⟩ ⟨store'.heap, made'.shared⟩ hmatch.state he
        he' hmatch.left hmatch.right hheap hsafe.sound hsafe'.sound
      refine ⟨hinside.twin, hinside.heap, hinside.result, fun hstage => ?_⟩
      rw [← houtline]
      exact hinside.fixed ((congrArg Status.stage hmade.status).trans hstage)

/-- An operation at the end of some steps. -/
theorem Agrees.along {v w : Visit α} (h : v.Agrees w) (steps : List PathStep) :
    (v.along steps).Agrees (w.along steps) := by
  -- on the steps; an element may be made at each of them
  induction steps with
  | nil => exact h
  | cons step steps ih =>
    cases step with
    | index index => exact ih.field fun f g hindex _ => by rw [hindex]
    | name name => exact ih.field fun f g _ hname => by rw [hname]
    | element index => exact ih.element index

end Visit

end NativeLayout
