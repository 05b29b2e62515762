import NativeLayout.Proofs.Tree.Element
import NativeLayout.Session.Structures

namespace NativeLayout

/-!
# Operations that keep structures sound

* `Visited.Safe`, `Visit.Safe` — an operation leaves a sound structure sound, whether it succeeds or
  not, and what was known of the structure stays known.
* `Visit.safe_register`, `Visit.safe_resolve`, `Visit.safe_allocate`, `Visit.safe_claim` — the
  operations on one structure.
* `Visit.Safe.along` — an operation on a structure inside another one.
-/

open Node

variable {α β : Type}

/-- What an operation leaves behind of a sound structure. -/
structure Visited.Safe (n : Node) (r : Visited α) : Prop where
  coherent : r.store.shared.Coherent
  sound : r.node.Sound
  keeps : Keeps n r.node

namespace Visit

/-- An operation that leaves sound structures sound. -/
def Safe (v : Visit α) : Prop :=
  ∀ (n : Node) (store : Store), n.Sound → store.shared.Coherent → (v n store).Safe n

/-! ### One structure -/

/-- To change nothing is safe. -/
theorem safe_of_unchanged {n : Node} {store : Store} {result : Except SessionError α}
    (hn : n.Sound) (hstore : store.shared.Coherent) : Visited.Safe n ⟨n, store, result⟩ :=
  ⟨hstore, hn, .refl n⟩

/-- Questions are safe. -/
theorem safe_read (f : Node → Store → Except SessionError α) : (read f).Safe :=
  fun _ _ hn hstore => safe_of_unchanged hn hstore

/-- A change is safe if it is on sound structures and coherent catalogs. -/
theorem safe_change {f : Node → Shared → Outcome Node α}
    (h : ∀ (n : Node) (shared : Shared), n.Sound → shared.Coherent →
      (f n shared).shared.Coherent ∧ (f n shared).state.Sound ∧ Keeps n (f n shared).state) :
    (change f).Safe := by
  intro n store hn hstore
  obtain ⟨hcoherent, hsound, hkeeps⟩ := h n store.shared hn hstore
  exact ⟨hcoherent, hsound, hkeeps⟩

/-- Resolving is safe, even if it fails half-way. -/
theorem safe_resolve : resolve.Safe :=
  safe_change fun n shared hn hs =>
    have h : Resolved n (n.resolve shared) := resolved_resolve hn hs
    ⟨h.coherent, h.sound, h.keeps⟩

/-- Claiming room is safe. -/
theorem safe_claim (region : Region) (offset : Nat) : (claim region offset).Safe :=
  safe_change fun n shared hn hs =>
    have h : Claimed region offset .claimed n (n.claim region offset shared) :=
      claimed_claimWithin (Nat.le_refl _) hn hs
    ⟨h.coherent, h.sound, h.evolves.keeps⟩

/-- Making an element is safe. -/
theorem safe_materialize (index : Nat) : (change (materialize index)).Safe :=
  safe_change fun n shared hn hs =>
    have h : Materialized index n (n.materialize index shared) := materialized_materialize hn hs
    ⟨h.coherent, h.evolves.sound, h.evolves.keeps⟩

/-- Allocating is safe; if there is no region for it, nothing happens. -/
theorem safe_allocate : allocate.Safe := by
  intro n store hn hstore
  simp only [allocate, Node.allocate]
  split
  next s hs =>
    split
    next => exact safe_of_unchanged hn hstore
    next region heap _ =>
      have h : Claimed region 0 .root n (claimWithin n.depth region .root .allocate 0 n store.shared) :=
        claimed_claimWithin (Nat.le_refl _) hn hstore
      exact ⟨h.coherent, h.sound, h.evolves.keeps⟩
  next => exact safe_of_unchanged hn hstore

/-- A record without a layout takes any sound child. -/
theorem safe_register (index : Option Nat) (name : String) {child : Node} (hchild : child.Sound) :
    (register index name child).Safe := by
  intro n store hn hstore
  unfold register
  split
  next status head fields =>
    obtain ⟨self, children⟩ := sound_record_iff.1 hn
    simp only
    generalize index.getD (nextIndex fields) = index
    split
    next filed hfiled =>
      obtain ⟨rfl, hfile⟩ := register_eq_ok hfiled
      -- without a layout the record only has to have its fields in order
      refine ⟨hstore, sound_record_iff.2 ⟨⟨pairwise_of_fileField self.ascending hfile,
        by rintro _ ⟨⟩, by rintro _ _ ⟨⟩⟩, fun g hg => ?_⟩, .of_status_eq rfl⟩
      rcases (mem_of_fileField hfile g).1 hg with rfl | hg
      · exact hchild
      · exact children g hg
    next => exact safe_of_unchanged hn hstore
  next => exact safe_of_unchanged hn hstore

/-! ### A structure inside another one -/

/-- Safe operations, one after the other. -/
theorem Safe.bind {v : Visit α} {next : α → Visit β} (hv : v.Safe) (hnext : ∀ a, (next a).Safe) :
    (v.bind next).Safe := by
  intro n store hn hstore
  have hfirst := hv n store hn hstore
  simp only [Visit.bind]
  split
  next a _ =>
    have hsecond := hnext a _ _ hfirst.sound hfirst.coherent
    exact ⟨hsecond.coherent, hsecond.sound, hfirst.keeps.trans hsecond.keeps⟩
  next => exact ⟨hfirst.coherent, hfirst.sound, hfirst.keeps⟩

/-- A safe operation on a field is safe for the record. -/
theorem Safe.field {v : Visit α} (hv : v.Safe) (p : Field Node → Bool) : (field p v).Safe := by
  intro n store hn hstore
  unfold Visit.field
  split
  next status head fields =>
    split
    next => exact safe_of_unchanged hn hstore
    next position _ =>
      split
      next => exact safe_of_unchanged hn hstore
      next f hf =>
        have hchild : f.child.Sound := (sound_record_iff.1 hn).2 f (List.mem_of_getElem? hf)
        have hinside := hv f.child store hchild hstore
        -- the field keeps its shape and its place, which is all that the record knows of it
        refine ⟨hinside.coherent, ?_, .of_status_eq rfl⟩
        exact sound_record_setField hn hf hinside.sound hinside.keeps
  next => exact safe_of_unchanged hn hstore

/-- A safe operation for arrays is safe for everything, as it does nothing elsewhere. -/
theorem Safe.onArray {v : Visit α} (hv : v.Safe) : (onArray v).Safe := by
  intro n store hn hstore
  cases n with
  | leaf => exact safe_of_unchanged hn hstore
  | record => exact safe_of_unchanged hn hstore
  | array => exact hv _ store hn hstore

/-- A safe operation on an element is safe for the array. -/
theorem Safe.element {v : Visit α} (hv : v.Safe) (index : Nat) : (element index v).Safe := by
  unfold Visit.element
  -- the element is made first, and then the operation is for what is there
  refine .onArray ((safe_materialize index).bind fun _ => ?_)
  intro n store hn hstore
  simp only
  split
  next => exact safe_of_unchanged hn hstore
  next e he =>
    cases n with
    | leaf => cases he
    | record => cases he
    | array status head template alternatives staged elements =>
      have hget : elements[index]? = some (some e) := Option.join_eq_some_iff.1 he
      have hchild := (sound_array_iff.1 hn).2.2.2 e (List.mem_of_getElem? hget)
      have hinside := hv e store hchild hstore
      refine ⟨hinside.coherent, ?_, .of_status_eq rfl⟩
      exact sound_array_setElement hn hget hinside.sound hinside.keeps

/-- The way to the structure does no harm either: it only makes elements. -/
theorem Safe.along {v : Visit α} (hv : v.Safe) (steps : List PathStep) : (v.along steps).Safe := by
  induction steps with
  | nil => exact hv
  | cons step steps ih =>
    cases step with
    | index index => exact ih.field _
    | name name => exact ih.field _
    | element index => exact ih.element index

end Visit

end NativeLayout
