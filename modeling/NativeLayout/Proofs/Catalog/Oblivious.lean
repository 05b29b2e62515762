import NativeLayout.Proofs.Catalog.Events
import NativeLayout.Proofs.Session.World
import NativeLayout.Proofs.Tree.Matching

namespace NativeLayout

/-!
# No structure notices what a catalog holds

* `Shared.Arises` — each catalog is what requests, lookups and clears make of an empty one.
* `Node.matches_resolve_record` — two records that only differ in the catalog resolve in the same way.
* `Node.oblivious_resolve` — whatever other structures used the catalogs for, and whenever they were
  cleared, a structure resolves in the same way.
* `Catalog.transparent` — so catalogs only save computations.
-/

namespace Shared

/-- Each catalog is what some events make of an empty one. -/
def Arises (s : Shared) : Prop :=
  ∀ number, ∃ events, s.catalog number = Catalog.empty.afterAll events

/-- Catalogs that were never used arise without any event. -/
theorem arises_empty : empty.Arises := fun _ => ⟨[], rfl⟩

/-- Whatever happened to catalogs, they only remember what they computed. -/
theorem Arises.coherent {s : Shared} (h : s.Arises) : s.Coherent := by
  intro number key entry hentry
  obtain ⟨events, hevents⟩ := h number
  rw [hevents] at hentry
  exact ((Catalog.recalls_afterAll events key entry.fields entry.layout).1 hentry).2

end Shared

/-- Two heads that only differ in the catalog. -/
def RecordHead.Alike (head head' : RecordHead) : Prop :=
  head.typeName = head'.typeName ∧ head.abi = head'.abi ∧ head.packed = head'.packed

namespace Node

/-- Two records with the same layout and the same fields, under two heads. -/
def SameRecords (head head' : RecordHead) (n n' : Node) : Prop :=
  ∃ status fields, n = .record status head fields ∧ n' = .record status head' fields

/-- An operation whose outcome does not depend on what coherent catalogs hold. -/
def Oblivious {σ α : Type} (f : Shared → Outcome σ α) : Prop :=
  ∀ shared shared' : Shared, shared.Coherent → shared'.Coherent →
    (f shared).Matches Shared.Coherent Eq (f shared')

variable {shared shared' : Shared}

/-- An answer that is known is the same with any catalogs. -/
theorem oblivious_pure {σ α : Type} (state : σ) (value : α) :
    Oblivious fun shared => Outcome.pure shared state value :=
  fun _ _ h h' => ⟨h, h', rfl, rfl⟩

/-- What is left behind may be seen as a part of something larger. -/
theorem Oblivious.mapState {σ τ α : Type} {f : Shared → Outcome σ α} (h : Oblivious f) (g : σ → τ) :
    Oblivious fun shared => (f shared).mapState g := fun shared shared' hs hs' =>
  have hmatch := h shared shared' hs hs'
  ⟨hmatch.left, hmatch.right, congrArg g hmatch.state, hmatch.result⟩

/-- One item after the other, each with the catalogs that those before it left. -/
theorem oblivious_traverse {σ α : Type} {f : σ → Shared → Outcome σ α} {items : List σ}
    (h : ∀ item ∈ items, Oblivious (f item)) : Oblivious (traverse f items) := by
  intro shared shared' hs hs'
  have hmatch : (traverse f items shared).Matches Shared.Coherent (List.Forall₂ Eq)
      (traverse f items shared') := by
    refine traverse_matches (List.forall₂_same.2 fun _ _ => rfl) ?_ hs hs'
    rintro item hitem _ - rfl shared shared' hs hs'
    exact h item hitem shared shared' hs hs'
  exact ⟨hmatch.left, hmatch.right, List.forall₂_eq_eq_eq ▸ hmatch.state, hmatch.result⟩

/-- A structure that has a shape does not ask the catalogs. -/
theorem oblivious_resolve_of_shape? {n : Node} {s : Shape} (h : n.shape? = some s) :
    Oblivious n.resolve := by
  rw [show n.resolve = _ from funext (resolve_of_shape? h)]
  exact oblivious_pure n s

/-- Two records that only differ in the catalog resolve in the same way. -/
theorem matches_resolve_record {head head' : RecordHead} {fields : List (Field Node)}
    (hhead : head.Alike head') (ih : ∀ f ∈ fields, Oblivious f.child.resolve) (h : shared.Coherent)
    (h' : shared'.Coherent) :
    (resolve (.record .unallocated head fields) shared).Matches Shared.Coherent
      (SameRecords head head') (resolve (.record .unallocated head' fields) shared') := by
  have hfields := oblivious_traverse (fun f hf => (ih f hf).mapState f.withChild) shared shared' h h'
  rw [resolve_record, resolve_record]
  generalize traverse (fun f shared => (f.child.resolve shared).mapState f.withChild)
    fields shared = r at hfields ⊢
  generalize traverse (fun f shared => (f.child.resolve shared).mapState f.withChild)
    fields shared' = r' at hfields ⊢
  simp only [← hfields.result, ← hfields.state]
  cases r.result with
  | error fault => exact ⟨hfields.left, hfields.right, ⟨_, _, rfl, rfl⟩, rfl⟩
  | ok shapes =>
    -- the answers are those of the computation on either side, for the same key
    obtain ⟨hname, habi, hpacked⟩ := hhead
    let key : Catalog.Key := ⟨head.typeName, head.abi, head.packed⟩
    obtain ⟨hanswer, hafter⟩ := hfields.left.request_eq head.catalog key shapes
    obtain ⟨hanswer', hafter'⟩ := hfields.right.request_eq head'.catalog key shapes
    simp only [key, hname, habi, hpacked] at hanswer hanswer' hafter hafter' ⊢
    simp only [hanswer, hanswer']
    split <;> exact ⟨hafter, hafter', ⟨_, _, rfl, rfl⟩, rfl⟩

/-- A record asks a catalog for its layout, and is answered with the computed one. -/
theorem oblivious_resolve_record {head : RecordHead} {fields : List (Field Node)}
    (ih : ∀ f ∈ fields, Oblivious f.child.resolve) :
    Oblivious (resolve (.record .unallocated head fields)) := by
  intro shared shared' h h'
  have hsame : head.Alike head := ⟨rfl, rfl, rfl⟩
  have hmatch := matches_resolve_record hsame ih h h'
  obtain ⟨status, fields, hleft, hright⟩ := hmatch.state
  exact ⟨hmatch.left, hmatch.right, hleft.trans hright.symm, hmatch.result⟩

/-- An array only counts in them, and asks through its prototype. -/
theorem oblivious_resolve_array {head : ArrayHead} {template : Node}
    {alternatives : List (Nat × Node)} {staged : List Node} {elements : List (Option Node)}
    (ih : Oblivious (choose head.calls alternatives template).resolve) :
    Oblivious (resolve (.array .unallocated head template alternatives staged elements)) := by
  intro shared shared' h h'
  by_cases hlength : head.length = 0
  · simp only [resolve, Status.plan?, if_pos hlength]
    exact ⟨h, h', rfl, rfl⟩
  · rw [resolve_array _ _ _ _ _ _ hlength, resolve_array _ _ _ _ _ _ hlength]
    have hfirst := ih _ _ (h.count head.counter) (h'.count head.counter)
    generalize (choose head.calls alternatives template).resolve (shared.count head.counter) =
      first at hfirst ⊢
    generalize (choose head.calls alternatives template).resolve (shared'.count head.counter) =
      first' at hfirst ⊢
    simp only [← hfirst.result, ← hfirst.state]
    split
    next => exact ⟨hfirst.left, hfirst.right, rfl, rfl⟩
    next => split <;> exact ⟨hfirst.left, hfirst.right, rfl, rfl⟩

/-- A structure resolves in the same way, whatever the catalogs were used for. -/
theorem oblivious_resolve (n : Node) : Oblivious n.resolve := by
  induction n.forall_true with
  | @leaf status kind =>
    cases status with
    | unallocated =>
      intro shared shared' h h'
      simp only [resolve, Status.plan?]
      split <;> exact ⟨h, h', rfl, rfl⟩
    -- what has a shape already answers with it, whatever the catalogs hold
    | allocatable => exact oblivious_resolve_of_shape? rfl
    | allocated => exact oblivious_resolve_of_shape? rfl
  | @record status head fields _ _ ih =>
    cases status with
    | unallocated => exact oblivious_resolve_record ih
    | allocatable => exact oblivious_resolve_of_shape? rfl
    | allocated => exact oblivious_resolve_of_shape? rfl
  | @array status head template alternatives staged elements _ _ _ _ _ ihDefault ihOthers =>
    cases status with
    | unallocated =>
      exact oblivious_resolve_array
        (choose_induction (P := fun m : Node => Oblivious m.resolve) ihDefault ihOthers)
    | allocatable => exact oblivious_resolve_of_shape? rfl
    | allocated => exact oblivious_resolve_of_shape? rfl

end Node

namespace Catalog

/-- Catalogs are transparent: whatever happened to one, it answers like the computation, and
whatever happened to all of them, every structure resolves in the same way.  So it does in every world
that comes about, whichever structures used the same catalogs. -/
theorem transparent :
    (∀ events, Transparent events (empty.afterAll events)) ∧
      (∀ (n : Node) (s s' : Shared), s.Arises → s'.Arises →
        (n.resolve s).result = (n.resolve s').result ∧
          (n.resolve s).state = (n.resolve s').state) ∧
      ∀ (w : World) (n : Node), w.Reachable →
        (n.resolve w.store.shared).result = (n.resolve .empty).result ∧
          (n.resolve w.store.shared).state = (n.resolve .empty).state := by
  refine ⟨fun events => transparent_of_recalls (recalls_afterAll events), fun n s s' hs hs' => ?_,
    fun w n hw => ?_⟩
  · have h := n.oblivious_resolve s s' hs.coherent hs'.coherent
    exact ⟨h.result, h.state⟩
  · -- the catalogs of a world came from events too
    have h := n.oblivious_resolve w.store.shared .empty hw.sound.coherent Shared.coherent_empty
    exact ⟨h.result, h.state⟩

/-- Two records of one name, one after the other, and one without fields: the catalog holds the
layout of the second, and the first resolves as if nothing had happened. -/
theorem transparent_renamed : ∃ (s : Shared) (key : Key) (events : List Event) (n : Node),
    s.Arises ∧ s.catalog 0 = empty.afterAll events ∧ Transparent events (s.catalog 0) ∧
      (s.catalog 0).lookup key [⟨4, false, 0, 4, 0⟩] = none ∧
      ((s.catalog 0).lookup key [⟨1, false, 0, 1, 0⟩]).isSome ∧
      (n.resolve s).result = (n.resolve .empty).result ∧
      (n.resolve .empty).result = .ok ⟨4, false, 0, 4, 0⟩ := by
  let key : Key := ⟨"S", .msvcX64, false⟩
  let events : List Event :=
    [.request key [⟨4, false, 0, 4, 0⟩], .request key [⟨1, false, 0, 1, 0⟩], .request key []]
  let s : Shared :=
    { catalogs := Table.empty.insert 0 (empty.afterAll events), tallies := .empty }
  let n : Node := .record .unallocated ⟨"S", .msvcX64, false, 0⟩ [⟨0, "a", .ofLeaf (.scalars .i32 1)⟩]
  -- the one catalog comes from the events, and all others are new
  have hs : s.Arises := by
    intro number
    have hget : s.catalog number = if 0 = number then empty.afterAll events else empty :=
      Shared.catalog_insert .empty 0 number (empty.afterAll events)
    rw [hget]
    split
    · exact ⟨events, rfl⟩
    · exact ⟨[], rfl⟩
  obtain ⟨hcatalog, hresolve, -⟩ := transparent
  exact ⟨s, key, events, n, hs, rfl, hcatalog events, by decide +kernel, by decide +kernel,
    (hresolve n s .empty hs Shared.arises_empty).1, by decide +kernel⟩

end Catalog

end NativeLayout
