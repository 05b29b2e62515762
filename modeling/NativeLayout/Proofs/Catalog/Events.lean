import Mathlib.Data.List.Induction
import NativeLayout.Catalog

namespace NativeLayout

/-!
# What a catalog recalls

A catalog is used by requests and lookups, and forgets everything when it is cleared.

* `Catalog.Event`, `Catalog.afterAll` — the uses of a catalog, one after the other.
* `Catalog.Latest` — some fields are those of the last request for a key that had an answer, and
  nothing was forgotten since.
* `Catalog.recalls_afterAll` — after any events, a catalog holds the layouts of exactly these fields.
* `Catalog.Transparent`, `Catalog.transparent_of_recalls` — such a catalog answers like the computation,
  and only counts how often it was of use.
-/

namespace RecordLayout

/-- Only a record without fields is reported as empty. -/
theorem placeFields_ne_emptyRecord {cap : Nat} {packed : Bool} {start : Nat} {fields : List Shape}
    {typeName : String} : placeFields cap packed start fields ≠ .error (.emptyRecord typeName) := by
  induction fields generalizing start with
  | nil => rintro ⟨⟩
  | cons field rest ih =>
    simp only [placeFields]
    split
    · split
      · rintro ⟨⟩
      · split
        · rintro ⟨⟩
        · split
          next e he =>
            rintro ⟨⟩
            exact ih he
          next => rintro ⟨⟩
    · rintro ⟨⟩

/-- Closing a layout only fails if a sum is no word. -/
theorem close_ne_emptyRecord {packed : Bool} {placed : Placed} {typeName : String} :
    close packed placed ≠ .error (.emptyRecord typeName) := by
  simp only [close, Shape.padded?]
  repeat' split
  all_goals rintro ⟨⟩

end RecordLayout

namespace Catalog

/-! ### The computation -/

/-- An error that names the record of a key. -/
def Key.named (key : Key) : LayoutError → LayoutError
  | .emptyRecord _ => .emptyRecord key.typeName
  | e => e

/-- Only the error of an empty record is told by the name of the record. -/
theorem Key.named_of_ne {key : Key} {e : LayoutError} (h : ∀ name, e ≠ .emptyRecord name) :
    key.named e = e := by
  cases e with
  | emptyRecord name => exact absurd rfl (h name)
  | _ => rfl

/-- The name of a record only matters for an error. -/
theorem Key.layout_eq (key : Key) (fields : List Shape) :
    key.layout fields =
      (key.abi.layout key.packed RecordLayout.anonymous fields).mapError key.named := by
  unfold Key.layout Abi.layout RecordLayout.compute
  by_cases hfields : fields = []
  · rw [if_pos hfields, if_pos hfields]
    rfl
  · rw [if_neg hfields, if_neg hfields]
    cases hplaced : RecordLayout.placeFields key.abi.cap key.packed 0 fields with
    | error e =>
      -- of all failures only that of a record without fields has the name in it
      have hname : key.named e = e := Key.named_of_ne fun name h =>
        RecordLayout.placeFields_ne_emptyRecord (h ▸ hplaced)
      simp only [Except.mapError, hname]
    | ok placed =>
      cases hclose : RecordLayout.close key.packed placed with
      | error e =>
        have hname : key.named e = e := Key.named_of_ne fun name h =>
          RecordLayout.close_ne_emptyRecord (h ▸ hclose)
        simp only [hclose, Except.mapError, hname]
      | ok shape => simp only [hclose, Except.mapError]

/-! ### Events -/

/-- A use of a catalog. -/
inductive Event where
  | request (key : Key) (fields : List Shape)
  | lookup (key : Key) (fields : List Shape)
  | clear
  deriving DecidableEq, Repr

/-- The catalog after an event. -/
def after (c : Catalog) : Event → Catalog
  | .request key fields => (c.request key fields).2
  | .lookup _ _ => c
  | .clear => c.clear

/-- The catalog after some events. -/
def afterAll (c : Catalog) (events : List Event) : Catalog := events.foldl after c

/-- The last event comes last. -/
theorem afterAll_concat (c : Catalog) (events : List Event) (e : Event) :
    c.afterAll (events ++ [e]) = (c.afterAll events).after e := by
  rw [afterAll, List.foldl_append]
  rfl

/-- Whether an event makes a catalog forget what it holds for a key: the catalog is cleared, or has
a layout of other fields to remember. -/
def Event.Replaces (key : Key) : Event → Prop
  | .request other fields => other = key ∧ ∃ layout, key.layout fields = .ok layout
  | .lookup _ _ => False
  | .clear => True

/-- The fields are those of the last request for the key that had an answer, and nothing was
forgotten since. -/
inductive Latest (key : Key) (fields : List Shape) : List Event → Prop where
  | request {events : List Event} {layout : RecordLayout} (h : key.layout fields = .ok layout) :
      Latest key fields (events ++ [.request key fields])
  | later {events : List Event} {e : Event} (h : Latest key fields events)
      (he : ¬ e.Replaces key) : Latest key fields (events ++ [e])

variable {key : Key} {fields : List Shape} {events : List Event} {e : Event}

/-- Before any event there are no latest fields. -/
theorem not_latest_nil : ¬ Latest key fields [] := by
  intro h
  generalize hevents : ([] : List Event) = events at h
  cases h with
  | request => simp at hevents
  | later => simp at hevents

/-- Whether some fields are the latest after one more event. -/
theorem latest_concat_iff :
    Latest key fields (events ++ [e]) ↔
      (e = .request key fields ∧ ∃ layout, key.layout fields = .ok layout) ∨
        ¬ e.Replaces key ∧ Latest key fields events := by
  constructor
  · intro h
    -- the list is taken apart at its end, where `Latest` has its last event
    generalize hall : events ++ [e] = all at h
    cases h with
    | request hlayout =>
      obtain ⟨-, rfl⟩ := List.concat_inj.1 (by simpa using hall)
      exact .inl ⟨rfl, _, hlayout⟩
    | later h he =>
      obtain ⟨rfl, rfl⟩ := List.concat_inj.1 (by simpa using hall)
      exact .inr ⟨he, h⟩
  · rintro (⟨rfl, layout, hlayout⟩ | ⟨he, h⟩)
    · exact .request hlayout
    · exact .later h he

/-- The latest fields have a layout. -/
theorem Latest.exists_layout (h : Latest key fields events) :
    ∃ layout, key.layout fields = .ok layout := by
  induction h with
  | request hlayout => exact ⟨_, hlayout⟩
  | later _ _ ih => exact ih

/-! ### What is held after some events -/

/-- The catalog holds, for each key, the layout of the latest fields and no other. -/
def Recalls (events : List Event) (c : Catalog) : Prop :=
  ∀ key fields layout, c.entries.find? key = some ⟨fields, layout⟩ ↔
    Latest key fields events ∧ key.layout fields = .ok layout

variable {c : Catalog}

/-- An empty catalog holds what no event has filed. -/
theorem recalls_empty : Recalls [] empty := by
  intro key fields layout
  exact ⟨fun h => (nomatch h), fun h => absurd h.1 not_latest_nil⟩

/-- An event that replaces nothing changes nothing of what is held. -/
theorem Recalls.of_entries_eq (h : Recalls events c) {c' : Catalog} (hentries : c'.entries = c.entries)
    (he : ∀ key, ¬ e.Replaces key) : Recalls (events ++ [e]) c' := by
  intro key fields layout
  rw [hentries, h key fields layout, latest_concat_iff]
  refine and_congr_left fun hlayout => ⟨fun hlatest => .inr ⟨he key, hlatest⟩, ?_⟩
  rintro (⟨rfl, hanswer⟩ | ⟨-, hlatest⟩)
  · exact absurd ⟨rfl, hanswer⟩ (he key)
  · exact hlatest

/-- A request with an answer leaves the answer in the place of what was held for its key. -/
theorem Recalls.filed (h : Recalls events c) {layout : RecordLayout}
    (hlayout : key.layout fields = .ok layout) {c' : Catalog}
    (hfind : ∀ other, c'.entries.find? other =
      if key = other then some ⟨fields, layout⟩ else c.entries.find? other) :
    Recalls (events ++ [.request key fields]) c' := by
  intro other fields' layout'
  rw [hfind, latest_concat_iff]
  -- what was held for the key is replaced, and all other keys keep theirs
  by_cases hkey : key = other
  · subst hkey
    have hreplaces : (Event.request key fields).Replaces key := ⟨rfl, layout, hlayout⟩
    rw [if_pos rfl]
    constructor
    · intro heq
      cases heq
      exact ⟨.inl ⟨rfl, layout, hlayout⟩, hlayout⟩
    · rintro ⟨⟨heq, -⟩ | ⟨hkept, -⟩, hlayout'⟩
      · cases heq
        rw [hlayout] at hlayout'
        cases hlayout'
        rfl
      · exact absurd hreplaces hkept
  · have hkept : ¬ (Event.request key fields).Replaces other := fun h => hkey h.1
    rw [if_neg hkey, h other fields' layout']
    refine and_congr_left fun _ => ⟨fun hlatest => .inr ⟨hkept, hlatest⟩, ?_⟩
    rintro (⟨heq, -⟩ | ⟨-, hlatest⟩)
    · cases heq
      exact absurd rfl hkey
    · exact hlatest

/-- A layout that is found is the computed one. -/
theorem Recalls.layout_of_lookup (h : Recalls events c) {layout : RecordLayout}
    (hfound : c.lookup key fields = some layout) : key.layout fields = .ok layout :=
  ((h key fields layout).1 (lookup_eq_some_iff.1 hfound)).2

/-- **A request.** It files its answer, or leaves everything as it was if there is none. -/
theorem Recalls.request (h : Recalls events c) (key : Key) (fields : List Shape) :
    Recalls (events ++ [.request key fields]) (c.request key fields).2 := by
  unfold Catalog.request
  -- a layout that was found is filed again, one that was not is computed first
  split
  next layout hfound =>
    refine h.filed (h.layout_of_lookup hfound) fun other => ?_
    by_cases hkey : key = other
    · rw [if_pos hkey, ← hkey]
      exact lookup_eq_some_iff.1 hfound
    · rw [if_neg hkey]
  next =>
    split
    next e he =>
      refine h.of_entries_eq rfl fun other => ?_
      rintro ⟨hkey, layout, hlayout⟩
      rw [← hkey, he] at hlayout
      cases hlayout
    next layout hlayout =>
      exact h.filed hlayout fun other => Table.find?_insert c.entries key other ⟨fields, layout⟩

/-- **Forgetting.** Afterwards no fields are the latest for any key. -/
theorem recalls_clear (events : List Event) (c : Catalog) :
    Recalls (events ++ [.clear]) c.clear := by
  intro key fields layout
  rw [latest_concat_iff]
  constructor
  · rintro ⟨⟩
  · rintro ⟨⟨⟨⟩, -⟩ | ⟨hkept, -⟩, -⟩
    exact absurd trivial hkept

/-- After any events, a catalog holds the layouts of the latest fields and no others. -/
theorem recalls_afterAll (events : List Event) : Recalls events (empty.afterAll events) := by
  -- over the events, the last one first
  induction events using List.reverseRecOn with
  | nil => exact recalls_empty
  | append_singleton events e ih =>
    rw [afterAll_concat]
    cases e with
    | request key fields => exact ih.request key fields
    | lookup key fields => exact ih.of_entries_eq rfl fun _ => id
    | clear => exact recalls_clear events _

/-! ### Catalogs answer like the computation -/

/-- What holds of a catalog after some events. -/
structure Transparent (events : List Event) (c : Catalog) : Prop where
  /-- A request is answered with the computed layout or error; the error of an empty record names
  the record. -/
  answer : ∀ key fields, (c.request key fields).1 =
    (key.abi.layout key.packed RecordLayout.anonymous fields).mapError key.named
  /-- Only a layout that the computation gives is found. -/
  found : ∀ key fields layout, c.lookup key fields = some layout →
    key.abi.layout key.packed RecordLayout.anonymous fields = .ok layout
  /-- A layout is found exactly for the fields of the last request for the key that had an answer,
  as long as nothing was forgotten since. -/
  found_iff : ∀ key fields, (c.lookup key fields).isSome ↔ Latest key fields events
  /-- A request that a lookup would have answered is counted as a hit. -/
  hit : ∀ key fields, (c.lookup key fields).isSome →
    (c.request key fields).2.hits = c.hits + 1 ∧ (c.request key fields).2.misses = c.misses
  /-- Any other request is counted as a miss. -/
  miss : ∀ key fields, ¬ (c.lookup key fields).isSome →
    (c.request key fields).2.hits = c.hits ∧ (c.request key fields).2.misses = c.misses + 1
  /-- A request that fails leaves the entries as they were. -/
  failed : ∀ key fields e, (c.request key fields).1 = .error e →
    (c.request key fields).2.entries = c.entries

/-- A layout is computed under the name of the record exactly if it is without a name. -/
theorem Key.layout_eq_ok_iff {layout : RecordLayout} :
    key.layout fields = .ok layout ↔
      key.abi.layout key.packed RecordLayout.anonymous fields = .ok layout := by
  rw [Key.layout_eq]
  cases key.abi.layout key.packed RecordLayout.anonymous fields <;> simp [Except.mapError]

/-- Whether it was found or computed, a request is answered with the layout of its fields. -/
theorem Recalls.answer (h : Recalls events c) (key : Key) (fields : List Shape) :
    (c.request key fields).1 = key.layout fields := by
  unfold Catalog.request
  split
  next layout hfound => exact (h.layout_of_lookup hfound).symm
  next =>
    split
    next e he => exact he.symm
    next layout hlayout => exact hlayout.symm

/-- A lookup finds a layout exactly for the latest fields. -/
theorem Recalls.isSome_lookup_iff (h : Recalls events c) :
    (c.lookup key fields).isSome ↔ Latest key fields events := by
  rw [Option.isSome_iff_exists]
  constructor
  · rintro ⟨layout, hfound⟩
    exact ((h key fields layout).1 (lookup_eq_some_iff.1 hfound)).1
  · intro hlatest
    obtain ⟨layout, hlayout⟩ := hlatest.exists_layout
    exact ⟨layout, lookup_eq_some_iff.2 ((h key fields layout).2 ⟨hlatest, hlayout⟩)⟩

/-- What a catalog holds is all that its answers depend on. -/
theorem transparent_of_recalls (h : Recalls events c) : Transparent events c where
  answer key fields := (h.answer key fields).trans (key.layout_eq fields)
  found key fields layout hfound := Key.layout_eq_ok_iff.1 (h.layout_of_lookup hfound)
  found_iff _ _ := h.isSome_lookup_iff
  hit key fields hfound := by
    obtain ⟨layout, hfound⟩ := Option.isSome_iff_exists.1 hfound
    simp only [Catalog.request, hfound, and_self]
  miss key fields hmissing := by
    rw [Option.not_isSome_iff_eq_none] at hmissing
    simp only [Catalog.request, hmissing]
    cases key.layout fields <;> exact ⟨rfl, rfl⟩
  failed key fields e he := by
    unfold Catalog.request at he ⊢
    cases hfound : c.lookup key fields with
    | some layout => simp only [hfound, reduceCtorEq] at he
    | none =>
      cases hlayout : key.layout fields with
      | error cause => simp only
      | ok layout => simp only [hfound, hlayout, reduceCtorEq] at he

end Catalog

end NativeLayout
