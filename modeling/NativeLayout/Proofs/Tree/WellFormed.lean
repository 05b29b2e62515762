import NativeLayout.Proofs.Layout.Caps
import NativeLayout.Proofs.Tree.Advance
import NativeLayout.Proofs.Tree.Described

namespace NativeLayout

/-!
# Well-formed shapes

* `Shape.WellFormed` — a power of two as alignment, bytes that can be counted, and nothing but bytes if
  the shape is packed.
* `RecordLayout.wellFormed_of_compute`, `Node.wellFormed_of_arrayShape?` — records and arrays are
  well-formed whatever their parts are: each one is checked when it is put together.
* `Node.leaf?` — the kind of a leaf; a structure that moves on stays what it is (`Node.Forward.leaf?_eq`).
* `Node.wellFormed_of_resolve`, `Node.whole_of_resolve` — so everything that resolves is well-formed, and
  a record or an array is whole.
* `Node.Dense`, `Node.dense_of_sound` — in an array of records or arrays nothing lies between the
  elements.
-/

/-- What the shape of every structure keeps to. -/
structure Shape.WellFormed (s : Shape) : Prop where
  pow : s.align.isPowerOfTwo
  /-- No sum of padding and size passes the last word. -/
  fits : s.pre + s.size + s.post < Word.limit
  bare : s.packed = true → s.align = 1 ∧ s.pre = 0 ∧ s.post = 0

namespace Shape

variable {s : Shape} {size align pre post : Nat}

/-- What the checked constructor lets through is well formed. -/
theorem wellFormed_of_padded? (h : padded? size align pre post = .ok s) : s.WellFormed := by
  obtain ⟨hpow, hfits, rfl⟩ := padded?_eq_ok_iff.1 h
  exact ⟨hpow, hfits, by simp⟩

/-- A packed shape of some bytes is well formed. -/
theorem wellFormed_compressed (h : size < Word.limit) : (compressed size).WellFormed :=
  ⟨⟨0, rfl⟩, by simpa [compressed] using h, by simp [compressed]⟩

end Shape

/-! ### One kind of shape after the other -/

/-- A run of scalars is well formed, if its size is a word. -/
theorem ScalarType.wellFormed_of_run? {t : ScalarType} {count : Nat} {s : Shape}
    (h : t.run? count = .ok s) : s.WellFormed := by
  unfold run? at h
  split at h
  · cases h
  · split at h
    · cases h
    · exact Shape.wellFormed_of_padded? h

/-- The fields of a packed record end within a word, and any other record is checked at its end. -/
theorem RecordLayout.wellFormed_of_compute {cap : Nat} {packed : Bool} {typeName : String}
    {shapes : List Shape} {l : RecordLayout} (h : compute cap packed typeName shapes = .ok l) :
    l.shape.WellFormed := by
  obtain ⟨-, placed, hplaced, hclose, -, -⟩ := compute_eq_ok_iff.1 h
  unfold close at hclose
  split at hclose
  · rw [← Except.ok.inj hclose]
    apply Shape.wellFormed_compressed
    exact stop_lt_of_placeFields (by decide) hplaced
  · split at hclose
    · cases hclose
    · exact Shape.wellFormed_of_padded? hclose

/-- Whatever the elements are, the array is checked. -/
theorem Node.wellFormed_of_arrayShape? {length stride : Nat} {element s : Shape}
    (h : arrayShape? length element = .ok (stride, s)) : s.WellFormed := by
  unfold arrayShape? at h
  split at h
  · cases h
  next begin _ =>
    split at h
    · cases h
    next size hsize =>
      obtain ⟨hfits, rfl⟩ := Word.mul?_eq_some_iff.1 hsize
      split at h
      · cases h
        exact Shape.wellFormed_compressed hfits
      · cases hplain : Shape.plain? (begin * length) element.align with
        | error e => simp [hplain, Except.map] at h
        | ok t =>
          obtain ⟨-, rfl⟩ : begin = stride ∧ t = s := by simpa [hplain, Except.map] using h
          exact Shape.wellFormed_of_padded? hplain

/-- Whether the bytes that the owner of a leaf asks for can be counted. -/
def Leaf.Countable : Leaf → Prop
  | .custom _ wanted _ => wanted.size < Word.limit
  | _ => True

/-- So is every other leaf whose length is a word. -/
theorem Leaf.wellFormed_of_shape? {kind : Leaf} {s : Shape} (hkind : kind.Countable)
    (h : kind.shape? = .ok s) : s.WellFormed := by
  cases kind with
  | custom name wanted type =>
    rcases shape?_custom_eq_ok_iff.1 h with ⟨-, rfl⟩ | ⟨-, hpadded⟩
    · exact Shape.wellFormed_compressed hkind
    · exact Shape.wellFormed_of_padded? hpadded
  | scalars | text | enum | pointer =>
    obtain ⟨type, count, hrun, -⟩ := exists_run (by trivial) h
    exact ScalarType.wellFormed_of_run? hrun

namespace Node

variable {n : Node} {shared : Shared} {s : Shape}

/-! ### What resolves -/

/-- The kind of a leaf; a record or an array has none. -/
def leaf? : Node → Option Leaf
  | .leaf _ kind => some kind
  | _ => none

/-- A leaf stays the leaf it is. -/
theorem Forward.leaf?_eq {m : Node} (h : Forward n m) : m.leaf? = n.leaf? := by
  cases h <;> rfl

/-- A structure that knows its parts has a well-formed shape, if its lengths are words. -/
theorem wellFormed_of_consistent (hn : n.Consistent) (hwords : ∀ kind, n.leaf? = some kind → kind.Countable)
    (hs : n.shape? = some s) : s.WellFormed := by
  cases n with
  | leaf status kind => exact Leaf.wellFormed_of_shape? (hwords kind rfl) (hn s hs)
  | record status head fields =>
    obtain ⟨l, hl, rfl⟩ := shape?_record_eq_some_iff.1 hs
    obtain ⟨shapes, -, hlayout⟩ := RecordSound.layout hn l hl
    exact RecordLayout.wellFormed_of_compute hlayout
  | array status head template alternatives staged elements =>
    obtain ⟨plan, hplan, rfl⟩ := shape?_array_eq_some_iff.1 hs
    exact wellFormed_of_arrayShape? (ArraySound.plan hn plan hplan).2

/-- What resolves is well-formed, whatever catalogs it took its layouts from. -/
theorem wellFormed_of_resolve (hn : n.Sound) (hshared : shared.Coherent)
    (hwords : ∀ kind, n.leaf? = some kind → kind.Countable)
    (h : (n.resolve shared).result = .ok s) : s.WellFormed := by
  have hresolved := resolved_resolve hn hshared
  rw [← (advances_resolve hn hshared).forward.leaf?_eq] at hwords
  exact wellFormed_of_consistent hresolved.sound.self_of hwords (hresolved.ok s h)

/-- A record or an array that resolves has no leading padding and fills multiples of its alignment. -/
theorem whole_of_resolve (hn : n.Sound) (hshared : shared.Coherent) (hkind : n.leaf? = none)
    (h : (n.resolve shared).result = .ok s) : s.Whole := by
  have hresolved := resolved_resolve hn hshared
  apply whole_of_consistent hresolved.sound.self_of (hresolved.ok s h)
  -- it is no leaf afterwards either
  intro status kind hleaf
  have hnone := (advances_resolve hn hshared).forward.leaf?_eq
  rw [hleaf, hkind] at hnone
  cases hnone

/-! ### Arrays of records and arrays -/

/-- An array of a shape, in which nothing lies between the elements: each has the shape that a template
resolves to, one follows the other after the bytes of that shape, and all of them together are the
bytes of the array. -/
def Dense (s : Shape) : Node → Prop
  | .array status head template alternatives _ elements =>
    ∃ plan, status.plan? = some plan ∧ plan.shape = s ∧
      (∃ call, plan.ArisesFrom head.length (choose call alternatives template)) ∧
      (∀ e, some e ∈ elements → e.shape? = some plan.element) ∧
      plan.stride = plan.element.extent ∧ s.extent = head.length * plan.element.extent
  | _ => False

/-- Whether the structure is an array, and its elements are records or arrays. -/
def OfParts : Node → Prop
  | .array _ _ template alternatives _ _ =>
    template.leaf? = none ∧ ∀ e ∈ alternatives, e.2.leaf? = none
  | _ => False

/-- A structure that moves on keeps the shape that its parts gave it. -/
theorem OfParts.of_forward {m : Node} (hn : n.OfParts) (h : Forward n m) : m.OfParts := by
  cases h with
  | leaf => exact hn
  | record => exact hn
  | array => exact hn

/-- Records and arrays fill multiples of their alignment, so there is nothing to round up between two of
them. -/
theorem dense_of_sound (hn : n.Sound) (hparts : n.OfParts) (hs : n.shape? = some s) : n.Dense s := by
  cases n with
  | leaf => cases hparts
  | record => cases hparts
  | array status head template alternatives staged elements =>
    obtain ⟨self, ⟨default, others⟩, -, -⟩ := sound_array_iff.1 hn
    obtain ⟨plan, hplan, rfl⟩ := shape?_array_eq_some_iff.1 hs
    obtain ⟨call, horigin⟩ := self.origin plan hplan
    have hwhole : plan.element.Whole := by
      obtain ⟨shared, hshared, hresult, -⟩ := horigin
      have hchosen : (choose call alternatives template).Sound := choose_induction default others
      have hkind : (choose call alternatives template).leaf? = none :=
        choose_induction (P := fun m : Node => m.leaf? = none) hparts.1 hparts.2
      exact whole_of_resolve hchosen hshared hkind hresult
    obtain ⟨-, hshape⟩ := self.plan plan hplan
    obtain ⟨hstride, -⟩ := eq_of_arrayShape? hshape
    obtain ⟨-, hextent, -⟩ := whole_of_arrayShape? hwhole hshape
    refine ⟨plan, hplan, rfl, ⟨call, horigin⟩, ?_, stride?_of_whole hwhole hstride, hextent⟩
    -- there are no elements before there is storage, and then they have the planned shape
    intro e he
    obtain ⟨k, hk⟩ := List.mem_iff_getElem?.1 he
    cases status with
    | unallocated => cases hplan
    | allocatable =>
      rw [self.unplaced rfl] at hk
      cases hk
    | allocated plan' place =>
      cases hplan
      exact ((self.placed plan place rfl).2 k e hk).1

end Node

end NativeLayout
