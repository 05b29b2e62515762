import NativeLayout.Proofs.Catalog.Oblivious
import NativeLayout.Proofs.Tree.WellFormed

namespace NativeLayout

/-!
# Whatever resolves is well-formed

* `Node.Resolution` — what the shape that a structure resolved to says.
* `World.Reachable.well_formed` — this holds of every structure in a reachable world, whatever happened to
  it before and whatever the catalogs hold.
-/

open Node

/-- What is known of a structure that resolved to a shape. -/
structure Node.Resolution (m : Node) (shared : Shared) (s : Shape) : Prop where
  wellFormed : s.WellFormed
  /-- Only leaves have leading padding or an extent that wants rounding. -/
  whole : m.leaf? = none → s.pre = 0 ∧ s.align ∣ s.extent
  /-- An array of records or arrays takes as many bytes as they do together. -/
  dense : m.OfParts → (m.resolve shared).state.Dense s

/-- A sound structure that resolves satisfies all that is said of a resolution. -/
theorem Node.resolution_of_sound {m : Node} {shared : Shared} {s : Shape} (hm : m.Sound)
    (hwords : ∀ kind, m.leaf? = some kind → kind.Countable) (hshared : shared.Coherent)
    (h : (m.resolve shared).result = .ok s) : m.Resolution shared s := by
  have hresolved := resolved_resolve hm hshared
  refine ⟨wellFormed_of_resolve hm hshared hwords h, ?_, ?_⟩
  · intro hkind
    have hwhole := whole_of_resolve hm hshared hkind h
    exact ⟨hwhole.pre, hwhole.dvd⟩
  · intro hparts
    have hparts := hparts.of_forward (advances_resolve hm hshared).forward
    exact dense_of_sound hresolved.sound hparts (hresolved.ok s h)

namespace World

variable {w : World} {n m : Node} {route : List Nat} {shared : Shared} {s : Shape}

/-- A structure in a reachable world resolves to a well-formed shape if it resolves, with the catalogs of
the world or with any others, whatever they were used for.  The shape of a record or an array has no
leading padding and fills multiples of its alignment, and an array of them takes as many bytes as its
elements do.  Of the leaves in the tree nothing is asked for, but that the bytes of the structure itself
can be counted if its owner chose them: each shape is checked when it is put together. -/
theorem Reachable.well_formed (h : w.Reachable) (hn : n ∈ w.trees) (hm : n.at? route = some m)
    (hwords : ∀ kind, m.leaf? = some kind → kind.Countable)
    (hshared : shared = w.store.shared ∨ shared.Arises)
    (hs : (m.resolve shared).result = .ok s) : m.Resolution shared s := by
  have hsound := (h.sound.trees n hn).at hm
  apply resolution_of_sound hsound hwords ?_ hs
  rcases hshared with rfl | harises
  · exact h.sound.coherent
  · exact harises.coherent

/-- A byte and a number, side by side. -/
def packedPoint : Node :=
  .record .unallocated ⟨"Point", .msvcX64, true, 0⟩
    [⟨0, "tag", .ofLeaf (.scalars .u8 1)⟩, ⟨1, "x", .ofLeaf (.scalars .i32 1)⟩]

/-- Three of them. -/
def packedPoints : Node := .newArray 3 false none packedPoint []

/-- The packed points are a record of a reachable world. -/
theorem exists_packedPoints : ∃ w : World, w.Reachable ∧ packedPoints ∈ w.trees := by
  have byte := (Reachable.start 0).leaf (.scalars .u8 1)
  have number := byte.leaf (.scalars .i32 1)
  have record := number.record ⟨"Point", .msvcX64, true, 0⟩
  have first := record.field 2 0 "tag" rfl
  have both := first.field 2 1 "x" rfl
  have array := both.uniform 3 false 2 (rfl : _ = some packedPoint)
  exact ⟨_, array, List.mem_of_getElem? (i := 3) rfl⟩

/-- A catalog that knows another record of that name. -/
def otherPoint : Shared where
  catalogs := Table.empty.insert 0
    (Catalog.empty.afterAll [.request ⟨"Point", .msvcX64, true⟩ [⟨8, false, 0, 8, 0⟩]])
  tallies := .empty

theorem arises_otherPoint : otherPoint.Arises := by
  intro number
  have hget : otherPoint.catalog number = _ := Shared.catalog_insert .empty 0 number _
  rw [hget]
  split
  · exact ⟨_, rfl⟩
  · exact ⟨[], rfl⟩

/-- Three packed records of five bytes take fifteen bytes, next to a catalog in which the name stands for
a record of eight bytes. -/
theorem Reachable.well_formed_points : ∃ w : World, w.Reachable ∧ packedPoints ∈ w.trees ∧
    (∀ kind, packedPoints.leaf? = some kind → kind.Countable) ∧ otherPoint.Arises ∧
    (packedPoints.resolve otherPoint).result = .ok ⟨1, true, 0, 15, 0⟩ ∧
    Shape.WellFormed ⟨1, true, 0, 15, 0⟩ ∧
    (packedPoints.resolve otherPoint).state.Dense ⟨1, true, 0, 15, 0⟩ := by
  obtain ⟨w, hw, hn⟩ := exists_packedPoints
  have hwords : ∀ kind, packedPoints.leaf? = some kind → kind.Countable := by rintro _ ⟨⟩
  have hs : (packedPoints.resolve otherPoint).result = .ok ⟨1, true, 0, 15, 0⟩ := by decide +kernel
  have hresolution := hw.well_formed hn (at?_nil _) hwords (.inr arises_otherPoint) hs
  have hparts : packedPoints.OfParts := ⟨rfl, by simp⟩
  exact ⟨w, hw, hn, hwords, arises_otherPoint, hs, hresolution.wellFormed, hresolution.dense hparts⟩

end World

end NativeLayout
