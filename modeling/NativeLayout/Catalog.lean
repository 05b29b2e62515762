import NativeLayout.Abi
import NativeLayout.Table

namespace NativeLayout

/-!
# Catalogs of record layouts

Records of one name, ABI and packing share a layout, which a catalog remembers together
with the field shapes it belongs to.  An entry answers for those shapes only, so what a
catalog holds never changes a layout.

* `Catalog.lookup` — the remembered layout, if it is for these fields.
* `Catalog.request` — the remembered layout, or a new one that is then remembered.
-/

namespace Catalog

/-- What a layout is filed under. -/
structure Key where
  typeName : String
  abi : Abi
  packed : Bool
  deriving DecidableEq, Repr

/-- The layout of a record with these fields, computed afresh. -/
def Key.layout (key : Key) (fields : List Shape) : Except LayoutError RecordLayout :=
  key.abi.layout key.packed key.typeName fields

/-- A layout and the fields it was computed from. -/
structure Entry where
  fields : List Shape
  layout : RecordLayout
  deriving DecidableEq, Repr

end Catalog

/-- The remembered layouts, and how often they were of use. -/
structure Catalog where
  entries : Table Catalog.Key Catalog.Entry
  /-- Requests answered from an entry. -/
  hits : Nat
  /-- Requests that took a computation. -/
  misses : Nat
  deriving DecidableEq, Repr

namespace Catalog

/-- A catalog without entries. -/
def empty : Catalog := { entries := .empty, hits := 0, misses := 0 }

instance : Inhabited Catalog := ⟨empty⟩

/-- The layout remembered for a key, if it was computed from these fields. -/
def lookup (c : Catalog) (key : Key) (fields : List Shape) : Option RecordLayout :=
  (c.entries.find? key).bind fun entry =>
    if entry.fields = fields then some entry.layout else none

/-- The layout of a record with these fields, and the catalog after the request. -/
def request (c : Catalog) (key : Key) (fields : List Shape) :
    Except LayoutError RecordLayout × Catalog :=
  match c.lookup key fields with
  | some layout => (.ok layout, { c with hits := c.hits + 1 })
  | none =>
    match key.layout fields with
    | .error e => (.error e, { c with misses := c.misses + 1 })
    | .ok layout =>
      (.ok layout,
        { c with entries := c.entries.insert key { fields, layout }, misses := c.misses + 1 })

/-- The catalog with its entries forgotten. -/
def clear (c : Catalog) : Catalog := { c with entries := .empty }

/-! ### What a catalog remembers -/

/-- A layout is found if it was filed under the key for the same fields. -/
theorem lookup_eq_some_iff {c : Catalog} {key : Key} {fields : List Shape}
    {layout : RecordLayout} :
    c.lookup key fields = some layout ↔ c.entries.find? key = some ⟨fields, layout⟩ := by
  unfold lookup
  cases h : c.entries.find? key with
  | none => simp
  | some entry =>
    obtain ⟨fields', layout'⟩ := entry
    by_cases hf : fields' = fields <;> simp [hf]

end Catalog

end NativeLayout
