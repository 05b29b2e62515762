import NativeLayout.Catalog

namespace NativeLayout

/-!
# What structures share

* `Shared` — the catalogs that records take their layouts from, and the tallies that arrays
  keep.
-/

/-- What structures share. -/
structure Shared where
  catalogs : Table Nat Catalog
  tallies : Table String Nat

namespace Shared

/-- Nothing is remembered or counted. -/
def empty : Shared := { catalogs := .empty, tallies := .empty }

/-- A catalog; one that nobody used is empty. -/
def catalog (s : Shared) (number : Nat) : Catalog :=
  (s.catalogs.find? number).getD .empty

/-- How often something was counted. -/
def tally (s : Shared) (name : String) : Nat :=
  (s.tallies.find? name).getD 0

/-- Counts once, if there is a name to count under. -/
def count (s : Shared) : Option String → Shared
  | none => s
  | some name => { s with tallies := s.tallies.insert name (s.tally name + 1) }

/-- The layout of a record, from a catalog. -/
def request (s : Shared) (number : Nat) (key : Catalog.Key) (fields : List Shape) :
    Except LayoutError RecordLayout × Shared :=
  let r := (s.catalog number).request key fields
  (r.1, { s with catalogs := s.catalogs.insert number r.2 })

end Shared

end NativeLayout
