import NativeLayout.Shared

namespace NativeLayout

/-!
# Catalogs only remember what they computed

* `Catalog.Coherent`, `Shared.Coherent` — each entry is the layout of the fields it is filed with.
* `Catalog.request_eq`, `Shared.request_eq` — a coherent catalog answers like the computation, and
  stays coherent.
-/

namespace Catalog

/-- Each entry is what the computation gives for its key and its fields. -/
def Coherent (c : Catalog) : Prop :=
  ∀ key entry, c.entries.find? key = some entry → key.layout entry.fields = .ok entry.layout

variable {c : Catalog}

/-- A catalog without entries remembers nothing wrong. -/
theorem coherent_empty : empty.Coherent := by
  intro key entry h
  cases h

/-- What a coherent catalog remembers for some fields is their layout. -/
theorem Coherent.layout_of_lookup (hc : c.Coherent) {key : Key} {fields : List Shape}
    {layout : RecordLayout} (h : c.lookup key fields = some layout) :
    key.layout fields = .ok layout :=
  hc key _ (lookup_eq_some_iff.1 h)

/-- A coherent catalog answers like the computation, and stays coherent. -/
theorem Coherent.request_eq (hc : c.Coherent) (key : Key) (fields : List Shape) :
    (c.request key fields).1 = key.layout fields ∧ (c.request key fields).2.Coherent := by
  unfold request
  split
  next layout hfound => exact ⟨(hc.layout_of_lookup hfound).symm, hc⟩
  next =>
    split
    next e he => exact ⟨he.symm, hc⟩
    next layout hlayout =>
      refine ⟨hlayout.symm, fun other entry hentry => ?_⟩
      rw [Table.find?_insert] at hentry
      split at hentry
      next hkey =>
        cases hentry
        rw [← hkey, hlayout]
      next => exact hc other entry hentry

end Catalog

namespace Shared

/-- Each catalog is coherent. -/
def Coherent (s : Shared) : Prop := ∀ number, (s.catalog number).Coherent

variable {s : Shared}

/-- There are no catalogs that could. -/
theorem coherent_empty : empty.Coherent := fun _ => Catalog.coherent_empty

/-- Counting does not touch the catalogs. -/
theorem Coherent.count (h : s.Coherent) (counter : Option String) : (s.count counter).Coherent := by
  cases counter <;> exact h

/-- A catalog that is put in is found under its number; the others are as before. -/
theorem catalog_insert (s : Shared) (number other : Nat) (c : Catalog) :
    { s with catalogs := s.catalogs.insert number c }.catalog other =
      if number = other then c else s.catalog other := by
  rw [catalog, Table.find?_insert]
  split <;> rfl

/-- Another coherent catalog may take the place of one that is there. -/
theorem Coherent.insert (h : s.Coherent) (number : Nat) {c : Catalog} (hc : c.Coherent) :
    { s with catalogs := s.catalogs.insert number c }.Coherent := by
  intro other
  rw [catalog_insert]
  split
  · exact hc
  · exact h other

/-- A request to one of the catalogs is answered by the computation, and leaves all coherent. -/
theorem Coherent.request_eq (h : s.Coherent) (number : Nat) (key : Catalog.Key)
    (fields : List Shape) :
    (s.request number key fields).1 = key.layout fields ∧
      (s.request number key fields).2.Coherent := by
  obtain ⟨hanswer, hcatalog⟩ := (h number).request_eq key fields
  exact ⟨hanswer, h.insert number hcatalog⟩

end Shared

end NativeLayout
