namespace NativeLayout

/-!
# Tables

Values filed under keys.  A table answers like a function from keys to optional values.

* `Table.find?`, `Table.insert`, `Table.erase` — looking up, filing and removing.
* `find?_insert`, `find?_erase` — what a table answers afterwards.
-/

/-- Values filed under keys; the first entry of a key counts. -/
structure Table (κ α : Type) where
  entries : List (κ × α)
  deriving DecidableEq, Repr

namespace Table

variable {κ α : Type}

/-- A table without entries. -/
def empty : Table κ α := ⟨[]⟩

instance : Inhabited (Table κ α) := ⟨empty⟩

/-- The number of entries. -/
def size (t : Table κ α) : Nat := t.entries.length

/-- The values, newest first. -/
def values (t : Table κ α) : List α := t.entries.map (·.2)

variable [DecidableEq κ]

/-- The value filed under a key. -/
def find? (t : Table κ α) (key : κ) : Option α :=
  (t.entries.find? fun entry => entry.1 = key).map (·.2)

/-- The table without a key. -/
def erase (t : Table κ α) (key : κ) : Table κ α :=
  ⟨t.entries.filter fun entry => entry.1 ≠ key⟩

/-- The table with a value under a key, in place of any other. -/
def insert (t : Table κ α) (key : κ) (value : α) : Table κ α :=
  ⟨(key, value) :: (t.erase key).entries⟩

/-! ### What a table answers -/

@[simp] theorem find?_empty (key : κ) : (empty : Table κ α).find? key = none := rfl

theorem find?_erase (t : Table κ α) (key other : κ) :
    (t.erase key).find? other = if key = other then none else t.find? other := by
  simp only [find?, erase, List.find?_filter]
  by_cases h : key = other
  · subst h
    rw [if_pos rfl, Option.map_eq_none_iff, List.find?_eq_none]
    simp
  · rw [if_neg h]
    congr 2
    funext entry
    by_cases ho : entry.1 = other <;> simp [ho, Ne.symm h]

/-- A new entry is found under its key, and all other entries under theirs. -/
theorem find?_insert (t : Table κ α) (key other : κ) (value : α) :
    (t.insert key value).find? other = if key = other then some value else t.find? other := by
  by_cases h : key = other
  · simp [find?, insert, h]
  · have := t.find?_erase key other
    simp only [find?, if_neg h] at this ⊢
    simpa [insert, h] using this

end Table

end NativeLayout
