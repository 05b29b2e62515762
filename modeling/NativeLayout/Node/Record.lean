import NativeLayout.Node.Basic

namespace NativeLayout.Node

/-!
# Fields of a record

A record keeps its fields in the order of their indices.

* `fileField` — the fields with one more; their indices stay in ascending order
  (`pairwise_of_fileField`), and only an index that is taken is refused
  (`fileField_eq_none_iff`).
* `register` — a new field under an index, as long as the record has no layout (`register_eq_ok`).
* `nextIndex` — the index behind all others.
* `field?` — a child by its index.
-/

/-- Files a field in front of the first one with a larger index; `none` if its index is
taken. -/
def fileField (f : Field Node) : List (Field Node) → Option (List (Field Node))
  | [] => some [f]
  | g :: rest =>
    if f.index < g.index then some (f :: g :: rest)
    else if f.index = g.index then none
    else (fileField f rest).map (g :: ·)

/-- A field is refused exactly when its index is taken, as long as the indices ascend. -/
theorem fileField_eq_none_iff {f : Field Node} {fields : List (Field Node)}
    (h : fields.Pairwise fun g g' => g.index < g'.index) :
    fileField f fields = none ↔ ∃ g ∈ fields, g.index = f.index := by
  induction fields with
  | nil => simp [fileField]
  | cons g rest ih =>
    obtain ⟨hg, hrest⟩ := List.pairwise_cons.1 h
    unfold fileField
    split
    next hlt =>
      simp only [reduceCtorEq, List.mem_cons, exists_eq_or_imp, false_iff, not_or, not_exists,
        not_and]
      -- all that is behind a larger index is larger still
      exact ⟨by omega, fun g' hg' => by have := hg g' hg'; omega⟩
    next hlt =>
      split
      next heq => simp [heq]
      next hne => simp [ih hrest, Ne.symm hne]

/-- The fields afterwards are the new one and the others. -/
theorem perm_of_fileField {f : Field Node} {fields filed : List (Field Node)}
    (h : fileField f fields = some filed) : filed.Perm (f :: fields) := by
  induction fields generalizing filed with
  | nil => cases h; exact .refl _
  | cons g rest ih =>
    unfold fileField at h
    split at h
    next => cases h; exact .refl _
    next =>
      split at h
      next => cases h
      next =>
        obtain ⟨later, hlater, rfl⟩ := Option.map_eq_some_iff.1 h
        exact ((ih hlater).cons g).trans (.swap f g rest)

/-- Filing a field adds it, and takes none away. -/
theorem mem_of_fileField {f : Field Node} {fields filed : List (Field Node)}
    (h : fileField f fields = some filed) (g : Field Node) :
    g ∈ filed ↔ g = f ∨ g ∈ fields := by
  rw [(perm_of_fileField h).mem_iff, List.mem_cons]

/-- Ascending indices stay ascending. -/
theorem pairwise_of_fileField {f : Field Node} {fields filed : List (Field Node)}
    (hfields : fields.Pairwise fun g g' => g.index < g'.index)
    (h : fileField f fields = some filed) :
    filed.Pairwise fun g g' => g.index < g'.index := by
  induction fields generalizing filed with
  | nil => cases h; simp
  | cons g rest ih =>
    obtain ⟨hg, hrest⟩ := List.pairwise_cons.1 hfields
    unfold fileField at h
    split at h
    next hlt =>
      cases h
      -- in front of a larger index, and so of all that are behind it
      refine List.pairwise_cons.2 ⟨fun g' hg' => ?_, hfields⟩
      rcases List.mem_cons.1 hg' with rfl | hg'
      · exact hlt
      · exact Nat.lt_trans hlt (hg g' hg')
    next hlt =>
      split at h
      next => cases h
      next hne =>
        -- behind this field, which stays in front of the new one and of the rest
        obtain ⟨later, hlater, rfl⟩ := Option.map_eq_some_iff.1 h
        refine List.pairwise_cons.2 ⟨fun g' hg' => ?_, ih hrest hlater⟩
        rcases (mem_of_fileField hlater g').1 hg' with rfl | hg'
        · exact Nat.lt_of_le_of_ne (Nat.not_lt.1 hlt) (Ne.symm hne)
        · exact hg g' hg'

/-- The index behind all others. -/
def nextIndex (fields : List (Field Node)) : Nat :=
  match fields.getLast? with
  | some f => f.index + 1
  | none => 0

/-- The record with a new field. -/
def register (index : Nat) (name : String) (child : Node) (status : Status RecordLayout)
    (head : RecordHead) (fields : List (Field Node)) : Except Fault (List (Field Node)) :=
  if status.stage ≠ .unallocated then
    .error (.illegal .registerField (.hasLayout head.typeName))
  else if child.stage = .allocated then
    .error (.illegal .registerField (.hasStorage name))
  else
    match fileField { index, name, child } fields with
    | some fields => .ok fields
    | none => .error (.layout (.duplicateField head.typeName index))

/-- Only a record without a layout takes a field. -/
theorem register_eq_ok {index : Nat} {name : String} {child : Node} {status : Status RecordLayout}
    {head : RecordHead} {fields filed : List (Field Node)}
    (h : register index name child status head fields = .ok filed) :
    status = .unallocated ∧ fileField { index, name, child } fields = some filed := by
  unfold register at h
  by_cases hstatus : status.stage = .unallocated
  · rw [if_neg (by simpa using hstatus)] at h
    split at h
    next => cases h
    next =>
      split at h
      next hfiled =>
        cases h
        refine ⟨?_, hfiled⟩
        cases status <;> simp [Status.stage] at hstatus ⊢
      next => cases h
  · rw [if_pos hstatus] at h
    cases h

/-- The child under an index. -/
def field? (fields : List (Field Node)) (index : Nat) : Option Node :=
  (fields.find? fun f => f.index = index).map (·.child)

/-- The offset of the field under an index. -/
def fieldOffset? (status : Status RecordLayout) (fields : List (Field Node)) (index : Nat) :
    Option Nat :=
  match fields.findIdx? fun f => f.index = index, status.plan? with
  | some position, some layout => layout.offsets[position]?
  | _, _ => none

end NativeLayout.Node
