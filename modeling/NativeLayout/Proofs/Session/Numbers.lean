import NativeLayout.Proofs.Session.Access
import NativeLayout.Proofs.Session.Route
import NativeLayout.Proofs.Session.World

namespace NativeLayout

/-!
# Numbers that are written and read again

* `Leaf.stored` — the numbers in some bytes of memory.
* `Leaf.stored_write_front`, `Leaf.stored_write_at` — what they are after a write.
* `Visit.putFrom` — numbers put one after the other, each with a check of its own.
* `Node.Numbered` — numbers that are stored, and what is read after any writes to them.
* `Node.Unstored` — numbers that are not stored are never written.
* `World.Reachable.numbered` — one of the two holds for all numbers of a tree.
-/

namespace Leaf

/-- The numbers that are stored at a place. -/
def stored (heap : Heap) (type : ScalarType) (p : Placement) (length : Nat) : List Int :=
  (List.range length).map (loadScalar heap type p)

variable {heap : Heap} {type : ScalarType} {s : Shape} {p : Placement} {length index : Nat}

/-- There are as many stored numbers as the leaf has cells. -/
@[simp] theorem length_stored : (stored heap type p length).length = length := by
  rw [stored, List.length_map, List.length_range]

/-- Each of them is what is loaded from its cell. -/
theorem getElem?_stored (h : index < length) :
    (stored heap type p length)[index]? = some (loadScalar heap type p index) := by
  rw [stored, List.getElem?_map, List.getElem?_range h]
  rfl

/-- A number is the datum of its cell. -/
theorem datum?_of_lt (h : index < length) :
    (Leaf.scalars type length).datum? heap (.allocated s p) index =
      some (.number (loadScalar heap type p index)) :=
  datum?_eq rfl (by rw [cell?, if_pos h])

/-- What a cell holds is what is loaded from it. -/
theorem loadScalar_of_datum? {value : Int} (h : index < length)
    (hdatum : (Leaf.scalars type length).datum? heap (.allocated s p) index = some (.number value)) :
    loadScalar heap type p index = value := by
  rw [datum?_of_lt h] at hdatum
  cases hdatum
  rfl

/-- The numbers after other ones are written from the first one on. -/
theorem stored_write_front {values : List Int} (hhas : heap.Has p.region)
    (hfits : values.length ≤ length) (htyped : ∀ value ∈ values, type.InRange value) :
    stored (heap.write p.region p.offset (values.flatMap type.encode)) type p length =
      values ++ (stored heap type p length).drop values.length := by
  -- a cell holds its number under any shape
  obtain ⟨s⟩ : Nonempty Shape := ⟨⟨1, false, 0, 0, 0⟩⟩
  apply List.ext_getElem?
  intro i
  by_cases hi : i < length
  · have hafter : (Leaf.scalars type length).datum? (heap.write p.region p.offset
        (values.flatMap type.encode)) (.allocated s p) i = _ :=
      datum?_write_numbers rfl hhas hfits i
    rw [getElem?_stored hi]
    cases hvalue : values[i]? with
    | some value =>
      rw [hvalue] at hafter
      have hmeaning := meaning?_encode length (htyped value (List.mem_of_getElem? hvalue))
      rw [loadScalar_of_datum? hi (hafter.trans hmeaning)]
      obtain ⟨hlt, -⟩ := List.getElem?_eq_some_iff.1 hvalue
      rw [List.getElem?_append_left hlt, hvalue]
    | none =>
      rw [hvalue] at hafter
      have hbehind : values.length ≤ i := List.getElem?_eq_none_iff.1 hvalue
      rw [loadScalar_of_datum? hi (hafter.trans (datum?_of_lt hi)), List.getElem?_append_right hbehind,
        List.getElem?_drop, Nat.add_sub_cancel' hbehind, getElem?_stored hi]
  · have hbehind := Nat.le_of_not_lt hi
    have hlength : (values ++ (stored heap type p length).drop values.length).length = length := by
      rw [List.length_append, List.length_drop, length_stored]
      omega
    rw [List.getElem?_eq_none (by rwa [length_stored]), List.getElem?_eq_none (by rwa [hlength])]

/-- The numbers after another one is written at an index. -/
theorem stored_write_at {value : Int} (hhas : heap.Has p.region) (hindex : index < length)
    (htyped : type.InRange value) :
    stored (heap.write p.region (p.offset + index * type.width) (type.encode value)) type p length =
      (stored heap type p length).set index value := by
  have hcell : (Leaf.scalars type length).cell? index = some (index * type.width, type.width) := by
    rw [cell?, if_pos hindex]
  -- the cells of a leaf do not depend on its shape, and any one will do
  obtain ⟨s⟩ : Nonempty Shape := ⟨⟨1, false, 0, 0, 0⟩⟩
  apply List.ext_getElem?
  intro i
  rw [List.getElem?_set]
  by_cases hi : i < length
  · have hafter : (Leaf.scalars type length).datum? (heap.write p.region
        (p.offset + index * type.width) (type.encode value)) (.allocated s p) i = _ :=
      datum?_write_cell rfl hhas hcell (ScalarType.length_encode type value) i
    rw [getElem?_stored hi]
    by_cases hsame : i = index
    · rw [if_pos hsame, meaning?_encode length htyped] at hafter
      rw [if_pos hsame.symm, length_stored, if_pos hindex, loadScalar_of_datum? hi hafter]
    · rw [if_neg hsame] at hafter
      rw [if_neg (Ne.symm hsame), getElem?_stored hi,
        loadScalar_of_datum? hi (hafter.trans (datum?_of_lt hi))]
  · have hbehind := Nat.le_of_not_lt hi
    have hne : index ≠ i := by omega
    rw [if_neg hne, List.getElem?_eq_none (by rwa [length_stored]),
      List.getElem?_eq_none (by rwa [length_stored])]

/-- One more write in front of some others. -/
theorem mapIdx_latest_cons (olds : List Int) (index : Nat) (value : Int) (rest : List (Nat × Int)) :
    ((olds.set index value).mapIdx fun i old => (rest.reverse.lookup i).getD old) =
      olds.mapIdx fun i old => (((index, value) :: rest).reverse.lookup i).getD old := by
  apply List.ext_getElem?
  intro i
  rw [List.getElem?_mapIdx, List.getElem?_mapIdx, List.getElem?_set]
  simp only [List.reverse_cons, List.lookup_append]
  by_cases hsame : index = i
  · subst hsame
    rw [if_pos rfl]
    by_cases hindex : index < olds.length
    · -- a later write at the same index hides this one
      have hlast : [(index, value)].lookup index = some value := by simp
      rw [if_pos hindex, List.getElem?_eq_getElem hindex, hlast, Option.map_some, Option.map_some]
      cases rest.reverse.lookup index <;> rfl
    · rw [if_neg hindex, List.getElem?_eq_none (Nat.le_of_not_lt hindex)]
      rfl
  · -- at another index the write is not seen
    have hother : [(index, value)].lookup i = none := by
      rw [List.lookup_cons, beq_false_of_ne (Ne.symm hsame)]
      rfl
    rw [if_neg hsame, hother, Option.or_none]

end Leaf

/-! ### Numbers at the end of some steps -/

namespace Visit

/-- Numbers put one after the other, each with a check of its own, up to the first that is refused. -/
def putFrom (index : Nat) : List Int → Visit Unit
  | [] => read fun _ _ => .ok ()
  | value :: rest => (putScalar index value).bind fun _ => putFrom (index + 1) rest

/-- Numbers of one type. -/
def typed (type : ScalarType) (values : List Int) : List TypedNumber :=
  values.map fun value => { type, value }

end Visit

namespace Node

/-- Other numbers are put in front of the ones that are stored at the end of some steps. -/
structure NumbersPut (n : Node) (steps : List PathStep) (store : Store) (type : ScalarType)
    (p : Placement) (olds values : List Int) (after : Store) : Prop where
  put : (Visit.putScalars values).along steps n store = ⟨n, after, .ok ()⟩
  /-- It is the same to put one number after the other. -/
  each : (Visit.putFrom 0 values).along steps n store = ⟨n, after, .ok ()⟩
  /-- The other numbers are still there. -/
  get : Visit.getScalars.along steps n after =
    ⟨n, after, .ok (Visit.typed type (values ++ olds.drop values.length))⟩
  /-- So are all their bytes. -/
  bytes : after.heap.read p.region p.offset (olds.length * type.width) =
    values.flatMap type.encode ++
      (store.heap.read p.region p.offset (olds.length * type.width)).drop (values.length * type.width)
  outside : store.heap.SameOutside after.heap p.region p.offset
    (p.offset + values.length * type.width)

/-- Numbers that are stored at the end of some steps, and what writing to them does. -/
structure Numbered (n : Node) (steps : List PathStep) (store : Store) (type : ScalarType)
    (length : Nat) (p : Placement) (olds : List Int) : Prop where
  count : olds.length = length
  get : Visit.getScalars.along steps n store = ⟨n, store, .ok (Visit.typed type olds)⟩
  put : ∀ values, values.length ≤ length → (∀ value ∈ values, type.InRange value) →
    ∃ after, n.NumbersPut steps store type p olds values after
  /-- Too many numbers; none of them is written. -/
  refused : ∀ values : List Int, length < values.length →
    (Visit.putScalars values).along steps n store =
      ⟨n, store, .error (.fault (.outOfRange (values.length - 1) length))⟩
  /-- Any numbers at any indices, one after the other: the last one that was put at an index is there;
  where none was put, there is what was there before. -/
  puts : ∀ puts : List (Nat × Int), (∀ c ∈ puts, type.InRange c.2) → ∃ after,
    Visit.each (puts.map fun c => (Visit.putScalar c.1 c.2).along steps) n store =
      ⟨n, after, .ok (puts.map fun c =>
        if c.1 < length then .ok () else .error (.fault (.outOfRange c.1 length)))⟩ ∧
    Visit.getScalars.along steps n after = ⟨n, after, .ok (Visit.typed type
      (olds.mapIdx fun index old => (puts.reverse.lookup index).getD old))⟩

/-- Numbers that are not stored: nothing is ever written. -/
structure Unstored (n : Node) (steps : List PathStep) (store : Store) (stage : Stage) (length : Nat) :
    Prop where
  put : ∀ index value, (Visit.putScalar index value).along steps n store =
    ⟨n, store, .error (.fault (.illegal .writeScalar (.atStage stage)))⟩
  puts : ∀ values, (Visit.putScalars values).along steps n store = ⟨n, store,
    if length < values.length then .error (.fault (.outOfRange (values.length - 1) length))
    else if values = [] then .ok () else .error (.fault (.illegal .writeScalar (.atStage stage)))⟩

variable {n : Node} {steps : List PathStep} {route : List Nat} {store : Store} {s : Shape}
  {p : Placement} {type : ScalarType} {length : Nat}

/-- Numbers put one after the other are put at once. -/
theorem putFrom_eq {index : Nat} {values : List Int} (hfits : index + values.length ≤ length)
    (store : Store) : Visit.putFrom index values (.leaf (.allocated s p) (.scalars type length)) store =
      ⟨.leaf (.allocated s p) (.scalars type length), ⟨store.heap.write p.region
        (p.offset + index * type.width) (values.flatMap type.encode), store.shared⟩, .ok ()⟩ := by
  induction values generalizing index store with
  | nil =>
    rw [List.flatMap_nil, Heap.write_nil]
    rfl
  | cons value rest ih =>
    rw [List.length_cons] at hfits
    have hindex : index < length := by omega
    have hnext : p.offset + (index + 1) * type.width =
        p.offset + index * type.width + (type.encode value).length := by
      rw [ScalarType.length_encode, Nat.succ_mul, Nat.add_assoc]
    have hfewer : index + 1 + rest.length ≤ length := by omega
    -- the others start where this one ends, so the bytes of all stand side by side
    have hrest := ih hfewer ⟨store.heap.write p.region (p.offset + index * type.width)
      (type.encode value), store.shared⟩
    rw [hnext, Heap.write_append] at hrest
    simp only [Visit.putFrom, Visit.bind, Visit.putScalar, Visit.write, Leaf.writeScalar, Leaf.slot,
      Leaf.storage, Status.placement?, if_pos hindex, Except.map, Except.mapError, hrest,
      List.flatMap_cons]

section leaf

variable (hn : n.Sound) (hroute : n.route? steps = some route)

include hn hroute

section stored

variable (hm : n.at? route = some (.leaf (.allocated s p) (.scalars type length)))

include hm

omit hroute in
/-- A leaf that is stored has at least one number. -/
theorem length_ne_zero : length ≠ 0 := by
  have hs : type.run? length = .ok s := (hn.at hm).self_of s rfl
  rintro rfl
  cases hs

/-- All numbers are answered in order, with their type. -/
theorem getScalars_eq (store : Store) : Visit.getScalars.along steps n store =
    ⟨n, store, .ok (Visit.typed type (Leaf.stored store.heap type p length))⟩ := by
  refine Visit.along_eq_of_unchanged hn hroute hm ?_
  simp only [Visit.getScalars, Visit.read, Leaf.readScalars, if_neg (length_ne_zero hn hm),
    Leaf.storage, Status.placement?, Except.map]
  rfl

/-- A number that is put is written to its cell, and nothing else happens. -/
theorem putScalar_eq {index : Nat} (hindex : index < length) (store : Store) (value : Int) :
    (Visit.putScalar index value).along steps n store =
      ⟨n, ⟨store.heap.write p.region (p.offset + index * type.width) (type.encode value),
        store.shared⟩, .ok ()⟩ := by
  refine Visit.along_write hn hroute hm ?_
  simp only [Leaf.writeScalar, Leaf.slot, Leaf.storage, Status.placement?, if_pos hindex, Except.map,
    Except.mapError]

/-- An index behind the numbers is refused. -/
theorem putScalar_eq_of_le {index : Nat} (hindex : length ≤ index) (store : Store) (value : Int) :
    (Visit.putScalar index value).along steps n store =
      ⟨n, store, .error (.fault (.outOfRange index length))⟩ := by
  refine Visit.along_write_of_error hn hroute hm ?_
  simp only [Leaf.writeScalar, Leaf.slot, Leaf.storage, Status.placement?,
    if_neg (Nat.not_lt.2 hindex), Except.map, Except.mapError]

/-- Numbers that fit are written one behind the other, in one write. -/
theorem putScalars_eq {values : List Int} (hfits : values.length ≤ length) (store : Store) :
    (Visit.putScalars values).along steps n store =
      ⟨n, ⟨store.heap.write p.region p.offset (values.flatMap type.encode), store.shared⟩,
        .ok ()⟩ := by
  refine Visit.along_write hn hroute hm ?_
  by_cases hvalues : values = []
  · subst hvalues
    rw [List.flatMap_nil, Heap.write_nil]
    rfl
  · simp only [Leaf.writeScalars, if_neg (Nat.not_lt.2 hfits), if_neg hvalues, Leaf.storage,
      Status.placement?, Except.map, Except.mapError]

/-- Any numbers at any indices. -/
theorem each_putScalar (puts : List (Nat × Int)) (hhas : store.heap.Has p.region)
    (htyped : ∀ c ∈ puts, type.InRange c.2) : ∃ after,
      Visit.each (puts.map fun c => (Visit.putScalar c.1 c.2).along steps) n store =
        ⟨n, after, .ok (puts.map fun c =>
          if c.1 < length then .ok () else .error (.fault (.outOfRange c.1 length)))⟩ ∧
      Leaf.stored after.heap type p length = (Leaf.stored store.heap type p length).mapIdx
        fun index old => (puts.reverse.lookup index).getD old := by
  -- on the puts, from the first on: each finds what the ones before it left
  induction puts generalizing store with
  | nil =>
    refine ⟨store, rfl, List.ext_getElem? fun i => ?_⟩
    rw [List.getElem?_mapIdx]
    cases (Leaf.stored store.heap type p length)[i]? <;> rfl
  | cons c rest ih =>
    obtain ⟨hfirst, hrest⟩ := List.forall_mem_cons.1 htyped
    obtain ⟨index, value⟩ := c
    by_cases hindex : index < length
    · obtain ⟨after, heach, hstored⟩ := @ih ⟨store.heap.write p.region
        (p.offset + index * type.width) (type.encode value), store.shared⟩
        (Heap.has_modify.2 hhas) hrest
      refine ⟨after, ?_, ?_⟩
      · simp only [List.map_cons, Visit.each, Visit.bind, putScalar_eq hn hroute hm hindex, heach,
          if_pos hindex, Visit.read]
      · rw [hstored, Leaf.stored_write_at hhas hindex hfirst, Leaf.mapIdx_latest_cons]
    · -- this one is refused, and would be behind all numbers
      have hbehind := Nat.le_of_not_lt hindex
      obtain ⟨after, heach, hstored⟩ := ih hhas hrest
      refine ⟨after, ?_, ?_⟩
      · simp only [List.map_cons, Visit.each, Visit.bind, putScalar_eq_of_le hn hroute hm hbehind, heach,
          if_neg hindex, Visit.read]
      · have hset : (Leaf.stored store.heap type p length).set index value =
            Leaf.stored store.heap type p length :=
          List.set_eq_of_length_le (by rwa [Leaf.length_stored])
        rw [hstored, ← Leaf.mapIdx_latest_cons, hset]

/-- Other numbers in front of the ones that are there. -/
theorem numbersPut {values : List Int} (hhas : store.heap.Has p.region)
    (hfits : values.length ≤ length) (htyped : ∀ value ∈ values, type.InRange value) :
    n.NumbersPut steps store type p (Leaf.stored store.heap type p length) values
      ⟨store.heap.write p.region p.offset (values.flatMap type.encode), store.shared⟩ := by
  have hlength := Leaf.length_flatMap_encode type values
  constructor
  case put => exact putScalars_eq hn hroute hm hfits store
  case each =>
    have hall : 0 + values.length ≤ length := by omega
    -- one after the other from the first index on leaves the same bytes
    have hloop : Visit.putFrom 0 values (.leaf (.allocated s p) (.scalars type length)) store = _ :=
      putFrom_eq hall store
    rw [Nat.zero_mul, Nat.add_zero] at hloop
    rw [Visit.along_eq hn hroute hm, hloop, putAt_self hm]
  case get =>
    rw [getScalars_eq hn hroute hm, Leaf.stored_write_front hhas hfits htyped]
  case bytes =>
    have hfirst : (values.flatMap type.encode).length ≤ length * type.width := by
      rw [hlength]
      exact Nat.mul_le_mul_right _ hfits
    rw [Leaf.length_stored, Heap.read_write_front hhas hfirst, hlength]
  case outside =>
    exact Heap.sameOutside_write hhas (Nat.le_refl _) (by rw [hlength])

/-- Numbers that are stored. -/
theorem numbered_of_stored (hhas : store.heap.Has p.region) :
    n.Numbered steps store type length p (Leaf.stored store.heap type p length) := by
  constructor
  case count => exact Leaf.length_stored
  case get => exact getScalars_eq hn hroute hm store
  case put => exact fun values hfits htyped => ⟨_, numbersPut hn hroute hm hhas hfits htyped⟩
  case refused =>
    intro values hlarge
    refine Visit.along_write_of_error hn hroute hm ?_
    simp only [Leaf.writeScalars, if_pos hlarge, Except.mapError]
  case puts =>
    intro puts htyped
    -- each put changes one number, and all of them leave what the last ones put
    obtain ⟨after, heach, hstored⟩ := each_putScalar hn hroute hm puts hhas htyped
    refine ⟨after, heach, ?_⟩
    rw [getScalars_eq hn hroute hm, hstored]

end stored

/-- Numbers without storage refuse to be put, all but a list of none. -/
theorem unstored {status : Status Shape}
    (hm : n.at? route = some (.leaf status (.scalars type length))) (hp : status.placement? = none) :
    n.Unstored steps store status.stage length := by
  constructor
  case put =>
    intro index value
    refine Visit.along_write_of_error hn hroute hm ?_
    simp only [Leaf.writeScalar, Leaf.slot, Leaf.storage, hp, Except.map, Except.mapError]
  case puts =>
    intro values
    by_cases hlarge : length < values.length
    · rw [if_pos hlarge]
      refine Visit.along_write_of_error hn hroute hm ?_
      simp only [Leaf.writeScalars, if_pos hlarge, Except.mapError]
    · rw [if_neg hlarge]
      by_cases hvalues : values = []
      · -- for no number no storage is asked for
        rw [if_pos hvalues]
        refine Visit.along_write hn hroute hm ?_
        simp only [Leaf.writeScalars, if_neg hlarge, if_pos hvalues, Except.mapError]
      · rw [if_neg hvalues]
        refine Visit.along_write_of_error hn hroute hm ?_
        simp only [Leaf.writeScalars, if_neg hlarge, if_neg hvalues, Leaf.storage, hp, Except.map,
          Except.mapError]

end leaf

end Node

namespace World

variable {w : World} {n : Node} {steps : List PathStep} {route : List Nat} {status : Status Shape}
  {type : ScalarType} {length : Nat}

/-- Numbers of any type anywhere in a tree, stored or not, whatever is in memory. -/
theorem Reachable.numbered (h : w.Reachable) (hn : n ∈ w.trees) (hroute : n.route? steps = some route)
    (hm : n.at? route = some (.leaf status (.scalars type length))) (store : Store) :
    (status.placement? = none → n.Unstored steps store status.stage length) ∧
      ∀ s p, status = .allocated s p → store.heap.Has p.region →
        ∃ olds, n.Numbered steps store type length p olds := by
  have hsound := h.sound.trees n hn
  constructor
  · exact fun hp => Node.unstored hsound hroute hm hp
  · rintro s p rfl hhas
    exact ⟨_, Node.numbered_of_stored hsound hroute hm hhas⟩

/-- Three numbers of two bytes in a region of their own. -/
def threeNumbers : Node :=
  .leaf (.allocated ⟨2, false, 0, 6, 0⟩ ⟨⟨1, 64, 6⟩, 0, .root⟩) (.scalars .i16 3)

/-- There is a world with these numbers, and with numbers that are not stored. -/
theorem exists_threeNumbers : ∃ w : World, w.Reachable ∧ threeNumbers ∈ w.trees ∧
    Node.ofLeaf (.scalars .f64 2) ∈ w.trees ∧ w.store.heap.Has ⟨1, 64, 6⟩ := by
  have made := ((Reachable.start 0).leaf (.scalars .i16 3)).leaf (.scalars .f64 2)
  have resolved := made.call 0 [] (c := .resolve) trivial
  exact ⟨_, resolved.call 0 [] (c := .allocate) trivial, List.mem_of_getElem? (i := 0) rfl,
    List.mem_of_getElem? (i := 1) rfl, ⟨_, List.mem_cons_self, rfl⟩⟩

/-- Two numbers in front of the third one, and two more numbers that are not stored. -/
theorem Reachable.numbered_threeNumbers : ∃ (w : World) (olds : List Int) (after : Store),
    w.Reachable ∧ threeNumbers ∈ w.trees ∧
      threeNumbers.Numbered [] w.store .i16 3 ⟨⟨1, 64, 6⟩, 0, .root⟩ olds ∧
      threeNumbers.NumbersPut [] w.store .i16 ⟨⟨1, 64, 6⟩, 0, .root⟩ olds [-32768, 7] after ∧
      (Node.ofLeaf (.scalars .f64 2)).Unstored [] w.store .unallocated 2 := by
  obtain ⟨w, hw, hstored, hother, hhas⟩ := exists_threeNumbers
  obtain ⟨-, hnumbered⟩ := hw.numbered hstored (Node.route?_nil _) rfl w.store
  obtain ⟨hunstored, -⟩ := hw.numbered hother (Node.route?_nil _) rfl w.store
  obtain ⟨olds, hnumbers⟩ := hnumbered _ _ rfl hhas
  obtain ⟨after, hput⟩ := hnumbers.put [-32768, 7] (by decide) (by
    simp only [List.forall_mem_cons, List.not_mem_nil, false_implies, implies_true, and_true]
    exact ⟨⟨by decide, by decide⟩, by decide, by decide⟩)
  exact ⟨w, olds, after, hw, hstored, hnumbers, hput, hunstored rfl⟩

end World

end NativeLayout
