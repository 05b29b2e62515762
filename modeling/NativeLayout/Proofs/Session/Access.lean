import NativeLayout.Proofs.Session.Arrival
import NativeLayout.Proofs.Tree.Leaves
import NativeLayout.Session.Leaves

namespace NativeLayout

/-!
# Access to one leaf

* `Access` — the checked ways to read a leaf and to write to it.
* `Access.Fits`, `Access.Typed` — whether the leaf is of the right kind, and whether what is written
  is a value of its type.
* `Access.reads`, `Access.written?` — the cells that an access reads, and what it writes to them.
* `Access.fits_of_ok` — an access that succeeds fits the leaf.
* `Access.Performed`, `Access.performed` — a successful access to a stored leaf only touches the
  bytes of the leaf, and changes the cells that it writes to.
-/

/-- An access to a leaf. -/
inductive Access where
  /-- Only looks whether the structure is there. -/
  | look
  | getNumber (index : Nat)
  /-- All numbers. -/
  | getNumbers
  | getText
  | getName
  | getAddress
  | putNumber (index : Nat) (value : Int)
  /-- Other numbers from the first one on. -/
  | putNumbers (values : List Int)
  | putText (text : String)
  | putName (name : String)
  | putAddress (address : Nat)
  deriving DecidableEq, Repr

namespace Access

/-- An operation with its answer as data. -/
def answering {α : Type} (visit : Visit α) (data : α → List Datum) : Visit (List Datum) :=
  visit.bind fun answer => Visit.read fun _ _ => .ok (data answer)

/-- What an access does, and what it finds. -/
def visit : Access → Visit (List Datum)
  | look => answering Visit.node fun _ => []
  | getNumber index => answering (Visit.getScalar index) fun t => [.number t.value]
  | getNumbers => answering Visit.getScalars fun ts => ts.map fun t => .number t.value
  | getText => answering Visit.getText fun text => [.text text]
  | getName => answering Visit.getEnum fun name => [.name name]
  | getAddress => answering Visit.getPointer fun address => [.address address]
  | putNumber index value => answering (Visit.putScalar index value) fun _ => []
  | putNumbers values => answering (Visit.putScalars values) fun _ => []
  | putText text => answering (Visit.putText text) fun _ => []
  | putName name => answering (Visit.putEnum name) fun _ => []
  | putAddress address => answering (Visit.putPointer address) fun _ => []

/-- Whether a structure is of the kind that an access is for, and has the cells. -/
def Fits : Access → Node → Prop
  | look, _ => True
  | getNumber index, .leaf _ (.scalars _ count) => index < count
  | getNumbers, .leaf _ (.scalars _ _) => True
  | getText, .leaf _ (.text _) => True
  | getName, .leaf _ (.enum _) => True
  | getAddress, .leaf _ (.pointer _) => True
  | putNumber index _, .leaf _ (.scalars _ count) => index < count
  | putNumbers values, .leaf _ (.scalars _ count) => values.length ≤ count
  | putText _, .leaf _ (.text _) => True
  | putName name, .leaf _ (.enum type) => (type.numberOf? name).isSome
  | putAddress _, .leaf _ (.pointer _) => True
  | _, _ => False

/-- Whether what an access writes to a structure are values of its type.  The numbers of a type of
names are 32 bits wide, and each name is the name of its number. -/
def Typed : Access → Node → Prop
  | putNumber _ value, .leaf _ (.scalars type _) => type.InRange value
  | putNumbers values, .leaf _ (.scalars type _) => ∀ value ∈ values, type.InRange value
  | putName name, .leaf _ (.enum type) => ∀ number, type.numberOf? name = some number →
      ScalarType.i32.InRange number ∧ type.nameOf? number = some name
  | putAddress address, _ => address < Word.limit
  | _, _ => True

/-- The cells that an access reads, in the order of its answer. -/
def reads : Access → Node → List Nat
  | getNumber index, _ => [index]
  | getNumbers, .leaf _ (.scalars _ count) => List.range count
  | getText, _ | getName, _ | getAddress, _ => [0]
  | _, _ => []

/-- What an access writes to the cell at an index. -/
def written? : Access → Node → Nat → Option Datum
  | putNumber index value, _, i => if i = index then some (.number value) else none
  | putNumbers values, _, i => values[i]?.map .number
  | putText text, .leaf _ (.text capacity), i =>
    if i = 0 then some (.text (Leaf.storedText capacity text)) else none
  | putName name, _, i => if i = 0 then some (.name name) else none
  | putAddress address, _, i => if i = 0 then some (.address address) else none
  | _, _, _ => none

variable {a : Access} {m : Node} {store : Store} {s : Shape} {p : Placement} {data : List Datum}

/-! ### What an access leaves alone -/

/-- An access does not change the structure, and nothing at all if it fails. -/
theorem steady_visit (a : Access) : a.visit.Steady := by
  cases a with
  | look => exact (Visit.steady_read fun node _ => .ok node).answering fun _ => []
  | getNumber => exact (Visit.steady_read _).answering _
  | getNumbers => exact (Visit.steady_read _).answering _
  | getText => exact (Visit.steady_read _).answering _
  | getName => exact (Visit.steady_read _).answering _
  | getAddress => exact (Visit.steady_read _).answering _
  | putNumber => exact (Visit.steady_write _).answering _
  | putNumbers => exact (Visit.steady_write _).answering _
  | putText => exact (Visit.steady_write _).answering _
  | putName => exact (Visit.steady_write _).answering _
  | putAddress => exact (Visit.steady_write _).answering _

/-! ### An access to a stored leaf -/

/-- What an access does to a leaf that it fits. -/
structure Performed (a : Access) (m : Node) (s : Shape) (p : Placement) (store : Store)
    (r : Visited (List Datum)) : Prop where
  answer : ∀ data, r.result = .ok data ↔
    data.map some = (a.reads m).map fun i => m.datum? store.heap [] i
  has : ∀ region, store.heap.Has region → r.store.heap.Has region
  touches : store.heap.SameOutside r.store.heap p.region p.offset (p.offset + s.size)
  after : ∀ i, m.datum? r.store.heap [] i = (a.written? m i).or (m.datum? store.heap [] i)

/-- An access that reads cells of known content. -/
theorem Performed.of_read {r : Visited (List Datum)} (hstore : r.store = store)
    (hwritten : ∀ i, a.written? m i = none)
    (hanswer : ∀ data, r.result = .ok data ↔
      data.map some = (a.reads m).map fun i => m.datum? store.heap [] i) :
    Performed a m s p store r := by
  refine ⟨hanswer, ?_, ?_, ?_⟩
  · intro region h
    rwa [hstore]
  · rw [hstore]
    exact .refl _ _ _ _
  · intro i
    rw [hstore, hwritten, Option.none_or]

/-- An access that writes some bytes of the leaf. -/
theorem Performed.of_write {start : Nat} {bytes : List UInt8} {r : Visited (List Datum)}
    (hhas : store.heap.Has p.region)
    (hr : r = ⟨m, ⟨store.heap.write p.region (p.offset + start) bytes, store.shared⟩, .ok []⟩)
    (hfits : start + bytes.length ≤ s.size) (hreads : a.reads m = [])
    (hafter : ∀ i, m.datum? (store.heap.write p.region (p.offset + start) bytes) [] i =
      (a.written? m i).or (m.datum? store.heap [] i)) : Performed a m s p store r := by
  subst hr
  refine ⟨?_, ?_, ?_, hafter⟩
  · intro data
    rw [hreads, List.map_nil, List.map_eq_nil_iff]
    exact ⟨fun h => (Except.ok.inj h).symm, fun h => by rw [h]⟩
  · exact fun region h => Heap.has_modify.2 h
  · exact Heap.sameOutside_write hhas (Nat.le_add_right _ _) (by omega)

/-- What is left after a write that succeeded, which has nothing to answer. -/
theorem answering_write {f : Node → Heap → Except SessionError Heap} {heap : Heap}
    (h : f m store.heap = .ok heap) :
    answering (Visit.write f) (fun _ => []) m store = ⟨m, ⟨heap, store.shared⟩, .ok []⟩ := by
  simp only [answering, Visit.bind, Visit.write, h, Visit.read]

section leaf

variable {kind : Leaf}

/-- An access that writes one whole cell. -/
theorem Performed.of_write_cell {index start count : Nat} {bytes : List UInt8} {d : Datum}
    {r : Visited (List Datum)} (hkind : kind.shape? = .ok s) (hhas : store.heap.Has p.region)
    (hcell : kind.cell? index = some (start, count)) (hlength : bytes.length = count)
    (hmeaning : kind.meaning? bytes = some d)
    (hr : r = ⟨.leaf (.allocated s p) kind,
      ⟨store.heap.write p.region (p.offset + start) bytes, store.shared⟩, .ok []⟩)
    (hreads : a.reads (.leaf (.allocated s p) kind) = [])
    (hwritten : ∀ i, a.written? (.leaf (.allocated s p) kind) i = if i = index then some d else none) :
    Performed a (.leaf (.allocated s p) kind) s p store r := by
  have hinside := Leaf.cell_inside hkind hcell
  refine .of_write hhas hr (by rwa [hlength]) hreads fun i => ?_
  show kind.datum? _ (.allocated s p) i = _
  rw [Leaf.datum?_write_cell rfl hhas hcell hlength, hmeaning, hwritten]
  -- the cell holds the datum that was written, and the others what they held
  by_cases hi : i = index
  · rw [if_pos hi, if_pos hi]
    rfl
  · rw [if_neg hi, if_neg hi]
    rfl

/-- What is answered when every cell holds a datum. -/
theorem answer_iff {result : Except SessionError (List Datum)} {cells : List (Option Datum)}
    (answer : List Datum) (hresult : result = .ok answer) (hcells : cells = answer.map some)
    (data : List Datum) : result = .ok data ↔ data.map some = cells := by
  have hinj : Function.Injective (some : Datum → Option Datum) := fun _ _ h => Option.some.inj h
  rw [hresult, hcells, Except.ok.injEq, (List.map_injective_iff.2 hinj).eq_iff]
  exact eq_comm

/-- A question leaves the memory alone, whatever is answered. -/
theorem store_answering_read {α : Type} {f : Node → Store → Except SessionError α}
    {data : α → List Datum} : (answering (Visit.read f) data m store).store = store := by
  unfold answering Visit.bind Visit.read
  simp only
  split <;> rfl

variable {type : ScalarType} {count index : Nat}

/-- The cell of a number holds what is loaded from there. -/
theorem datum?_scalars (heap : Heap) (h : index < count) :
    (Leaf.scalars type count).datum? heap (.allocated s p) index =
      some (.number (Leaf.loadScalar heap type p index)) :=
  Leaf.datum?_eq rfl (by rw [Leaf.cell?, if_pos h])

/-- One number is read from its cell. -/
theorem performed_getNumber (h : index < count) :
    Performed (getNumber index) (.leaf (.allocated s p) (.scalars type count)) s p store
      ((getNumber index).visit (.leaf (.allocated s p) (.scalars type count)) store) := by
  refine .of_read store_answering_read (fun _ => rfl)
    (answer_iff [.number (Leaf.loadScalar store.heap type p index)] ?_ ?_)
  · simp only [visit, answering, Visit.bind, Visit.getScalar, Visit.read, Leaf.readScalar, Leaf.slot,
      Leaf.storage, Status.placement?, if_pos h, Except.map]
  · show [(Leaf.scalars type count).datum? store.heap (.allocated s p) index] = _
    rw [datum?_scalars store.heap h]
    rfl

/-- All numbers are read in order; there is at least one. -/
theorem performed_getNumbers (hcount : count ≠ 0) :
    Performed getNumbers (.leaf (.allocated s p) (.scalars type count)) s p store
      (getNumbers.visit (.leaf (.allocated s p) (.scalars type count)) store) := by
  refine .of_read store_answering_read (fun _ => rfl) (answer_iff
    ((List.range count).map fun i => .number (Leaf.loadScalar store.heap type p i)) ?_ ?_)
  · simp only [visit, answering, Visit.bind, Visit.getScalars, Visit.read, Leaf.readScalars,
      Leaf.storage, Status.placement?, if_neg hcount, Except.map, List.map_map]
    rfl
  · rw [List.map_map]
    refine List.map_congr_left fun i hi => ?_
    exact datum?_scalars store.heap (List.mem_range.1 hi)

/-- A text is read from the only cell of its leaf. -/
theorem performed_getText {capacity : Nat} :
    Performed getText (.leaf (.allocated s p) (.text capacity)) s p store
      (getText.visit (.leaf (.allocated s p) (.text capacity)) store) :=
  .of_read store_answering_read (fun _ => rfl) (answer_iff _ rfl rfl)

/-- An address is read from the only cell of its leaf. -/
theorem performed_getAddress {pointee : Option String} :
    Performed getAddress (.leaf (.allocated s p) (.pointer pointee)) s p store
      (getAddress.visit (.leaf (.allocated s p) (.pointer pointee)) store) :=
  .of_read store_answering_read (fun _ => rfl) (answer_iff _ rfl rfl)

/-- A number that stands for no name is not answered. -/
theorem performed_getName {type : EnumType} :
    Performed getName (.leaf (.allocated s p) (.enum type)) s p store
      (getName.visit (.leaf (.allocated s p) (.enum type)) store) := by
  refine .of_read store_answering_read (fun _ => rfl) fun data => ?_
  have hcell : (Leaf.enum type).datum? store.heap (.allocated s p) 0 =
      (type.nameOf? (Leaf.loadEnum store.heap p)).map .name := Leaf.datum?_eq rfl rfl
  show _ ↔ data.map some = [(Leaf.enum type).datum? store.heap (.allocated s p) 0]
  rw [hcell]
  simp only [visit, answering, Visit.bind, Visit.getEnum, Visit.read, Leaf.readEnum, Leaf.storage,
    Status.placement?]
  cases type.nameOf? (Leaf.loadEnum store.heap p) with
  | some name => exact answer_iff _ rfl rfl data
  | none => simp [Except.mapError]

/-- A number is written to its cell, and no other cell is touched. -/
theorem performed_putNumber {value : Int} (hkind : (Leaf.scalars type count).shape? = .ok s)
    (hhas : store.heap.Has p.region) (hindex : index < count) (htyped : type.InRange value) :
    Performed (putNumber index value) (.leaf (.allocated s p) (.scalars type count)) s p store
      ((putNumber index value).visit (.leaf (.allocated s p) (.scalars type count)) store) := by
  have hcell : (Leaf.scalars type count).cell? index = some (index * type.width, type.width) := by
    rw [Leaf.cell?, if_pos hindex]
  refine .of_write_cell hkind hhas hcell (ScalarType.length_encode type value)
    (Leaf.meaning?_encode count htyped) (answering_write ?_) rfl fun _ => rfl
  simp only [Leaf.writeScalar, Leaf.slot, Leaf.storage, Status.placement?, if_pos hindex,
    Except.map, Except.mapError]

/-- Numbers are written to the first cells at once. -/
theorem performed_putNumbers {values : List Int} (hkind : (Leaf.scalars type count).shape? = .ok s)
    (hhas : store.heap.Has p.region) (hfits : values.length ≤ count)
    (htyped : ∀ value ∈ values, type.InRange value) :
    Performed (putNumbers values) (.leaf (.allocated s p) (.scalars type count)) s p store
      ((putNumbers values).visit (.leaf (.allocated s p) (.scalars type count)) store) := by
  by_cases hvalues : values = []
  · -- without numbers nothing is written
    subst hvalues
    exact .of_read rfl (fun _ => rfl) (answer_iff _ rfl rfl)
  · have hsize : s.size = type.width * count := Leaf.size_of_run? hkind
    have hlength := Leaf.length_flatMap_encode type values
    have hinside : values.length * type.width ≤ type.width * count := by
      rw [Nat.mul_comm]
      exact Nat.mul_le_mul_left _ hfits
    have hvisit : (putNumbers values).visit (.leaf (.allocated s p) (.scalars type count)) store =
        ⟨.leaf (.allocated s p) (.scalars type count), ⟨store.heap.write p.region (p.offset + 0)
          (values.flatMap type.encode), store.shared⟩, .ok []⟩ := by
      refine answering_write ?_
      simp only [Leaf.writeScalars, if_neg (Nat.not_lt.2 hfits), if_neg hvalues, Leaf.storage,
        Status.placement?, Except.map, Except.mapError, Nat.add_zero]
    -- what was written means the numbers, and every cell behind it what it meant
    refine .of_write hhas hvisit (by omega) rfl fun i => ?_
    show (Leaf.scalars type count).datum? _ (.allocated s p) i =
      (values[i]?.map .number).or ((Leaf.scalars type count).datum? store.heap (.allocated s p) i)
    rw [Nat.add_zero, Leaf.datum?_write_numbers rfl hhas hfits]
    cases hvalue : values[i]? with
    | some value =>
      have hrange := htyped value (List.mem_of_getElem? hvalue)
      exact Leaf.meaning?_encode count hrange
    | none => rfl

/-- A name is written as its number, which has to stand for that name to be read back. -/
theorem performed_putName {type : EnumType} {name : String}
    (hkind : (Leaf.enum type).shape? = .ok s) (hhas : store.heap.Has p.region)
    (hfits : (type.numberOf? name).isSome) (htyped : ∀ number, type.numberOf? name = some number →
      ScalarType.i32.InRange number ∧ type.nameOf? number = some name) :
    Performed (putName name) (.leaf (.allocated s p) (.enum type)) s p store
      ((putName name).visit (.leaf (.allocated s p) (.enum type)) store) := by
  obtain ⟨number, hnumber⟩ := Option.isSome_iff_exists.1 hfits
  obtain ⟨hrange, hname⟩ := htyped number hnumber
  refine .of_write_cell hkind hhas rfl (ScalarType.length_encode .i32 number)
    (Leaf.meaning?_name hrange hname) (answering_write ?_) rfl fun _ => rfl
  simp only [hnumber, Leaf.writeEnum, Leaf.storage, Status.placement?, Except.map,
    Except.mapError, Nat.add_zero]

/-- An access to a stored leaf that it fits. -/
theorem performed_of_fits (hkind : kind.shape? = .ok s) (hhas : store.heap.Has p.region)
    (hfits : a.Fits (.leaf (.allocated s p) kind)) (htyped : a.Typed (.leaf (.allocated s p) kind)) :
    Performed a (.leaf (.allocated s p) kind) s p store
      (a.visit (.leaf (.allocated s p) kind) store) := by
  -- for each kind of access, only one kind of leaf fits
  cases a with
  | look => exact .of_read rfl (fun _ => rfl) (answer_iff _ rfl rfl)
  | getNumber index =>
    cases kind with
    | scalars type count => exact performed_getNumber hfits
    | _ => cases hfits
  | getNumbers =>
    cases kind with
    | scalars type count =>
      refine performed_getNumbers ?_
      rintro rfl
      cases hkind
    | _ => cases hfits
  | getText =>
    cases kind with
    | text => exact performed_getText
    | _ => cases hfits
  | getName =>
    cases kind with
    | enum => exact performed_getName
    | _ => cases hfits
  | getAddress =>
    cases kind with
    | pointer => exact performed_getAddress
    | _ => cases hfits
  | putNumber index value =>
    cases kind with
    | scalars type count => exact performed_putNumber hkind hhas hfits htyped
    | _ => cases hfits
  | putNumbers values =>
    cases kind with
    | scalars type count => exact performed_putNumbers hkind hhas hfits htyped
    | _ => cases hfits
  | putText text =>
    cases kind with
    | text capacity =>
      exact .of_write_cell hkind hhas rfl (Leaf.length_textBytes capacity text)
        (Leaf.meaning?_textBytes capacity text) rfl rfl fun _ => rfl
    | _ => cases hfits
  | putName name =>
    cases kind with
    | enum type => exact performed_putName hkind hhas hfits htyped
    | _ => cases hfits
  | putAddress address =>
    cases kind with
    | pointer pointee =>
      exact .of_write_cell hkind hhas rfl (Bytes.length_ofNat _ _)
        (Leaf.meaning?_address htyped pointee) rfl rfl fun _ => rfl
    | _ => cases hfits

end leaf

/-! ### An access that succeeds -/

/-- A successful access to numbers is one for numbers, and within their count. -/
theorem fits_scalars_of_ok {type : ScalarType} {count : Nat}
    (h : (a.visit (.leaf (.allocated s p) (.scalars type count)) store).result = .ok data) :
    a.Fits (.leaf (.allocated s p) (.scalars type count)) := by
  -- an index or a number of values that is too large is refused
  cases a with
  | look => trivial
  | getNumber index =>
    by_contra hfits
    have hindex : ¬ index < count := hfits
    simp only [visit, answering, Visit.bind, Visit.getScalar, Visit.read, Leaf.readScalar,
      Leaf.slot, Leaf.storage, Status.placement?, if_neg hindex, Except.map, reduceCtorEq] at h
  | getNumbers => trivial
  | putNumber index value =>
    by_contra hfits
    have hindex : ¬ index < count := hfits
    simp only [visit, answering, Visit.bind, Visit.putScalar, Visit.write, Leaf.writeScalar,
      Leaf.slot, Leaf.storage, Status.placement?, if_neg hindex, Except.map, Except.mapError,
      reduceCtorEq] at h
  | putNumbers values =>
    by_contra hfits
    have hlong : count < values.length := Nat.lt_of_not_le hfits
    simp only [visit, answering, Visit.bind, Visit.putScalars, Visit.write, Leaf.writeScalars,
      if_pos hlong, Except.mapError, reduceCtorEq] at h
  | _ => cases h

/-- A successful access to a name is one for names, and what it writes is one of the type's. -/
theorem fits_enum_of_ok {type : EnumType}
    (h : (a.visit (.leaf (.allocated s p) (.enum type)) store).result = .ok data) :
    a.Fits (.leaf (.allocated s p) (.enum type)) := by
  cases a with
  | look => trivial
  | getName => trivial
  | putName name =>
    by_contra hname
    have hnone : type.numberOf? name = none := Option.not_isSome_iff_eq_none.1 hname
    simp only [visit, answering, Visit.bind, Visit.putEnum, Visit.write, hnone, reduceCtorEq] at h
  | _ => cases h

/-- A successful access to a structure that is stored fits. -/
theorem fits_of_ok (hs : m.status = .allocated s p) (h : (a.visit m store).result = .ok data) :
    a.Fits m := by
  -- whatever is no leaf refuses every access but a look
  cases m with
  | record =>
    cases a with
    | look => trivial
    | _ => cases h
  | array =>
    cases a with
    | look => trivial
    | _ => cases h
  | leaf status kind =>
    cases hs
    cases kind with
    | scalars => exact fits_scalars_of_ok h
    | enum => exact fits_enum_of_ok h
    | text =>
      cases a with
      | look => trivial
      | getText => trivial
      | putText => trivial
      | _ => cases h
    | pointer =>
      cases a with
      | look => trivial
      | getAddress => trivial
      | putAddress => trivial
      | _ => cases h
    | custom =>
      cases a with
      | look => trivial
      | _ => cases h

/-- Whatever is no leaf is only looked at. -/
theorem look_of_fits (hfits : a.Fits m) (hm : ∀ status kind, m ≠ .leaf status kind) : a = look := by
  cases m with
  | leaf status kind => exact absurd rfl (hm status kind)
  | record =>
    cases a with
    | look => rfl
    | _ => cases hfits
  | array =>
    cases a with
    | look => rfl
    | _ => cases hfits

/-- A typed access to a stored structure that it fits. -/
theorem performed (hm : m.Consistent) (hs : m.status = .allocated s p)
    (hhas : store.heap.Has p.region) (hfits : a.Fits m) (htyped : a.Typed m) :
    Performed a m s p store (a.visit m store) := by
  by_cases hleaf : ∃ status kind, m = .leaf status kind
  · obtain ⟨status, kind, rfl⟩ := hleaf
    cases hs
    exact performed_of_fits (hm s rfl) hhas hfits htyped
  · obtain rfl := look_of_fits hfits fun status kind h => hleaf ⟨status, kind, h⟩
    exact .of_read rfl (fun _ => rfl) (answer_iff _ rfl rfl)

end Access

end NativeLayout
