import NativeLayout.Proofs.Relocation.Claim
import NativeLayout.Proofs.Session.Scene

namespace NativeLayout

/-!
# Visiting a structure in another place

* `Relocation.Bytes` — memories that hold the same bytes here and elsewhere; reads and writes keep to
  them.
* `Visit.Carries` — an operation that answers the same here and elsewhere, and leaves behind the same.
* `Visit.Carries.along` — so does the operation at the end of some steps, whatever elements are made on
  the way.
* `Access.carries_visit` — every access to a leaf is such an operation.
* `Scene.answers`, `Relocation.answers_eq` — so every run of requests gets the same answers here and
  elsewhere.
-/

open Node

namespace Relocation

variable {r : Relocation}

/-! ### Bytes -/

/-- Memories that hold the same bytes here and elsewhere. -/
structure Bytes (r : Relocation) (heap heap' : Heap) : Prop where
  left : heap.Has r.source
  right : heap'.Has r.target
  same : ∀ i < r.size, heap'.content r.target (r.landing + i) = heap.content r.source (r.start + i)

section bytes

variable {heap heap' : Heap}

/-- A read in the block sees the same bytes here and elsewhere. -/
theorem Bytes.read_eq (h : r.Bytes heap heap') {x count : Nat} (hfits : x + count ≤ r.size) :
    heap'.read r.target (r.landing + x) count = heap.read r.source (r.start + x) count := by
  refine List.map_congr_left fun i hi => ?_
  have hlt : x + i < r.size :=
    Nat.lt_of_lt_of_le (Nat.add_lt_add_left (List.mem_range.1 hi) x) hfits
  have hsame := h.same (x + i) hlt
  rwa [← Nat.add_assoc, ← Nat.add_assoc] at hsame

/-- The same bytes written at the same offset of the block keep the memories alike. -/
theorem Bytes.write (h : r.Bytes heap heap') (x : Nat) (bytes : List UInt8) :
    r.Bytes (heap.write r.source (r.start + x) bytes) (heap'.write r.target (r.landing + x) bytes) := by
  refine ⟨Heap.has_modify.2 h.left, Heap.has_modify.2 h.right, fun i hi => ?_⟩
  rw [Heap.write, Heap.write, Heap.content_modify_self h.left, Heap.content_modify_self h.right,
    Content.write, Content.write, h.same i hi]
  -- a byte in front of the write is as before, whether one behind it is depends on the length only
  by_cases hx : x ≤ i
  · rw [if_pos (by omega), if_pos (by omega), Nat.add_sub_add_left, Nat.add_sub_add_left]
  · rw [if_neg (by omega), if_neg (by omega)]

/-- The numbers of a leaf. -/
theorem Bytes.loadScalar_eq (h : r.Bytes heap heap') {type : ScalarType} {count index x : Nat}
    {s : Shape} {ownership : Ownership} (hkind : (Leaf.scalars type count).shape? = .ok s)
    (hfits : x + s.size ≤ r.size) (hindex : index < count) :
    Leaf.loadScalar heap' type ⟨r.target, r.landing + x, ownership⟩ index =
      Leaf.loadScalar heap type ⟨r.source, r.start + x, ownership⟩ index := by
  have hcell : (Leaf.scalars type count).cell? index = some (index * type.width, type.width) := by
    rw [Leaf.cell?, if_pos hindex]
  have hinside := Leaf.cell_inside hkind hcell
  rw [Leaf.loadScalar, Leaf.loadScalar, Nat.add_assoc, Nat.add_assoc, h.read_eq (by omega)]

/-- Writes that fail alike, or leave the same bytes here and elsewhere. -/
inductive Writes (r : Relocation) {ε : Type} : Except ε Heap → Except ε Heap → Prop where
  | ok {heap heap' : Heap} (bytes : r.Bytes heap heap') : Writes r (.ok heap) (.ok heap')
  | error (e : ε) : Writes r (.error e) (.error e)

/-- A fault may be told in other words. -/
theorem Writes.mapError {ε δ : Type} {o o' : Except ε Heap} (h : r.Writes o o') (f : ε → δ) :
    r.Writes (o.mapError f) (o'.mapError f) := by
  cases h with
  | ok bytes => exact .ok bytes
  | error e => exact .error (f e)

end bytes

/-- Such memories, and catalogs that only remember what they computed. -/
structure Stores (r : Relocation) (store store' : Store) : Prop where
  left : store.shared.Coherent
  right : store'.shared.Coherent
  bytes : r.Bytes store.heap store'.heap

/-- A structure stays in the bytes. -/
theorem Holds.keep {n m : Node} (h : r.Holds n) (hm : m.Sound) (hkeeps : Keeps n m) : r.Holds m := by
  obtain ⟨-, s, x, ownership, hstatus, hfits⟩ := h
  exact ⟨hm, s, x, ownership, status_eq_of (hkeeps.shape s (shape?_of_status hstatus))
    (hkeeps.placement _ (by rw [placement?, hstatus]; rfl)), hfits⟩

/-- What is inside the structure is stored in the bytes as well. -/
theorem Holds.child {n c : Node} {k : Nat} (h : r.Holds n) (hc : n.child? k = some c) : r.Holds c := by
  obtain ⟨hsound, s, x, ownership, hstatus, hfits⟩ := h
  have hencloses := encloses_of_consistent hsound.self_of hstatus
  obtain ⟨t, offset, -, hstands⟩ := hencloses.stands k c hc
  have hinside : r.start + x + offset + t.extent ≤ r.start + x + s.size :=
    (hencloses.inside k t _ hstands).2
  rw [Shape.extent] at hinside
  refine ⟨hsound.child hc, t, x + offset, .claimed, ?_, by omega⟩
  rw [hstands.status_of hc, Nat.add_assoc]

/-- An element that exists is stored in the bytes as well. -/
theorem Holds.element {n e : Node} {k : Nat} (h : r.Holds n) (he : n.element? k = some e) :
    r.Holds e := by
  cases n with
  | leaf => cases he
  | record => cases he
  | array => exact h.child he

end Relocation

/-! ### Operations -/

variable {α β : Type} {r : Relocation}

/-- What an operation leaves behind here and elsewhere. -/
structure Visited.Carried (r : Relocation) (v v' : Visited α) : Prop where
  node : v'.node = v.node.relocate r.move
  stores : r.Stores v.store v'.store
  result : v'.result = v.result

namespace Visit

/-- An operation that answers the same here and elsewhere, and leaves behind the same. -/
structure Carries (r : Relocation) (v : Visit α) : Prop where
  safe : v.Safe
  carried : ∀ (n : Node) (store store' : Store), r.Holds n → r.Stores store store' →
    (v n store).Carried r (v (n.relocate r.move) store')

variable {v : Visit α} {n : Node} {store store' : Store}

/-- The structure stays in the bytes. -/
theorem Carries.holds (hv : v.Carries r) (hn : r.Holds n) (hstores : r.Stores store store') :
    r.Holds (v n store).node :=
  have hsafe := hv.safe n store hn.sound hstores.left
  hn.keep hsafe.sound hsafe.keeps

/-- One operation after the other: the second finds the structure still in the bytes. -/
theorem Carries.bind {next : α → Visit β} (hv : v.Carries r) (hnext : ∀ a, (next a).Carries r) :
    (v.bind next).Carries r := by
  refine ⟨hv.safe.bind fun a => (hnext a).safe, fun n store store' hn hstores => ?_⟩
  have hfirst := hv.carried n store store' hn hstores
  simp only [Visit.bind, hfirst.result, hfirst.node]
  split
  next a _ => exact (hnext a).carried _ _ _ (hv.holds hn hstores) hfirst.stores
  next => exact ⟨rfl, hfirst.stores, rfl⟩

/-! ### Ways down the tree -/

/-- To go to a field is to go to the one at the same rank elsewhere. -/
theorem Carries.field (hv : v.Carries r) {p : Field Node → Bool}
    (hp : ∀ f c, p (Field.withChild f c) = p f) : (field p v).Carries r := by
  refine ⟨hv.safe.field p, fun n store store' hn hstores => ?_⟩
  cases n with
  | leaf => exact ⟨rfl, hstores, rfl⟩
  | array => exact ⟨rfl, hstores, rfl⟩
  | record status head fields =>
    -- moving a record keeps what fields are found by
    have hfind : (relocateFields r.move fields).findIdx? p = fields.findIdx? p := by
      rw [relocateFields_eq_map, List.findIdx?_map]
      congr 1
      funext f
      exact hp f _
    cases hk : fields.findIdx? p with
    | none =>
      simp only [Visit.field, relocate, hfind, hk]
      exact ⟨rfl, hstores, rfl⟩
    | some k =>
      obtain ⟨hlt, -⟩ := List.findIdx?_eq_some_iff_getElem.1 hk
      have hf : fields[k]? = some fields[k] := List.getElem?_eq_getElem hlt
      have hf' : (relocateFields r.move fields)[k]? =
          some (fields[k].withChild (fields[k].child.relocate r.move)) := by
        rw [relocateFields_eq_map, List.getElem?_map, hf, Option.map_some]
      have hchild : (Node.record status head fields).child? k = some fields[k].child := by
        rw [child?, hf, Option.map_some]
      have hinside := hv.carried _ store store' (hn.child hchild) hstores
      rw [field_eq hk hf, relocate, field_eq (hfind.trans hk) hf']
      refine ⟨?_, hinside.stores, hinside.result⟩
      simp only [setChild_relocate, Field.withChild, hinside.node, relocate]

/-- Making an element only reads the catalogs and the placement; no byte is touched. -/
theorem carries_materialize (index : Nat) : (change (materialize index)).Carries r := by
  refine ⟨safe_materialize index, fun n store store' hn hstores => ?_⟩
  have hsame := hn.materialize index hstores.left hstores.right
  refine ⟨hsame.state, ⟨hsame.left, hsame.right, hstores.bytes⟩, ?_⟩
  simp only [change, hsame.result]

/-- To go to an element, which is made at the corresponding place elsewhere. -/
theorem Carries.element (hv : v.Carries r) (index : Nat) : (element index v).Carries r := by
  refine ⟨hv.safe.element index, fun n store store' hn hstores => ?_⟩
  cases n with
  | leaf => exact ⟨rfl, hstores, rfl⟩
  | record => exact ⟨rfl, hstores, rfl⟩
  | array status head template alternatives staged elements =>
    -- the element is made here and there, and then the operation is for what is there
    have hmade := (carries_materialize index).carried _ store store' hn hstores
    have hheld := (carries_materialize index).holds hn hstores
    rw [relocate] at hmade ⊢
    simp only [Visit.element, onArray, Visit.bind, hmade.result, hmade.node]
    split
    next =>
      rw [element?_relocate]
      cases he : element? index (change (materialize index)
          (.array status head template alternatives staged elements) store).node with
      | none => exact ⟨rfl, hmade.stores, rfl⟩
      | some e =>
        have hinside := hv.carried e _ _ (hheld.element he) hmade.stores
        refine ⟨?_, hinside.stores, hinside.result⟩
        simp only [Option.map_some, setElement_relocate, hinside.node]
    next => exact ⟨rfl, hmade.stores, rfl⟩

/-- The way to the structure is the same here and elsewhere. -/
theorem Carries.along (hv : v.Carries r) (steps : List PathStep) :
    (v.along steps).Carries r := by
  -- on the steps, from the structure down
  induction steps with
  | nil => exact hv
  | cons step steps ih =>
    cases step with
    | index index => exact ih.field fun _ _ => rfl
    | name name => exact ih.field fun _ _ => rfl
    | element index => exact ih.element index

/-! ### Leaves -/

/-- A question to leaves that their bytes answer. -/
theorem carries_read {f : Node → Store → Except SessionError α} (e : SessionError)
    (hleaf : ∀ (kind : Leaf) (s : Shape) (x : Nat) (ownership : Ownership) (store store' : Store),
      kind.shape? = .ok s → x + s.size ≤ r.size → r.Bytes store.heap store'.heap →
        f (.leaf (.allocated s ⟨r.target, r.landing + x, ownership⟩) kind) store' =
          f (.leaf (.allocated s ⟨r.source, r.start + x, ownership⟩) kind) store)
    (hrecord : ∀ status head fields store, f (.record status head fields) store = .error e)
    (harray : ∀ status head template alternatives staged elements store,
      f (.array status head template alternatives staged elements) store = .error e) :
    (read f).Carries r := by
  refine ⟨safe_read f, fun n store store' hn hstores => ?_⟩
  -- only a leaf that is stored looks at the bytes; everything else answers by what it is
  have hsame : f (n.relocate r.move) store' = f n store := by
    cases n with
    | leaf status kind =>
      obtain ⟨hsound, s, x, ownership, rfl, hfits⟩ := hn
      rw [relocate, Status.relocate, r.carries]
      exact hleaf kind s x ownership store store' (hsound.self_of s rfl) hfits hstores.bytes
    | record => rw [relocate, hrecord, hrecord]
    | array => rw [relocate, harray, harray]
  exact ⟨rfl, hstores, hsame⟩

/-- A change of leaves that only writes to their bytes. -/
theorem carries_write {f : Node → Heap → Except SessionError Heap} (e : SessionError)
    (hleaf : ∀ (kind : Leaf) (s : Shape) (x : Nat) (ownership : Ownership) (heap heap' : Heap),
      r.Bytes heap heap' →
        r.Writes (f (.leaf (.allocated s ⟨r.source, r.start + x, ownership⟩) kind) heap)
          (f (.leaf (.allocated s ⟨r.target, r.landing + x, ownership⟩) kind) heap'))
    (hrecord : ∀ status head fields heap, f (.record status head fields) heap = .error e)
    (harray : ∀ status head template alternatives staged elements heap,
      f (.array status head template alternatives staged elements) heap = .error e) :
    (write f).Carries r := by
  refine ⟨(steady_write f).safe, fun n store store' hn hstores => ?_⟩
  -- likewise, only a stored leaf can write
  have hwrites : r.Writes (f n store.heap) (f (n.relocate r.move) store'.heap) := by
    cases n with
    | leaf status kind =>
      obtain ⟨-, s, x, ownership, rfl, -⟩ := hn
      rw [relocate, Status.relocate, r.carries]
      exact hleaf kind s x ownership store.heap store'.heap hstores.bytes
    | record =>
      rw [relocate, hrecord, hrecord]
      exact .error e
    | array =>
      rw [relocate, harray, harray]
      exact .error e
  rw [Visit.write, Visit.write]
  generalize f n store.heap = o at hwrites
  generalize f (n.relocate r.move) store'.heap = o' at hwrites
  cases hwrites with
  | ok hbytes => exact ⟨rfl, ⟨hstores.left, hstores.right, hbytes⟩, rfl⟩
  | error e => exact ⟨rfl, hstores, rfl⟩

end Visit

namespace Access

open Visit

/-- An operation that carries over, with its result written as data. -/
theorem carries_answering {v : Visit α} (h : v.Carries r) (data : α → List Datum) :
    (answering v data).Carries r :=
  h.bind fun _ => ⟨safe_read _, fun _ _ _ _ hstores => ⟨rfl, hstores, rfl⟩⟩

/-- Reading one number, where the index decides whether there is one. -/
theorem carries_getNumber (index : Nat) : (getNumber index).visit.Carries r := by
  refine carries_answering (carries_read (.wrongKind .scalars)
    (fun kind s x ownership store store' hkind hfits hbytes => ?_)
    (fun _ _ _ _ => rfl) fun _ _ _ _ _ _ _ => rfl) _
  cases kind with
  | scalars type count =>
    simp only [Leaf.readScalar, Leaf.slot, Leaf.storage, Status.placement?]
    by_cases hindex : index < count
    · simp only [if_pos hindex, Except.map, hbytes.loadScalar_eq hkind hfits hindex]
    · simp only [if_neg hindex, Except.map]
  | _ => rfl

/-- Reading all numbers of a leaf. -/
theorem carries_getNumbers : getNumbers.visit.Carries r := by
  refine carries_answering (carries_read (.wrongKind .scalars)
    (fun kind s x ownership store store' hkind hfits hbytes => ?_)
    (fun _ _ _ _ => rfl) fun _ _ _ _ _ _ _ => rfl) _
  cases kind with
  | scalars type count =>
    have hall : (List.range count).map
        (Leaf.loadScalar store'.heap type ⟨r.target, r.landing + x, ownership⟩) =
        (List.range count).map
          (Leaf.loadScalar store.heap type ⟨r.source, r.start + x, ownership⟩) :=
      List.map_congr_left fun i hi => hbytes.loadScalar_eq hkind hfits (List.mem_range.1 hi)
    simp only [Leaf.readScalars, Leaf.storage, Status.placement?, Except.map, hall]
  | _ => rfl

/-- Reading a text: all its bytes up to the capacity are in the block. -/
theorem carries_getText : getText.visit.Carries r := by
  refine carries_answering (carries_read (.wrongKind .text)
    (fun kind s x ownership store store' hkind hfits hbytes => ?_)
    (fun _ _ _ _ => rfl) fun _ _ _ _ _ _ _ => rfl) _
  cases kind with
  | text capacity =>
    obtain ⟨hsize, -⟩ := Leaf.size_of_text hkind
    simp only [Leaf.readText, Leaf.storage, Status.placement?, Except.map,
      hbytes.read_eq (show x + capacity ≤ r.size by omega)]
  | _ => rfl

/-- Reading a name through the number that is stored for it. -/
theorem carries_getName : getName.visit.Carries r := by
  refine carries_answering (carries_read (.wrongKind .enum)
    (fun kind s x ownership store store' hkind hfits hbytes => ?_)
    (fun _ _ _ _ => rfl) fun _ _ _ _ _ _ _ => rfl) _
  cases kind with
  | enum type =>
    -- a name is stored as one number
    have hnumber : (Leaf.scalars .i32 1).shape? = .ok s := hkind
    have hload : Leaf.loadEnum store'.heap ⟨r.target, r.landing + x, ownership⟩ =
        Leaf.loadEnum store.heap ⟨r.source, r.start + x, ownership⟩ :=
      hbytes.loadScalar_eq hnumber hfits Nat.one_pos
    simp only [Leaf.readEnum, Leaf.storage, Status.placement?, hload]
  | _ => rfl

/-- Reading an address as bytes; it is not followed. -/
theorem carries_getAddress : getAddress.visit.Carries r := by
  refine carries_answering (carries_read (.wrongKind .pointer)
    (fun kind s x ownership store store' hkind hfits hbytes => ?_)
    (fun _ _ _ _ => rfl) fun _ _ _ _ _ _ _ => rfl) _
  cases kind with
  | pointer pointee =>
    have hcell : (Leaf.pointer pointee).cell? 0 = some (0, ScalarType.address.width) := rfl
    have hinside := Leaf.cell_inside hkind hcell
    simp only [Leaf.readPointer, Leaf.storage, Status.placement?, Except.map,
      hbytes.read_eq (show x + ScalarType.address.width ≤ r.size by omega)]
  | _ => rfl

/-- Writing one number. -/
theorem carries_putNumber (index : Nat) (value : Int) : (putNumber index value).visit.Carries r := by
  refine carries_answering (carries_write (.wrongKind .scalars)
    (fun kind s x ownership heap heap' hbytes => ?_)
    (fun _ _ _ _ => rfl) fun _ _ _ _ _ _ _ => rfl) _
  cases kind with
  | scalars type count =>
    refine Relocation.Writes.mapError ?_ _
    simp only [Leaf.writeScalar, Leaf.slot, Leaf.storage, Status.placement?]
    by_cases hindex : index < count
    · simp only [if_pos hindex, Except.map, Nat.add_assoc]
      exact .ok (hbytes.write _ _)
    · simp only [if_neg hindex, Except.map]
      exact .error _
  | _ => exact .error _

/-- Writing numbers from the first one on, which is refused if there are too many. -/
theorem carries_putNumbers (values : List Int) : (putNumbers values).visit.Carries r := by
  refine carries_answering (carries_write (.wrongKind .scalars)
    (fun kind s x ownership heap heap' hbytes => ?_)
    (fun _ _ _ _ => rfl) fun _ _ _ _ _ _ _ => rfl) _
  cases kind with
  | scalars type count =>
    refine Relocation.Writes.mapError ?_ _
    unfold Leaf.writeScalars
    split
    · exact .error _
    · split
      · -- no numbers, and nothing is written here or elsewhere
        exact .ok hbytes
      · exact .ok (hbytes.write _ _)
  | _ => exact .error _

/-- Writing a text, cut to the capacity. -/
theorem carries_putText (text : String) : (putText text).visit.Carries r := by
  refine carries_answering (carries_write (.wrongKind .text)
    (fun kind s x ownership heap heap' hbytes => ?_)
    (fun _ _ _ _ => rfl) fun _ _ _ _ _ _ _ => rfl) _
  cases kind with
  | text capacity => exact .ok (hbytes.write _ _)
  | _ => exact .error _

/-- Writing the number of a name, which is refused if there is no such name. -/
theorem carries_putName (name : String) : (putName name).visit.Carries r := by
  refine carries_answering (carries_write (.wrongKind .enum)
    (fun kind s x ownership heap heap' hbytes => ?_)
    (fun _ _ _ _ => rfl) fun _ _ _ _ _ _ _ => rfl) _
  cases kind with
  | enum type =>
    simp only
    split
    · exact .ok (hbytes.write _ _)
    · exact .error _
  | _ => exact .error _

/-- Writing an address. -/
theorem carries_putAddress (address : Nat) : (putAddress address).visit.Carries r := by
  refine carries_answering (carries_write (.wrongKind .pointer)
    (fun kind s x ownership heap heap' hbytes => ?_)
    (fun _ _ _ _ => rfl) fun _ _ _ _ _ _ _ => rfl) _
  cases kind with
  | pointer pointee => exact .ok (hbytes.write _ _)
  | _ => exact .error _

/-- Every access does the same here and elsewhere. -/
theorem carries_visit (a : Access) : a.visit.Carries r := by
  cases a with
  | look => exact ⟨(steady_visit look).safe, fun _ _ _ _ hstores => ⟨rfl, hstores, rfl⟩⟩
  | getNumber index => exact carries_getNumber index
  | getNumbers => exact carries_getNumbers
  | getText => exact carries_getText
  | getName => exact carries_getName
  | getAddress => exact carries_getAddress
  | putNumber index value => exact carries_putNumber index value
  | putNumbers values => exact carries_putNumbers values
  | putText text => exact carries_putText text
  | putName name => exact carries_putName name
  | putAddress address => exact carries_putAddress address

end Access

/-! ### Runs -/

/-- The answers to some requests, one after the other. -/
def Scene.answers : List Request → Scene → List (Except SessionError (List Datum))
  | [], _ => []
  | c :: cs, s => (s.visited c).result :: answers cs (s.after c)

/-- Requests get the same answers here and elsewhere. -/
theorem Relocation.answers_eq {n : Node} {store store' : Store} (hn : r.Holds n)
    (hstores : r.Stores store store') (cs : List Request) :
    Scene.answers cs ⟨n.relocate r.move, store'⟩ = Scene.answers cs ⟨n, store⟩ := by
  -- on the requests; each leaves the structure in the bytes for the next one
  induction cs generalizing n store store' with
  | nil => rfl
  | cons c cs ih =>
    have hcarries : (c.access.visit.along c.steps).Carries r := c.access.carries_visit.along c.steps
    have hstep := hcarries.carried n store store' hn hstores
    have hrest := ih (hcarries.holds hn hstores) hstep.stores
    rw [← hstep.node] at hrest
    exact congrArg₂ List.cons hstep.result hrest

end NativeLayout
