import NativeLayout.Proofs.Stored.Variations

namespace NativeLayout

/-!
# Storing and reading back

What is read from a stored shape, layout, ABI or definition after its document has been through other hands,
which may put the members of an object in another order and others among them.

* `Shape.Fits`, `RecordLayout.Fits`, `MemberType.Fits`, `RecordDef.Fits` — the values whose numbers are words.
* `MemberType.ofDocument?_eq_some_iff` — a type is read as long as no alternative in it has grown.
* `RoundTrips` — values are read from their documents, and what is read can be stored and read again.
* `stored_values_round_trip` — all four kinds of values do.
-/

open Document

variable {grows : List (String × Document) → Prop} {d : Document}

/-! ### Lists -/

/-- A word is read back from its number. -/
theorem word?_ofNat {n : Nat} (h : n < Word.limit) : (Document.ofNat n).word? = some n := if_pos h

/-- Only words are read. -/
theorem lt_of_word? {n : Nat} (h : d.word? = some n) : n < Word.limit := by
  unfold word? at h
  split at h
  next =>
    split at h
    next hlt =>
      cases h
      exact hlt
    next => cases h
  next => cases h

/-- What holds of everything that is read holds of every item of a list. -/
theorem forall_of_listOf? {α : Type} {read : Document → Option α} {p : α → Prop} {xs : List α}
    (h : d.listOf? read = some xs) (hread : ∀ d x, read d = some x → p x) : ∀ x ∈ xs, p x := by
  unfold listOf? at h
  split at h
  next items =>
    rw [mapM_eq_some_iff] at h
    induction h with
    | nil => simp
    | cons hfirst _ ih => exact List.forall_mem_cons.2 ⟨hread _ _ hfirst, ih⟩
  next => cases h

/-- A list of words is read from each of its variations: there is nothing in it that varies. -/
theorem listOf?_word?_of_varies {ns : List Nat} (hns : ∀ n ∈ ns, n < Word.limit)
    (h : (Document.list (ns.map .ofNat)).Varies grows d) : d.listOf? word? = some ns := by
  cases h with
  | list hitems =>
    have hleaf : ∀ d ∈ ns.map Document.ofNat, d.IsLeaf := by
      simp [IsLeaf, Document.ofNat]
    rw [eq_of_forall_isLeaf hitems hleaf]
    show (ns.map Document.ofNat).mapM word? = some ns
    rw [mapM_eq_some_iff, List.forall₂_map_left_iff, List.forall₂_same]
    exact fun n hn => word?_ofNat (hns n hn)

/-- Where items are read exactly if no alternative in them has grown, lists of them are. -/
theorem listOf?_eq_some_iff {α : Type} {write : α → Document} {read : Document → Option α} {xs ys : List α}
    (hitem : ∀ x ∈ xs, ∀ d y, (write x).Varies grows d →
      (read d = some y ↔ y = x ∧ (write x).Varies IsRecord d))
    (h : (Document.list (xs.map write)).Varies grows d) :
    d.listOf? read = some ys ↔ ys = xs ∧ (Document.list (xs.map write)).Varies IsRecord d := by
  cases h with
  | @list _ items hitems =>
    show items.mapM read = some ys ↔ _
    rw [mapM_eq_some_iff, varies_list_iff]
    -- the items are read and vary one by one, in step with the values that were written
    induction xs generalizing items ys with
    | nil =>
      obtain _ | _ := hitems
      simp
    | cons x xs ih =>
      obtain _ | ⟨hfirst, hrest⟩ := hitems
      obtain ⟨hx, hxs⟩ := List.forall_mem_cons.1 hitem
      rw [List.forall₂_cons_left_iff, List.map_cons, List.forall₂_cons]
      -- the item in front decides about itself, the others by the induction
      constructor
      · rintro ⟨y, rest, hy, hys, rfl⟩
        obtain ⟨rfl, hkept⟩ := (hx _ _ hfirst).1 hy
        obtain ⟨rfl, hkepts⟩ := (ih hxs hrest).1 hys
        exact ⟨rfl, hkept, hkepts⟩
      · rintro ⟨rfl, hkept, hkepts⟩
        exact ⟨x, xs, (hx _ _ hfirst).2 ⟨rfl, hkept⟩, (ih hxs hrest).2 ⟨rfl, hkepts⟩, rfl⟩

/-! ### Shapes and layouts -/

/-- The numbers of a shape are words. -/
structure Shape.Fits (s : Shape) : Prop where
  align : s.align < Word.limit
  pre : s.pre < Word.limit
  size : s.size < Word.limit
  post : s.post < Word.limit

/-- A shape is four numbers and a flag, and none of them has an object inside; so only the order and other
members can vary. -/
theorem Shape.ofDocument?_of_varies {s : Shape} (hs : s.Fits) (h : s.toDocument.Varies grows d) :
    ofDocument? d = some s := by
  obtain ⟨values, hrecord, hvalues, -⟩ := h.exists_values storedNames rfl (by decide)
  obtain rfl := eq_of_forall_isLeaf hvalues (by simp [IsLeaf, Document.ofNat])
  simp [ofDocument?, hrecord, word?_ofNat, hs.align, hs.pre, hs.size, hs.post, bool?]

/-- What is read as a shape has words as numbers. -/
theorem Shape.fits_of_ofDocument? {s : Shape} (h : ofDocument? d = some s) : s.Fits := by
  unfold ofDocument? at h
  split at h
  next align packed pre size post _ =>
    simp only [bind, Option.bind_eq_some_iff] at h
    obtain ⟨a, ha, p, hp, r, hr, z, hz, t, ht, h⟩ := h
    cases h
    exact ⟨lt_of_word? ha, lt_of_word? hr, lt_of_word? hz, lt_of_word? ht⟩
  next => cases h

/-- The numbers of a layout are words. -/
structure RecordLayout.Fits (l : RecordLayout) : Prop where
  shape : l.shape.Fits
  offsets : ∀ n ∈ l.offsets, n < Word.limit
  gaps : ∀ n ∈ l.gaps, n < Word.limit

/-- A layout is read through its shape and two lists of words. -/
theorem RecordLayout.ofDocument?_of_varies {l : RecordLayout} (hl : l.Fits)
    (h : l.toDocument.Varies grows d) : ofDocument? d = some l := by
  obtain ⟨values, hrecord, hvalues, -⟩ := h.exists_values storedNames rfl (by decide)
  obtain _ | ⟨hshape, _ | ⟨hoffsets, _ | ⟨hgaps, _ | _⟩⟩⟩ := hvalues
  simp [ofDocument?, hrecord, Shape.ofDocument?_of_varies hl.shape hshape,
    listOf?_word?_of_varies hl.offsets hoffsets, listOf?_word?_of_varies hl.gaps hgaps]

/-- What is read as a layout has words as numbers. -/
theorem RecordLayout.fits_of_ofDocument? {l : RecordLayout} (h : ofDocument? d = some l) : l.Fits := by
  unfold ofDocument? at h
  split at h
  next shape offsets gaps _ =>
    simp only [bind, Option.bind_eq_some_iff] at h
    obtain ⟨s, hs, os, hos, gs, hgs, h⟩ := h
    cases h
    exact ⟨Shape.fits_of_ofDocument? hs, forall_of_listOf? hos fun _ _ => lt_of_word?,
      forall_of_listOf? hgs fun _ _ => lt_of_word?⟩
  next => cases h

/-! ### Member types -/

/-- The lengths of a type are words. -/
def MemberType.Fits : MemberType → Prop
  | .array element length => element.Fits ∧ length < Word.limit
  | _ => True

/-- A type is an object with a single member, its alternative. -/
theorem MemberType.ofDocument?_of_length {members : List (String × Document)} (h : members.length ≠ 1) :
    ofDocument? (.object members) = none := by
  unfold ofDocument?
  split
  case h_6 => rfl
  -- every branch but the last one wants a single member
  all_goals
    rename_i heq
    obtain rfl := object.inj heq
    exact absurd rfl h

/-- The step that all types share: a type in one alternative is read if its value is, and no member stands
beside the alternative. -/
theorem MemberType.ofDocument?_alternative {t u : MemberType} {name : String} {value : Document}
    (hdocument : t.toDocument = .object [(name, value)]) (h : t.toDocument.Varies grows d)
    (hread : ∀ value', value.Varies grows value' →
      (ofDocument? (.object [(name, value')]) = some u ↔ u = t ∧ value.Varies IsRecord value')) :
    ofDocument? d = some u ↔ u = t ∧ t.toDocument.Varies IsRecord d := by
  rw [hdocument] at h ⊢
  obtain ⟨value', rfl, hvalue⟩ | ⟨members, rfl, hlength, -⟩ := h.alternative
  · rw [hread value' hvalue, varies_alternative_iff]
  · rw [ofDocument?_of_length hlength]
    exact iff_of_false (by simp) fun hkept => not_varies_alternative hlength hkept.2

/-- A type is read from the variations of its document in which no alternative has grown, and nothing is
read from the other ones. -/
theorem MemberType.ofDocument?_eq_some_iff {t u : MemberType} (ht : t.Fits)
    (h : t.toDocument.Varies grows d) :
    ofDocument? d = some u ↔ u = t ∧ t.toDocument.Varies IsRecord d := by
  -- every type is written as an object with one member, so that only the member's value is left to read
  induction t generalizing d u with
  | scalar type =>
    refine ofDocument?_alternative rfl h fun value' hvalue => ?_
    obtain rfl := hvalue.eq_of_isLeaf trivial
    simp [ofDocument?, alternative?, ScalarType.ofTag?_tag, Varies.refl, eq_comm]
  | named name =>
    refine ofDocument?_alternative rfl h fun value' hvalue => ?_
    obtain rfl := hvalue.eq_of_isLeaf trivial
    simp [ofDocument?, text?, Varies.refl, eq_comm]
  | pointer pointee =>
    cases pointee with
    | none =>
      refine ofDocument?_alternative rfl h fun value' hvalue => ?_
      obtain rfl := hvalue.eq_of_isLeaf trivial
      simp [ofDocument?, Varies.refl, eq_comm]
    | some pointee =>
      refine ofDocument?_alternative rfl h fun value' hvalue => ?_
      obtain rfl := hvalue.eq_of_isLeaf trivial
      simp [ofDocument?, Varies.refl, eq_comm]
  | array element length ih =>
    refine ofDocument?_alternative rfl h fun value' hvalue => ?_
    cases hvalue with
    | list hitems =>
      obtain _ | ⟨helement, _ | ⟨hlength, _ | _⟩⟩ := hitems
      obtain rfl := hlength.eq_of_isLeaf trivial
      simp only [ofDocument?, word?_ofNat ht.2, bind, Option.bind_eq_some_iff, ih ht.1 helement]
      constructor
      · rintro ⟨_, ⟨rfl, hkept⟩, _, hword, hu⟩
        cases hword
        cases hu
        exact ⟨rfl, .list (.cons hkept (.cons (.refl _) .nil))⟩
      · rintro ⟨rfl, hkept⟩
        obtain ⟨hkept, -⟩ := List.forall₂_cons.1 (varies_list_iff.1 hkept)
        exact ⟨element, ⟨rfl, hkept⟩, length, rfl, rfl⟩

/-- The lengths of a type that is read are words. -/
theorem MemberType.fits_of_ofDocument? {t : MemberType} (h : ofDocument? d = some t) : t.Fits := by
  -- by the branches of the reader, since the document is any
  induction d using ofDocument?.induct generalizing t with
  | case1 type =>
    obtain ⟨scalar, -, rfl⟩ := Option.map_eq_some_iff.1 h
    trivial
  | case2 name =>
    obtain ⟨text, -, rfl⟩ := Option.map_eq_some_iff.1 h
    trivial
  | case3 =>
    cases h
    trivial
  | case4 pointee =>
    cases h
    trivial
  | case5 element length ih =>
    simp only [ofDocument?, bind, Option.bind_eq_some_iff] at h
    obtain ⟨inner, hinner, n, hn, h⟩ := h
    cases h
    exact ⟨ih hinner, lt_of_word? hn⟩
  | case6 d =>
    simp [ofDocument?] at h

/-! ### Definitions -/

/-- A member of a definition is read as far as its type is, since its own object may grow. -/
theorem Member.ofDocument?_eq_some_iff {m n : Member} (hm : m.type.Fits) (h : m.toDocument.Varies grows d) :
    ofDocument? d = some n ↔ n = m ∧ m.toDocument.Varies IsRecord d := by
  obtain ⟨type, hrecord, htype, hkept⟩ := h.exists_labelled (by decide)
  simp only [ofDocument?, storedNames, hrecord, text?, bind, Option.bind_eq_some_iff,
    MemberType.ofDocument?_eq_some_iff hm htype]
  rw [Member.toDocument, hkept]
  constructor
  · rintro ⟨_, hname, _, ⟨rfl, htype⟩, hn⟩
    cases hname
    cases hn
    exact ⟨rfl, htype⟩
  · rintro ⟨rfl, htype⟩
    exact ⟨n.name, rfl, n.type, ⟨rfl, htype⟩, rfl⟩

/-- What is read as a member has words as lengths. -/
theorem Member.fits_of_ofDocument? {m : Member} (h : ofDocument? d = some m) : m.type.Fits := by
  unfold ofDocument? at h
  split at h
  next name type _ =>
    simp only [bind, Option.bind_eq_some_iff] at h
    obtain ⟨n, -, t, ht, h⟩ := h
    cases h
    exact MemberType.fits_of_ofDocument? ht
  next => cases h

/-- The numbers of a definition are words. -/
def RecordDef.Fits (r : RecordDef) : Prop := ∀ m ∈ r.members, m.type.Fits

/-- **Definitions.** A definition is read if no alternative in the types of its members has grown. -/
theorem RecordDef.ofDocument?_eq_some_iff {r s : RecordDef} (hr : r.Fits)
    (h : r.toDocument.Varies grows d) :
    ofDocument? d = some s ↔ s = r ∧ r.toDocument.Varies IsRecord d := by
  obtain ⟨members, hrecord, hmembers, hkept⟩ := h.exists_labelled (by decide)
  have hlist : ∀ ms, members.listOf? Member.ofDocument? = some ms ↔
      ms = r.members ∧ (Document.list (r.members.map Member.toDocument)).Varies IsRecord members := fun _ =>
    listOf?_eq_some_iff (fun m hm _ _ => Member.ofDocument?_eq_some_iff (hr m hm)) hmembers
  simp only [ofDocument?, storedNames, hrecord, text?, bind, Option.bind_eq_some_iff, hlist]
  rw [RecordDef.toDocument, hkept]
  constructor
  · rintro ⟨_, hname, _, ⟨rfl, hmembers⟩, hs⟩
    cases hname
    cases hs
    exact ⟨rfl, hmembers⟩
  · rintro ⟨rfl, hmembers⟩
    exact ⟨s.name, rfl, s.members, ⟨rfl, hmembers⟩, rfl⟩

/-- What is read as a definition has words as lengths. -/
theorem RecordDef.fits_of_ofDocument? {r : RecordDef} (h : ofDocument? d = some r) : r.Fits := by
  unfold ofDocument? at h
  split at h
  next name members _ =>
    simp only [bind, Option.bind_eq_some_iff] at h
    obtain ⟨n, -, ms, hms, h⟩ := h
    cases h
    exact forall_of_listOf? hms fun _ _ => Member.fits_of_ofDocument?
  next => cases h

/-! ### Round trips -/

/-- The document of an ABI is a text, in which nothing varies. -/
theorem Abi.ofDocument?_of_varies {abi : Abi} (h : abi.toDocument.Varies grows d) : ofDocument? d = some abi := by
  obtain rfl := h.eq_of_isLeaf trivial
  exact ofTag?_tag abi

/-- Values that are read from every variation of their documents; and whatever document a value is read from,
it is read again from its own. -/
structure RoundTrips {α : Type} (fits : α → Prop) (write : α → Document) (read : Document → Option α)
    (grows : List (String × Document) → Prop) : Prop where
  back : ∀ x d, fits x → (write x).Varies grows d → read d = some x
  again : ∀ d x, read d = some x → fits x ∧ read (write x) = some x

/-- It is enough that values are read from their variations and that what is read fits, for a document
varies into itself. -/
theorem RoundTrips.of_fits {α : Type} {fits : α → Prop} {write : α → Document} {read : Document → Option α}
    (hback : ∀ {x d}, fits x → (write x).Varies grows d → read d = some x)
    (hfits : ∀ {d x}, read d = some x → fits x) : RoundTrips fits write read grows where
  back _ _ hx h := hback hx h
  again _ _ hread := ⟨hfits hread, hback (hfits hread) (.refl _)⟩

/-- Every object of a stored shape, layout or ABI may grow. In a definition those that hold a record may, and
nothing is read from a definition in which an alternative has grown. -/
theorem stored_values_round_trip :
    RoundTrips Shape.Fits Shape.toDocument Shape.ofDocument? Anywhere ∧
      RoundTrips RecordLayout.Fits RecordLayout.toDocument RecordLayout.ofDocument? Anywhere ∧
      RoundTrips (fun _ => True) Abi.toDocument Abi.ofDocument? Anywhere ∧
      RoundTrips RecordDef.Fits RecordDef.toDocument RecordDef.ofDocument? IsRecord ∧
      ∀ r d, r.Fits → r.toDocument.Varies Anywhere d →
        ∀ s, RecordDef.ofDocument? d = some s ↔ s = r ∧ r.toDocument.Varies IsRecord d := by
  refine ⟨.of_fits Shape.ofDocument?_of_varies Shape.fits_of_ofDocument?,
    .of_fits RecordLayout.ofDocument?_of_varies RecordLayout.fits_of_ofDocument?,
    .of_fits (fun _ => Abi.ofDocument?_of_varies) fun _ => trivial,
    .of_fits (fun hr h => ?_) RecordDef.fits_of_ofDocument?, fun r d hr h s => ?_⟩
  · exact (RecordDef.ofDocument?_eq_some_iff hr h).2 ⟨rfl, h⟩
  · exact RecordDef.ofDocument?_eq_some_iff hr h

/-- The type of an array of the greatest length. -/
def pointerArray : MemberType := .array (.pointer (some "T")) (Word.limit - 1)

def pointerTable : RecordDef := { name := "Größen", members := [⟨"a", pointerArray⟩] }

/-- The document of the type, with other members after its alternative. -/
def storedPointerArray (others : List (String × Document)) : Document :=
  .object (("Array", .list [.object [("Pointer", .text "T")], .ofNat (Word.limit - 1)]) :: others)

/-- The document of the member, turned around with another member in front. -/
def storedPointers (others : List (String × Document)) : Document :=
  .object [("note", .text "first"), ("ty", storedPointerArray others), ("name", .text "a")]

/-- The document of the definition, turned around with other members in front. -/
def storedPointerTable (others : List (String × Document)) : Document :=
  .object
    [("version", .ofNat 2), ("version", .null), ("fields", .list [storedPointers others]), ("name", .text "Größen")]

/-- The greatest length is a word. -/
theorem pointerTable_fits : pointerTable.Fits := by
  simp [RecordDef.Fits, pointerTable, pointerArray, MemberType.Fits, Word.limit]

/-- Where the document of the definition has been turned around, it has varied, as long as its alternative
has no company or may have it. -/
theorem storedPointerTable_varies {others : List (String × Document)}
    (hrecord : ∀ members, IsRecord members → grows members) (hnames : ∀ m ∈ others, m.1 ≠ "Array")
    (hgrows : others ≠ [] → ∀ members, grows members) :
    pointerTable.toDocument.Varies grows (storedPointerTable others) := by
  -- from the inside out: the type, the member, the definition
  have htype : pointerArray.toDocument.Varies grows (storedPointerArray others) :=
    .object [("Array", .list [.object [("Pointer", .text "T")], .ofNat (Word.limit - 1)])] others rfl
      (.cons (.refl _) .nil) (by simpa using hnames) (fun hne => hgrows hne _) (.refl _)
  have hmember : (Member.toDocument ⟨"a", pointerArray⟩).Varies grows (storedPointers others) := by
    refine .object [("name", .text "a"), ("ty", storedPointerArray others)] [("note", .text "first")] rfl
      (.cons (.refl _) (.cons htype .nil)) (by simp) (fun _ => hrecord _ (by simp [IsRecord])) ?_
    exact List.reverse_perm ([("name", _), ("ty", _)] ++ [("note", _)])
  have hmembers := Varies.list (.cons hmember .nil)
  refine .object [("name", .text "Größen"), ("fields", .list [storedPointers others])]
    [("version", .null), ("version", .ofNat 2)] rfl (.cons (.refl _) (.cons hmembers .nil)) (by simp)
    (fun _ => hrecord _ (by simp [IsRecord])) ?_
  exact List.reverse_perm ([("name", _), ("fields", _)] ++ [("version", _), ("version", _)])

/-- A definition with a letter of two bytes and an array of the greatest length, and an ABI in its other
spelling. -/
theorem stored_values_round_trip_pointerTable :
    RecordDef.ofDocument? (storedPointerTable []) = some pointerTable ∧
      RecordDef.ofDocument? pointerTable.toDocument = some pointerTable ∧
      Abi.ofDocument? (.object [("SysVI386", .null)]) = some .sysVI386 ∧
      Abi.ofDocument? (Abi.toDocument .sysVI386) = some .sysVI386 := by
  obtain ⟨-, -, habi, hdef, -⟩ := stored_values_round_trip
  have hread : RecordDef.ofDocument? (storedPointerTable []) = some pointerTable :=
    hdef.back _ _ pointerTable_fits (storedPointerTable_varies (fun _ h => h) (by simp) (by simp))
  have hname : Abi.ofDocument? (.object [("SysVI386", .null)]) = some .sysVI386 := rfl
  exact ⟨hread, (hdef.again _ _ hread).2, hname, (habi.again _ _ hname).2⟩

/-- Another member beside an alternative keeps a definition from being read. -/
theorem stored_alternative_alone :
    let stored := storedPointerTable [("x", .ofNat 1)]
    pointerTable.Fits ∧ pointerTable.toDocument.Varies Anywhere stored ∧ RecordDef.ofDocument? stored = none ∧
      ¬ RoundTrips RecordDef.Fits RecordDef.toDocument RecordDef.ofDocument? Anywhere := by
  intro stored
  -- the type is the only object here that grows without being a record
  have hvaries : pointerTable.toDocument.Varies Anywhere stored :=
    storedPointerTable_varies (fun _ _ => trivial) (by simp) fun _ _ => trivial
  have hnone : RecordDef.ofDocument? stored = none := rfl
  refine ⟨pointerTable_fits, hvaries, hnone, fun hround => ?_⟩
  have hread := hround.back _ _ pointerTable_fits hvaries
  rw [hnone] at hread
  cases hread

end NativeLayout
