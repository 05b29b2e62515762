import Mathlib.Data.List.Forall2
import NativeLayout.Stored

namespace NativeLayout.Document

/-!
# Variations of a document

The members of an object have no order, and a reader that looks its own members up passes over all others.

* `Varies` — the documents that a document turns into when the members of its objects are put in another
  order, and others are put among them.
* `Varies.exists_values` — a record of values is read from each of these.
* `Varies.alternative` — an object with a single member keeps this member, or it has another number of them.
-/

/-- A document with the members of its objects in any order, and with members of other names among them in
those objects that may grow. -/
inductive Varies (grows : List (String × Document) → Prop) : Document → Document → Prop
  | null : Varies grows .null .null
  | bool (value : Bool) : Varies grows (.bool value) (.bool value)
  | integer (value : Int) : Varies grows (.integer value) (.integer value)
  | fraction (text : String) : Varies grows (.fraction text) (.fraction text)
  | text (value : String) : Varies grows (.text value) (.text value)
  | list {items items' : List Document} (hitems : List.Forall₂ (Varies grows) items items') :
      Varies grows (.list items) (.list items')
  | object {members members' : List (String × Document)} (same others : List (String × Document))
      (hnames : same.map Prod.fst = members.map Prod.fst)
      (hvalues : List.Forall₂ (Varies grows) (members.map Prod.snd) (same.map Prod.snd))
      (hothers : ∀ m ∈ others, m.1 ∉ members.map Prod.fst)
      (hgrows : others ≠ [] → grows members)
      (horder : members'.Perm (same ++ others)) :
      Varies grows (.object members) (.object members')

/-- Every object may grow. -/
def Anywhere (_ : List (String × Document)) : Prop := True

/-- An object holds the values of a record: one with a single member is an alternative. -/
def IsRecord (members : List (String × Document)) : Prop := members.length ≠ 1

variable {grows grows' : List (String × Document) → Prop} {members : List (String × Document)}
  {d e : Document} {name : String} {value : Document}

/-- A document varies into itself. -/
theorem Varies.refl : ∀ d : Document, d.Varies grows d
  | .null => .null
  | .bool b => .bool b
  | .integer n => .integer n
  | .fraction digits => .fraction digits
  | .text word => .text word
  | .list items => .list (List.forall₂_same.2 fun d hd => Varies.refl d)
  | .object members =>
    .object members [] rfl (List.forall₂_same.2 fun d hd => Varies.refl d) (by simp) (by simp) (by simp)
termination_by d => sizeOf d
decreasing_by
  · have hlt := List.sizeOf_lt_of_mem hd
    simp only [list.sizeOf_spec]
    omega
  · -- a member's value is part of the member, which is part of the list
    obtain ⟨⟨name, value⟩, hm, rfl⟩ := List.mem_map.1 hd
    have hlt := List.sizeOf_lt_of_mem hm
    simp only [Prod.mk.sizeOf_spec, object.sizeOf_spec] at hlt ⊢
    omega

/-- A list varies item by item, and keeps its length. -/
theorem varies_list_iff {items items' : List Document} :
    (list items).Varies grows (.list items') ↔ List.Forall₂ (Varies grows) items items' := by
  constructor
  · intro h
    cases h with
    | list hitems => exact hitems
  · exact .list

/-! ### Documents without parts -/

/-- A document that is neither a list nor an object. -/
def IsLeaf : Document → Prop
  | .list _ | .object _ => False
  | _ => True

/-- A leaf of a document does not vary. -/
theorem Varies.eq_of_isLeaf (h : d.Varies grows e) (hleaf : d.IsLeaf) : e = d := by
  cases h with
  | list => exact hleaf.elim
  | object => exact hleaf.elim
  | _ => rfl

/-- So a list of leaves does not vary either. -/
theorem eq_of_forall_isLeaf {ds es : List Document} (h : List.Forall₂ (Varies grows) ds es)
    (hleaf : ∀ d ∈ ds, d.IsLeaf) : es = ds := by
  induction h with
  | nil => rfl
  | cons hvaries _ ih =>
    obtain ⟨hfirst, hrest⟩ := List.forall_mem_cons.1 hleaf
    rw [hvaries.eq_of_isLeaf hfirst, ih hrest]

/-! ### Records -/

/-- Where no name is repeated, a member is the only one with its name. -/
theorem filter_name_eq (hnodup : (members.map Prod.fst).Nodup) (hm : (name, value) ∈ members) :
    members.filter (fun m => m.1 = name) = [(name, value)] := by
  induction members with
  | nil => cases hm
  | cons first rest ih =>
    rw [List.map_cons, List.nodup_cons] at hnodup
    obtain rfl | hrest := List.mem_cons.1 hm
    · -- a second member of the name would repeat it
      have hnone : rest.filter (fun m => m.1 = name) = [] := by
        rw [List.filter_eq_nil_iff]
        intro m hmem heq
        exact hnodup.1 (List.mem_map.2 ⟨m, hmem, of_decide_eq_true heq⟩)
      rw [List.filter_cons_of_pos (by simp), hnone]
    · have hne : first.1 ≠ name := fun heq => hnodup.1 (heq ▸ List.mem_map.2 ⟨_, hrest, rfl⟩)
      rw [List.filter_cons_of_neg (by simpa using hne), ih hnodup.2 hrest]

/-- A member is found wherever it stands, and whatever stands around it. -/
theorem member?_of_perm {same others : List (String × Document)} (hnodup : (same.map Prod.fst).Nodup)
    (hothers : ∀ m ∈ others, m.1 ∉ same.map Prod.fst) (horder : members.Perm (same ++ others))
    (hm : (name, value) ∈ same) : member? members name = some value := by
  have hnone : others.filter (fun m => m.1 = name) = [] := by
    rw [List.filter_eq_nil_iff]
    intro m hother heq
    exact hothers m hother (List.mem_map.2 ⟨_, hm, (of_decide_eq_true heq).symm⟩)
  have hfilter := horder.filter (fun m => m.1 = name)
  rw [List.filter_append, filter_name_eq hnodup hm, hnone, List.append_nil, List.perm_singleton] at hfilter
  simp only [member?, hfilter]

/-- Reading a list is reading each of its items. -/
theorem mapM_eq_some_iff {α β : Type} {f : α → Option β} {xs : List α} {ys : List β} :
    xs.mapM f = some ys ↔ List.Forall₂ (fun x y => f x = some y) xs ys := by
  induction xs generalizing ys with
  | nil => simp [eq_comm]
  | cons x xs ih =>
    simp only [List.mapM_cons, Option.bind_eq_bind, Option.bind_eq_some_iff, List.forall₂_cons_left_iff, ← ih]
    constructor
    · rintro ⟨y, hy, rest, hrest, h⟩
      cases h
      exact ⟨y, rest, hy, hrest, rfl⟩
    · rintro ⟨y, rest, hy, hrest, rfl⟩
      exact ⟨y, hy, rest, hrest, rfl⟩

/-- The values of a record are read from every variation of it, and they vary as its members do. -/
theorem Varies.exists_values (h : (Document.object members).Varies grows d) (names : List String)
    (hnames : members.map Prod.fst = names) (hnodup : names.Nodup) :
    ∃ values, d.record? names = some values ∧
      List.Forall₂ (Varies grows) (members.map Prod.snd) values ∧
      ∀ grows', grows' members → List.Forall₂ (Varies grows') (members.map Prod.snd) values →
        (Document.object members).Varies grows' d := by
  subst hnames
  cases h with
  | @object _ members' same others hnames hvalues hothers hgrows horder =>
    refine ⟨same.map Prod.snd, ?_, hvalues, fun grows' hrecord hvalues' =>
      .object _ _ hnames hvalues' hothers (fun _ => hrecord) horder⟩
    -- the names are those of the members that stayed, and the others share none with them
    rw [← hnames] at hnodup hothers ⊢
    show (same.map Prod.fst).mapM (member? members') = some (same.map Prod.snd)
    rw [mapM_eq_some_iff, List.forall₂_map_left_iff, List.forall₂_map_right_iff, List.forall₂_same]
    exact fun m hm => member?_of_perm hnodup hothers horder hm

/-- Whether a record varies in another way is a matter of its values. -/
theorem Varies.record_iff {names : List String} {values : List Document}
    (h : (Document.object members).Varies grows d) (hnames : members.map Prod.fst = names)
    (hnodup : names.Nodup) (hvalues : d.record? names = some values)
    (grows' : List (String × Document) → Prop) (hrecord : grows' members) :
    (Document.object members).Varies grows' d ↔
      List.Forall₂ (Varies grows') (members.map Prod.snd) values := by
  -- the document alone says what its values are, so both variations speak of the same ones
  constructor
  · intro h'
    obtain ⟨values', hvalues', hvaries, -⟩ := h'.exists_values names hnames hnodup
    obtain rfl := Option.some.inj (hvalues.symm.trans hvalues')
    exact hvaries
  · intro hvaries
    obtain ⟨values', hvalues', -, hback⟩ := h.exists_values names hnames hnodup
    obtain rfl := Option.some.inj (hvalues.symm.trans hvalues')
    exact hback grows' hrecord hvaries

/-- A record of a name and a value varies as the value does. -/
theorem Varies.exists_labelled {first second : String}
    (h : (Document.object [(first, .text name), (second, value)]).Varies grows d) (hne : first ≠ second) :
    ∃ value', d.record? [first, second] = some [.text name, value'] ∧ value.Varies grows value' ∧
      ((Document.object [(first, .text name), (second, value)]).Varies IsRecord d ↔
        value.Varies IsRecord value') := by
  have hdistinct : [first, second].Nodup := by simpa using hne
  obtain ⟨values, hrecord, hvalues, -⟩ := h.exists_values [first, second] rfl hdistinct
  have hkept := h.record_iff rfl hdistinct hrecord IsRecord (by simp [IsRecord])
  obtain _ | ⟨hname, _ | ⟨hvalue, _ | _⟩⟩ := hvalues
  obtain rfl := hname.eq_of_isLeaf trivial
  refine ⟨_, hrecord, hvalue, hkept.trans ?_⟩
  simp [Varies.refl]

/-! ### Alternatives -/

/-- A single member either stays alone, or the object grows. -/
theorem Varies.alternative (h : (Document.object [(name, value)]).Varies grows d) :
    (∃ value', d = .object [(name, value')] ∧ value.Varies grows value') ∨
      ∃ members, d = .object members ∧ members.length ≠ 1 ∧ grows [(name, value)] := by
  cases h with
  | @object _ members' same others hnames hvalues hothers hgrows horder =>
    obtain ⟨name', value', rfl, rfl, hvalue⟩ :
        ∃ name' value', same = [(name', value')] ∧ name' = name ∧ value.Varies grows value' := by
      obtain ⟨⟨name', value'⟩, rfl, hname⟩ := List.map_eq_singleton_iff.1 hnames
      obtain _ | ⟨hvalue, -⟩ := hvalues
      exact ⟨name', value', rfl, hname, hvalue⟩
    -- with nothing added there is only one order
    cases others with
    | nil =>
      rw [List.append_nil, List.perm_singleton] at horder
      exact .inl ⟨value', by rw [horder], hvalue⟩
    | cons other others =>
      refine .inr ⟨members', rfl, ?_, hgrows (by simp)⟩
      rw [horder.length_eq]
      simp

/-- An alternative without company varies with its value. -/
theorem varies_alternative_iff {value' : Document} :
    (object [(name, value)]).Varies grows (.object [(name, value')]) ↔ value.Varies grows value' := by
  constructor
  · intro h
    obtain ⟨found, heq, hvalue⟩ | ⟨members, heq, hlength, -⟩ := h.alternative
    · simp only [object.injEq, List.cons.injEq, Prod.mk.injEq, true_and, and_true] at heq
      rwa [heq]
    · obtain rfl := object.inj heq
      exact absurd rfl hlength
  · intro hvalue
    exact .object [(name, value')] [] rfl (.cons hvalue .nil) (by simp) (by simp) (by simp)

/-- An alternative with company is no variation if only records may grow. -/
theorem not_varies_alternative (h : members.length ≠ 1) :
    ¬ (object [(name, value)]).Varies IsRecord (.object members) := by
  intro hvaries
  obtain ⟨value', heq, -⟩ | ⟨-, -, -, hrecord⟩ := hvaries.alternative
  · cases heq
    exact h rfl
  · exact hrecord rfl

end NativeLayout.Document
