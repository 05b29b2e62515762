import Mathlib.Data.List.Basic
import NativeLayout.Proofs.Source.InOrder
import NativeLayout.Proofs.Tree.Pieces

namespace NativeLayout

/-!
# Definitions in order

The definitions of a structure are those of the records inside it, each behind the ones it is made of.

* `RecordDef.Names`, `Ordered` — records that only name what is in front of them; leaving out repeated
  names keeps this (`Ordered.distinctNames`).
* `Node.Accounted`, `Node.exists_accounted` — the records of a resolved structure are those inside it, in
  order.
* `Node.contains_iff_mem_records` — so a record is inside a structure exactly if it is among these.
* `Node.WellNamed` — names tell the records inside a structure apart, from each other and from leaves.
* `Node.DefinedInOrder`, `Node.exists_definedInOrder` — then its definitions are all records inside it,
  each name once, and each record behind those inside it.
-/

open Source

/-- A record with a member of the named type, or with an array of it. -/
def RecordDef.Names (d : RecordDef) (name : String) : Prop :=
  ∃ m ∈ d.members, m.type.base = .named name

namespace Node

variable {fine fine' : String → Prop} {rs others : List (RecordDef × RecordLayout)}
  {r own : RecordDef × RecordLayout} {name : String}

/-! ### Records that name what is in front of them -/

/-- Each record only names records in front of it, and names that are fine anyway. -/
def Ordered : (fine : String → Prop) → List (RecordDef × RecordLayout) → Prop
  | _, [] => True
  | fine, r :: rest => (∀ name, r.1.Names name → fine name) ∧
      Ordered (fun name => fine name ∨ r.1.name = name) rest

/-- More names may be fine. -/
theorem Ordered.imp (himp : ∀ name, fine name → fine' name) (h : Ordered fine rs) :
    Ordered fine' rs := by
  induction rs generalizing fine fine' with
  | nil => trivial
  | cons r rest ih =>
    obtain ⟨hself, hrest⟩ := h
    exact ⟨fun name hname => himp name (hself name hname),
      ih (fun name => Or.imp_left (himp name)) hrest⟩

/-- Behind other records, the names of these are fine as well. -/
theorem Ordered.append (h : Ordered fine rs)
    (hothers : Ordered (fun name => fine name ∨ ∃ r ∈ rs, r.1.name = name) others) :
    Ordered fine (rs ++ others) := by
  induction rs generalizing fine with
  | nil =>
    refine hothers.imp fun name hname => ?_
    simpa using hname
  | cons r rest ih =>
    obtain ⟨hself, hrest⟩ := h
    refine ⟨hself, ih hrest (hothers.imp fun name hname => ?_)⟩
    simpa [or_assoc] using hname

/-- Leaving out repeated names leaves out nothing that is named later. -/
theorem Ordered.distinctNames {seen : List String} (h : Ordered fine rs)
    (hseen : ∀ name ∈ seen, fine name) : Ordered fine (distinctNames seen rs) := by
  induction rs generalizing fine seen with
  | nil => trivial
  | cons r rest ih =>
    obtain ⟨hself, hrest⟩ := h
    rw [Node.distinctNames]
    -- a record whose name was seen is left out, and its name stays fine
    split
    next hcontains =>
      have hname : fine r.1.name := hseen _ (List.contains_iff_mem.1 hcontains)
      refine ih (hrest.imp ?_) hseen
      rintro name (hfine | rfl)
      · exact hfine
      · exact hname
    next =>
      refine ⟨hself, ih hrest ?_⟩
      rw [List.forall_mem_cons]
      exact ⟨.inr rfl, fun name hname => .inl (hseen name hname)⟩

/-- What a record names is in front of it. -/
theorem Ordered.exists_before (h : Ordered fine rs) (hr : r ∈ rs) (hname : r.1.Names name) :
    fine name ∨ ∃ r' ∈ rs, r'.1.name = name ∧ rs.idxOf r' < rs.idxOf r := by
  induction rs generalizing fine with
  | nil => cases hr
  | cons first rest ih =>
    obtain ⟨hself, hrest⟩ := h
    -- the record itself, or one of those behind the first
    by_cases heq : first = r
    · subst heq
      exact .inl (hself name hname)
    · have hr : r ∈ rest := (List.mem_cons.1 hr).resolve_left (Ne.symm heq)
      have hposition := List.idxOf_cons_ne rest heq
      rcases ih hrest hr with (hfine | rfl) | ⟨r', hr', hr'name, hbefore⟩
      · exact .inl hfine
      · refine .inr ⟨first, List.mem_cons_self, rfl, ?_⟩
        rw [hposition, List.idxOf_cons_self]
        exact Nat.succ_pos _
      · refine .inr ⟨r', List.mem_cons_of_mem _ hr', hr'name, ?_⟩
        rw [hposition]
        by_cases hfirst : first = r'
        · rw [hfirst, List.idxOf_cons_self]
          exact Nat.succ_pos _
        · rw [List.idxOf_cons_ne rest hfirst]
          exact Nat.succ_lt_succ hbefore

/-! ### Each name once -/

/-- A name that was seen is not kept again. -/
theorem not_mem_of_mem_distinctNames {seen : List String} (h : r ∈ distinctNames seen rs) :
    r.1.name ∉ seen := by
  induction rs generalizing seen with
  | nil => cases h
  | cons first rest ih =>
    rw [distinctNames] at h
    split at h
    next => exact ih h
    next hcontains =>
      rcases List.mem_cons.1 h with rfl | h
      · exact fun hmem => hcontains (List.contains_iff_mem.2 hmem)
      · exact fun hmem => ih h (List.mem_cons_of_mem _ hmem)

/-- Each name is kept once. -/
theorem nodup_distinctNames (seen : List String) (rs : List (RecordDef × RecordLayout)) :
    ((distinctNames seen rs).map fun r => r.1.name).Nodup := by
  induction rs generalizing seen with
  | nil => exact List.nodup_nil
  | cons first rest ih =>
    rw [distinctNames]
    split
    next => exact ih seen
    next =>
      rw [List.map_cons, List.nodup_cons]
      refine ⟨fun hmem => ?_, ih _⟩
      obtain ⟨r, hr, hname⟩ := List.mem_map.1 hmem
      exact not_mem_of_mem_distinctNames hr (hname ▸ List.mem_cons_self)

/-- A record at the end stays there, if no other one has its name. -/
theorem distinctNames_concat {seen : List String} (hseen : own.1.name ∉ seen)
    (hrs : ∀ r ∈ rs, r.1.name ≠ own.1.name) :
    distinctNames seen (rs ++ [own]) = distinctNames seen rs ++ [own] := by
  induction rs generalizing seen with
  | nil =>
    show distinctNames seen [own] = [own]
    rw [distinctNames, if_neg fun h => hseen (List.contains_iff_mem.1 h)]
    rfl
  | cons first rest ih =>
    obtain ⟨hfirst, hrest⟩ := List.forall_mem_cons.1 hrs
    rw [List.cons_append, distinctNames, distinctNames]
    split
    next => exact ih hseen hrest
    next =>
      rw [List.cons_append, ih _ hrest]
      rw [List.mem_cons, not_or]
      exact ⟨Ne.symm hfirst, hseen⟩

/-! ### The records inside a structure -/

variable {n m root : Node} {fields : List (Field Node)}

/-- The records of a structure are all inside it, and in order. -/
structure Accounted (n : Node) (rs : List (RecordDef × RecordLayout)) : Prop where
  records : n.records = .ok rs
  inside : ∀ r ∈ rs, n.Contains ArrayPlan.Repeats r
  /-- The type of the structure is that of a record or of a leaf inside it. -/
  named : ∀ name, n.facade.memberType.base = .named name →
    n.HasCustom ArrayPlan.Repeats name ∨ ∃ r ∈ rs, r.1.name = name
  ordered : Ordered (n.HasCustom ArrayPlan.Repeats) rs

/-- A record names the types of its fields. -/
theorem names_definition_iff {head : RecordHead} : (definition head fields).Names name ↔
    ∃ f ∈ fields, f.child.facade.memberType.base = .named name := by
  unfold RecordDef.Names definition
  simp only [List.mem_map, exists_exists_and_eq_and]

/-- A leaf has no records, and names nothing but a type of its own. -/
theorem accounted_leaf (status : Status Shape) (kind : Leaf) : Accounted (.leaf status kind) [] where
  records := rfl
  inside := by simp
  named := by
    intro name hname
    cases kind with
    | scalars type count =>
      simp only [facade, Leaf.memberType, MemberType.repeated] at hname
      split at hname <;> cases hname
    | text => cases hname
    | enum => cases hname
    | pointer => cases hname
    -- only a leaf of the user may have a type with a name in it
    | custom own wanted type => exact .inl ⟨status, own, wanted, type, .refl, hname⟩
  ordered := trivial

/-- The records of some fields, one field after the other. -/
theorem exists_accountedFields (h : ∀ f ∈ fields, ∃ rs, f.child.Accounted rs) :
    ∃ rs, recordsFields fields = .ok rs ∧
      (∀ r ∈ rs, ∃ f ∈ fields, f.child.Contains ArrayPlan.Repeats r) ∧
      (∀ f ∈ fields, ∀ name, f.child.facade.memberType.base = .named name →
        f.child.HasCustom ArrayPlan.Repeats name ∨ ∃ r ∈ rs, r.1.name = name) ∧
      Ordered (fun name => ∃ f ∈ fields, f.child.HasCustom ArrayPlan.Repeats name) rs := by
  -- on the fields: what is in front of a field may be named in it
  induction fields with
  | nil => exact ⟨[], rfl, by simp, by simp, trivial⟩
  | cons f rest ih =>
    obtain ⟨⟨rs, hrs⟩, hrest⟩ := List.forall_mem_cons.1 h
    obtain ⟨others, hothers, hinside, hnamed, hordered⟩ := ih hrest
    refine ⟨rs ++ others, ?_, ?_, ?_, ?_⟩
    · obtain ⟨index, name, child⟩ := f
      have hchild : child.records = .ok rs := hrs.records
      simp only [recordsFields, hchild, hothers]
    · intro r hr
      rcases List.mem_append.1 hr with hr | hr
      · exact ⟨f, List.mem_cons_self, hrs.inside r hr⟩
      · obtain ⟨g, hg, hcontains⟩ := hinside r hr
        exact ⟨g, List.mem_cons_of_mem _ hg, hcontains⟩
    · rw [List.forall_mem_cons]
      refine ⟨fun name hname => ?_, fun g hg name hname => ?_⟩
      · exact (hrs.named name hname).imp_right fun hknown =>
          hknown.imp fun r hr => ⟨List.mem_append_left _ hr.1, hr.2⟩
      · exact (hnamed g hg name hname).imp_right fun hknown =>
          hknown.imp fun r hr => ⟨List.mem_append_right _ hr.1, hr.2⟩
    · refine Ordered.append (hrs.ordered.imp fun name hname => ⟨f, List.mem_cons_self, hname⟩) ?_
      exact hordered.imp fun name hname =>
        .inl (hname.imp fun g hg => ⟨List.mem_cons_of_mem _ hg.1, hg.2⟩)

/-- The own record comes last, behind those of the fields it names. -/
theorem exists_accounted_record {status : Status RecordLayout} {head : RecordHead} {l : RecordLayout}
    (hplan : status.plan? = some l) (h : ∀ f ∈ fields, ∃ rs, f.child.Accounted rs) :
    ∃ rs, Accounted (.record status head fields) rs := by
  obtain ⟨inner, hinner, hinside, hnamed, hordered⟩ := exists_accountedFields h
  have hcustom : ∀ name, (∃ f ∈ fields, f.child.HasCustom ArrayPlan.Repeats name) →
      (Node.record status head fields).HasCustom ArrayPlan.Repeats name := by
    intro name hname
    obtain ⟨f, hf, hcustom⟩ := hname
    exact hcustom.of_piece (.field hf)
  refine ⟨inner ++ [(definition head fields, l)], ?_⟩
  constructor
  case records => simp only [records, hplan, hinner]
  case inside =>
    intro r hr
    rcases List.mem_append.1 hr with hr | hr
    · obtain ⟨f, hf, hcontains⟩ := hinside r hr
      exact hcontains.of_piece (.field hf)
    · rw [List.mem_singleton.1 hr]
      exact ⟨_, .refl, record?_of_plan hplan⟩
  case named =>
    intro name hname
    cases hname
    exact .inr ⟨_, List.mem_append_right _ (List.mem_singleton_self _), rfl⟩
  case ordered =>
    -- all that the fields name stands in front of the record itself
    refine Ordered.append (hordered.imp hcustom) ⟨fun name hname => ?_, trivial⟩
    obtain ⟨f, hf, hbase⟩ := names_definition_iff.1 hname
    exact (hnamed f hf name hbase).imp_left fun hname => hname.of_piece (.field hf)

/-- An array has the records of the element that it was planned with. -/
theorem accounted_array {status : Status ArrayPlan} {head : ArrayHead} {template : Node}
    {alternatives : List (Nat × Node)} {staged : List Node} {elements : List (Option Node)}
    {plan : ArrayPlan} {call : Nat} {p : Node} (hplan : status.plan? = some plan)
    (hfirst : plan.MadeWith head.length (choose call alternatives template) p)
    (h : p.Accounted rs) :
    Accounted (.array status head template alternatives staged elements) rs := by
  have hpiece : Piece ArrayPlan.Repeats
    (.array status head template alternatives staged elements) p := .first hplan hfirst
  obtain ⟨_, _, _, _, hplanned⟩ := hfirst
  -- the plan has the records and the type of the first element, whatever the others are
  obtain ⟨-, -, hfacade, hrecords⟩ := planArray_eq_ok hplanned
  rw [h.records] at hrecords
  constructor
  case records =>
    simp only [records, hplan]
    exact congrArg Except.ok hrecords
  case inside => exact fun r hr => (h.inside r hr).of_piece hpiece
  case named =>
    intro name hname
    simp only [facade, hplan, MemberType.base, hfacade] at hname
    exact (h.named name hname).imp_left fun hname => hname.of_piece hpiece
  case ordered => exact h.ordered.imp fun name hname => hname.of_piece hpiece

/-- A resolved structure has the records that are inside it, in order. -/
theorem exists_accounted (h : n.Known) : ∃ rs, n.Accounted rs := by
  suffices hdepth : ∀ (d : Nat) (n : Node), n.depth ≤ d → n.Known → ∃ rs, n.Accounted rs from
    hdepth n.depth n (Nat.le_refl _) h
  -- on the depth, as the element that an array was planned with is not part of it
  intro d
  induction d with
  | zero =>
    intro n hn
    have hpos := n.depth_pos
    omega
  | succ d ih =>
    intro n hn h
    cases n with
    | leaf status kind => exact ⟨[], accounted_leaf status kind⟩
    | record status head fields =>
      obtain ⟨l, hl⟩ := h.plan_record
      exact exists_accounted_record hl fun f hf =>
        ih f.child (depth_record_le_iff.1 hn f hf) (h.fields hf)
    | array status head template alternatives staged elements =>
      obtain ⟨s, hs⟩ := Option.isSome_iff_exists.1 h.shape
      obtain ⟨plan, hplan, -⟩ := shape?_array_eq_some_iff.1 hs
      obtain ⟨self, ⟨htemplate, hothers⟩, -, -⟩ := sound_array_iff.1 h.sound
      obtain ⟨⟨hdepth, hdepths⟩, -, -⟩ := depth_array_le_iff.1 hn
      obtain ⟨call, harises⟩ := self.origin plan hplan
      obtain ⟨p, hfirst⟩ := harises.exists_madeWith
      obtain ⟨hsound, hle⟩ : (choose call alternatives template).Sound ∧
          (choose call alternatives template).depth ≤ d :=
        choose_induction (P := fun m : Node => m.Sound ∧ m.depth ≤ d) ⟨htemplate, hdepth⟩
          fun e he => ⟨hothers e he, hdepths e he⟩
      obtain ⟨hknown, hpdepth⟩ := known_of_madeWith hsound hfirst
      obtain ⟨rs, hrs⟩ := ih p (Nat.le_trans hpdepth hle) hknown
      exact ⟨rs, accounted_array hplan hfirst hrs⟩

/-- The records of a record are those of its fields and then its own. -/
theorem records_record_eq_ok {status : Status RecordLayout} {head : RecordHead}
    (h : (Node.record status head fields).records = .ok rs) :
    ∃ l inner, status.plan? = some l ∧ recordsFields fields = .ok inner ∧
      rs = inner ++ [(definition head fields, l)] := by
  rw [records] at h
  split at h
  next => cases h
  next l hl =>
    split at h
    next => cases h
    next inner hinner =>
      cases h
      exact ⟨l, inner, hl, hinner, rfl⟩

/-- The records of a field are among those of all fields. -/
theorem records_of_mem {inner : List (RecordDef × RecordLayout)} {f : Field Node}
    (h : recordsFields fields = .ok inner) (hf : f ∈ fields) :
    ∃ rs, f.child.records = .ok rs ∧ rs ⊆ inner := by
  induction fields generalizing inner with
  | nil => cases hf
  | cons g rest ih =>
    obtain ⟨index, name, child⟩ := g
    rw [recordsFields] at h
    split at h
    next => cases h
    next first hfirst =>
      split at h
      next => cases h
      next others hothers =>
        cases h
        rcases List.mem_cons.1 hf with rfl | hf
        · exact ⟨first, hfirst, List.subset_append_left first others⟩
        · obtain ⟨rs, hrs, hsub⟩ := ih hothers hf
          exact ⟨rs, hrs, List.Subset.trans hsub (List.subset_append_right first others)⟩

/-- The records of a piece are among those of the structure. -/
theorem records_of_piece (h : n.Known) (hrs : n.records = .ok rs)
    (hnm : Piece ArrayPlan.Repeats n m) : ∃ inner, m.records = .ok inner ∧ inner ⊆ rs := by
  have hpiece := h.piece hnm
  cases hnm with
  | field hf =>
    obtain ⟨l, inner, -, hinner, rfl⟩ := records_record_eq_ok hrs
    obtain ⟨rs, hrs, hsub⟩ := records_of_mem hinner hf
    exact ⟨rs, hrs, List.Subset.trans hsub (List.subset_append_left inner _)⟩
  | first hplan hfirst =>
    obtain ⟨inner, hinner⟩ := exists_accounted hpiece
    obtain ⟨_, _, _, _, hplanned⟩ := hfirst
    obtain ⟨-, -, -, hrecords⟩ := planArray_eq_ok hplanned
    simp only [records, hplan, hrecords, hinner.records] at hrs
    cases hrs
    exact ⟨inner, hinner.records, List.Subset.refl inner⟩
  -- an element that repeats the plan has the records that the plan has
  | element hplan _ hrepeats =>
    simp only [records, hplan] at hrs
    cases hrs
    exact ⟨_, hrepeats.2, List.Subset.refl _⟩

/-- The records inside a resolved structure are its records. -/
theorem contains_iff_mem_records (h : n.Known) (hrs : n.records = .ok rs) :
    n.Contains ArrayPlan.Repeats r ↔ r ∈ rs := by
  constructor
  · intro ⟨m, hnm, hm⟩
    -- over the steps inward, so that the records of the outer structure are known first
    induction hnm using Relation.ReflTransGen.head_induction_on generalizing rs with
    | refl =>
      cases m with
      | leaf => cases hm
      | record status head fields =>
        obtain ⟨l, inner, hl, -, rfl⟩ := records_record_eq_ok hrs
        cases (record?_of_plan hl).symm.trans hm
        exact List.mem_append_right inner (List.mem_singleton_self _)
      | array => cases hm
    | head hpiece _ ih =>
      obtain ⟨inner, hinner, hsub⟩ := records_of_piece h hrs hpiece
      exact hsub (ih (h.piece hpiece) hinner)
  · intro hr
    obtain ⟨all, hall⟩ := exists_accounted h
    cases hall.records.symm.trans hrs
    exact hall.inside r hr

/-! ### Definitions -/

/-- Names tell the records inside a structure apart, from each other and from leaves. -/
structure WellNamed (counts : ArrayPlan → Node → Prop) (n : Node) : Prop where
  once : ∀ r r', n.Contains counts r → n.Contains counts r' → r.1.name = r'.1.name → r = r'
  leaves : ∀ r, n.Contains counts r → ¬ n.HasCustom counts r.1.name

/-- All records inside a structure, each name once, each record behind those inside it, and the structure
itself at the end. -/
structure DefinedInOrder (counts : ArrayPlan → Node → Prop) (n : Node)
    (ds : List (RecordDef × RecordLayout)) : Prop where
  exact : ∀ r, r ∈ ds ↔ n.Contains counts r
  once : (ds.map fun r => r.1.name).Nodup
  inner : ∀ c d rc rd, Inside counts n c → c.record? = some rc →
    Relation.TransGen (Piece counts) c d → d.record? = some rd → ds.idxOf rd < ds.idxOf rc
  last : ∀ own, n.record? = some own → ds.getLast? = some own

section order

variable {rc rd : RecordDef × RecordLayout} {c d : Node}

variable (h : root.Known) (hnamed : root.WellNamed ArrayPlan.Repeats) (hrs : root.Accounted rs)

include hnamed hrs

/-- What a record names is in front of it. -/
theorem idxOf_lt_of_names (hrc : rc ∈ distinctNames [] rs)
    (hrd : root.Contains ArrayPlan.Repeats rd) (hnames : rc.1.Names rd.1.name) :
    (distinctNames [] rs).idxOf rd < (distinctNames [] rs).idxOf rc := by
  have hordered : Ordered (root.HasCustom ArrayPlan.Repeats) (distinctNames [] rs) :=
    hrs.ordered.distinctNames fun _ hname => absurd hname List.not_mem_nil
  rcases hordered.exists_before hrc hnames with hcustom | ⟨r, hr, hname, hbefore⟩
  · exact absurd hcustom (hnamed.leaves rd hrd)
  · obtain rfl : r = rd :=
      hnamed.once r rd (hrs.inside r (mem_of_mem_distinctNames hr)) hrd hname
    exact hbefore

include h

/-- A record that is inside the structure keeps its place among the definitions, as no other one has its
name. -/
theorem mem_distinctNames_of_contains (hr : root.Contains ArrayPlan.Repeats r) :
    r ∈ distinctNames [] rs := by
  refine (mem_distinctNames_iff fun r hr r' hr' hname => ?_).2
    ((contains_iff_mem_records h hrs.records).1 hr)
  exact hnamed.once r r' (hrs.inside r hr) (hrs.inside r' hr') hname

/-- Where a record names the type of a structure, what is inside the structure is in front of the
record. -/
theorem idxOf_lt_of_inside (hm : Inside ArrayPlan.Repeats root m)
    (hmd : Inside ArrayPlan.Repeats m d) (hd : d.record? = some rd) (hrc : rc ∈ distinctNames [] rs)
    (hnames : ∀ name, m.facade.memberType.base = .named name → rc.1.Names name) :
    (distinctNames [] rs).idxOf rd < (distinctNames [] rs).idxOf rc := by
  -- on the way down; an array has the type of its elements, a record is named and names the next ones
  induction hmd using Relation.ReflTransGen.head_induction_on generalizing rc with
  | refl =>
    refine idxOf_lt_of_names hnamed hrs hrc ⟨d, hm, hd⟩ (hnames _ ?_)
    rw [facade_of_record? hd]
    rfl
  | @head m m' hpiece _ ih =>
    have hm' : Inside ArrayPlan.Repeats root m' := hm.tail hpiece
    have hknown := h.inside hm
    cases hpiece with
    | @field status head fields f hf =>
      obtain ⟨l, hl⟩ := hknown.plan_record
      have hcontains : root.Contains ArrayPlan.Repeats (definition head fields, l) :=
        ⟨_, hm, record?_of_plan hl⟩
      have hinner := ih hm' (mem_distinctNames_of_contains h hnamed hrs hcontains) fun name hname =>
        names_definition_iff.2 ⟨f, hf, hname⟩
      have houter := idxOf_lt_of_names hnamed hrs hrc hcontains (hnames _ rfl)
      exact Nat.lt_trans hinner houter
    | first hplan hfirst =>
      obtain ⟨_, _, _, _, hplanned⟩ := hfirst
      obtain ⟨-, -, hfacade, -⟩ := planArray_eq_ok hplanned
      refine ih hm' hrc fun name hname => hnames name ?_
      simp only [facade, hplan, MemberType.base, hfacade, hname]
    | element hplan _ hrepeats =>
      refine ih hm' hrc fun name hname => hnames name ?_
      simp only [facade, hplan, MemberType.base, ← hrepeats.1, hname]

/-- A record inside another one is in front of it. -/
theorem idxOf_lt_of_transGen (hc : Inside ArrayPlan.Repeats root c) (hrc : c.record? = some rc)
    (hcd : Relation.TransGen (Piece ArrayPlan.Repeats) c d) (hrd : d.record? = some rd) :
    (distinctNames [] rs).idxOf rd < (distinctNames [] rs).idxOf rc := by
  obtain ⟨m, hpiece, hmd⟩ := Relation.TransGen.head'_iff.1 hcd
  have hmem := mem_distinctNames_of_contains h hnamed hrs ⟨c, hc, hrc⟩
  have hm : Inside ArrayPlan.Repeats root m := hc.tail hpiece
  cases hpiece with
  | @field status head fields f hf =>
    obtain ⟨l, -, rfl⟩ := Option.map_eq_some_iff.1 hrc
    exact idxOf_lt_of_inside h hnamed hrs hm hmd hrd hmem fun name hname =>
      names_definition_iff.2 ⟨f, hf, hname⟩
  | first => cases hrc
  | element => cases hrc

/-- The structure itself is at the end: everything in front of it is inside it, and has another name. -/
theorem getLast?_distinctNames (hown : root.record? = some own) :
    (distinctNames [] rs).getLast? = some own := by
  cases root with
  | leaf => cases hown
  | array => cases hown
  | record status head fields =>
    obtain ⟨l, inner, hl, hinner, rfl⟩ := records_record_eq_ok hrs.records
    cases (record?_of_plan hl).symm.trans hown
    obtain ⟨_, hfields, hinside, -⟩ := exists_accountedFields fun f hf =>
      exists_accounted (h.fields hf)
    cases hfields.symm.trans hinner
    have hothers : ∀ r ∈ inner, r.1.name ≠ (definition head fields, l).1.name := by
      intro r hr hname
      obtain ⟨f, hf, d, hfd, hd⟩ := hinside r hr
      have hbefore := idxOf_lt_of_transGen h hnamed hrs .refl hown (.head' (.field hf) hfd) hd
      -- of its name there is only the structure itself, which is not in front of itself
      have hsame : r = (definition head fields, l) :=
        hnamed.once _ _ (hrs.inside r (List.mem_append_left _ hr)) ⟨_, .refl, hown⟩ hname
      rw [hsame] at hbefore
      exact absurd hbefore (Nat.lt_irrefl _)
    rw [distinctNames_concat List.not_mem_nil hothers, List.getLast?_concat]

end order

/-- A resolved structure whose records are told apart by their names is defined in order. -/
theorem exists_definedInOrder (h : root.Known) (hnamed : root.WellNamed ArrayPlan.Repeats) :
    ∃ ds, root.definitions = .ok ds ∧ root.DefinedInOrder ArrayPlan.Repeats ds := by
  obtain ⟨rs, hrs⟩ := exists_accounted h
  refine ⟨distinctNames [] rs, ?_, ?_⟩
  · rw [definitions, hrs.records]
    rfl
  · -- the records in the order they are found, each name the first time
    constructor
    case exact =>
      intro r
      refine ⟨fun hr => hrs.inside r (mem_of_mem_distinctNames hr), ?_⟩
      exact mem_distinctNames_of_contains h hnamed hrs
    case once => exact nodup_distinctNames [] rs
    case inner =>
      exact fun c d rc rd hc hrc hcd hrd => idxOf_lt_of_transGen h hnamed hrs hc hrc hcd hrd
    case last => exact fun own hown => getLast?_distinctNames h hnamed hrs hown

/-- A record that is not resolved has no definitions. -/
theorem definitions_of_unallocated (head : RecordHead) (fields : List (Field Node)) :
    (Node.record .unallocated head fields).definitions =
      .error (.illegal .collectDefinitions (.atStage .unallocated)) := rfl

end Node

end NativeLayout
