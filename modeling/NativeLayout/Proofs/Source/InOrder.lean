import NativeLayout.Proofs.Source.Agreement

namespace NativeLayout.Source

/-!
# Declarations in order

The records of a structure are declared in the order of their list, each name once.

* `InOrder` — each record is made of records in front of it; `inOrder_of_described` says that the
  records of a structure are in order.
* `measure?_of_described` — where a compiler knows those records, it measures the type of the
  structure like the shape.
* `Unambiguous`, `mem_distinctNames_iff` — records of one name are the same record, so that leaving
  out repeated names leaves out no record.
* `InOrder.compileAll?_iff` — such records are compiled to their layouts exactly when this holds of
  each record, where the records in front of it were compiled to theirs.
-/

variable {rs known all : List (RecordDef × RecordLayout)} {r : RecordDef × RecordLayout}

/-! ### Records behind those they are made of -/

/-- A record whose parts are made of known records. -/
def MadeOf (known : List (RecordDef × RecordLayout)) (r : RecordDef × RecordLayout) : Prop :=
  ∃ (head : RecordHead) (parts : List Part), r.1 = head.definition parts ∧
    head.layout (parts.map Part.shape) = .ok r.2 ∧
    ∀ p ∈ parts, Described p.member.type p.shape p.records ∧ p.records ⊆ known

/-- Each record is made of those in front of it and of the known ones. -/
def InOrder : (known : List (RecordDef × RecordLayout)) → List (RecordDef × RecordLayout) → Prop
  | _, [] => True
  | known, r :: rest => MadeOf known r ∧ InOrder (known ++ [r]) rest

/-- Behind other records, these are known as well. -/
theorem InOrder.append {others : List (RecordDef × RecordLayout)} (h : InOrder known rs)
    (hothers : InOrder (known ++ rs) others) : InOrder known (rs ++ others) := by
  induction rs generalizing known with
  | nil => rwa [List.append_nil] at hothers
  | cons r rs ih =>
    refine ⟨h.1, ih h.2 ?_⟩
    rwa [List.append_assoc, List.singleton_append]

/-- The records of some parts, part by part: none depends on those of another part. -/
theorem inOrder_flatMap {parts : List Part} (h : ∀ p ∈ parts, ∀ known, InOrder known p.records) :
    ∀ known, InOrder known (parts.flatMap Part.records) := by
  induction parts with
  | nil => exact fun _ => trivial
  | cons p parts ih =>
    intro known
    rw [List.flatMap_cons]
    exact (h p (by simp) known).append (ih (fun q hq => h q (by simp [hq])) _)

/-- The records of a described type are in order, whatever is known before. -/
theorem inOrder_of_described {t : MemberType} {s : Shape} (h : Described t s rs) :
    ∀ known, InOrder known rs := by
  induction h with
  | leaf => exact fun _ => trivial
  | @record head parts l inner layout ih =>
    intro known
    refine (inOrder_flatMap ih known).append ⟨⟨head, parts, rfl, layout, fun p hp => ?_⟩, trivial⟩
    refine ⟨inner p hp, fun r hr => List.mem_append_right _ ?_⟩
    exact List.mem_flatMap.2 ⟨p, hp, hr⟩
  | array _ _ ih => exact ih

/-! ### What a compiler knows -/

/-- The scope has the records, with the measures of their layouts. -/
def Knows (scope : Scope) (known : List (RecordDef × RecordLayout)) : Prop :=
  ∀ r ∈ known, scope.find? r.1.name = some (compiledOf r.2).measure

/-- A run of scalars is measured by the width of one. -/
theorem measure?_repeated (scope : Scope) (type : ScalarType) (count : Nat) :
    measure? scope ((MemberType.scalar type).repeated count) =
      some ⟨count * type.width, type.width⟩ := by
  unfold MemberType.repeated
  split
  next hcount => rw [hcount, Nat.one_mul, measure?]
  next => rfl

/-- A plain leaf is measured as it was laid out. -/
theorem measure?_of_leaf {kind : Leaf} {s : Shape} (plain : kind.Plain) (h : kind.shape? = .ok s)
    (scope : Scope) : measure? scope kind.memberType = some ⟨s.extent, s.align⟩ := by
  obtain ⟨type, count, hrun, htype⟩ := Leaf.exists_run plain h
  obtain ⟨-, hextent, halign⟩ := ScalarType.whole_of_run? hrun
  rw [hextent, halign]
  rcases htype with htype | htype | ⟨rfl, rfl, pointee, htype⟩
  · rw [htype, measure?_repeated]
  · rw [htype]
    rfl
  · rw [htype]
    rfl

/-- Where the records of a structure are known, a compiler measures its type like its shape. -/
theorem measure?_of_described {t : MemberType} {s : Shape} (h : Described t s rs) {scope : Scope}
    (hscope : Knows scope rs) : measure? scope t = some ⟨s.extent, s.align⟩ := by
  induction h with
  | leaf plain shape => exact measure?_of_leaf plain shape scope
  | record => exact hscope _ (List.mem_append_right _ (List.mem_singleton_self _))
  | array inner shape ih =>
    obtain ⟨-, hextent, halign⟩ := Node.whole_of_arrayShape? inner.whole shape
    rw [measure?, ih hscope, Option.map_some, hextent, halign]

/-! ### Each name once -/

/-- Records of one name are the same record. -/
def Unambiguous (rs : List (RecordDef × RecordLayout)) : Prop :=
  ∀ r ∈ rs, ∀ r' ∈ rs, r.1.name = r'.1.name → r = r'

/-- Keeping each name once adds no record. -/
theorem mem_of_mem_distinctNames {seen : List String} (h : r ∈ Node.distinctNames seen rs) :
    r ∈ rs := by
  induction rs generalizing seen with
  | nil => exact h
  | cons first rs ih =>
    rw [Node.distinctNames] at h
    split at h
    next => exact List.mem_cons_of_mem _ (ih h)
    next =>
      rcases List.mem_cons.1 h with rfl | h
      · exact List.mem_cons_self
      · exact List.mem_cons_of_mem _ (ih h)

/-- A record stays, unless its name was seen or it is left out for another one of its name. -/
theorem exists_mem_distinctNames {seen : List String} (h : r ∈ rs) (hseen : r.1.name ∉ seen) :
    ∃ r' ∈ Node.distinctNames seen rs, r'.1.name = r.1.name := by
  induction rs generalizing seen with
  | nil => cases h
  | cons first rs ih =>
    rw [Node.distinctNames]
    split
    next hfirst =>
      rcases List.mem_cons.1 h with rfl | h
      · exact absurd (List.contains_iff_mem.1 hfirst) hseen
      · exact ih h hseen
    next =>
      -- the first record of the name stays, and this one is left out for it
      by_cases hname : first.1.name = r.1.name
      · exact ⟨first, List.mem_cons_self, hname⟩
      · rcases List.mem_cons.1 h with rfl | h
        · exact absurd rfl hname
        · have hlater : r.1.name ∉ first.1.name :: seen := by
            rw [List.mem_cons, not_or]
            exact ⟨fun heq => hname heq.symm, hseen⟩
          obtain ⟨r', hr', heq⟩ := ih h hlater
          exact ⟨r', List.mem_cons_of_mem _ hr', heq⟩

/-- Leaving out repeated names leaves out no record. -/
theorem mem_distinctNames_iff (hrs : Unambiguous rs) :
    r ∈ Node.distinctNames [] rs ↔ r ∈ rs := by
  refine ⟨mem_of_mem_distinctNames, fun hr => ?_⟩
  obtain ⟨r', hr', hname⟩ := exists_mem_distinctNames hr List.not_mem_nil
  rwa [← hrs r' (mem_of_mem_distinctNames hr') r hr hname]

/-! ### All declarations -/

/-- The items of a record under its layout. -/
def itemsOf (r : RecordDef × RecordLayout) : List Item :=
  arrange 0 r.2.tail r.1.members r.2.gaps

/-- What counts of the declaration of a record, under some limit. -/
def declarationOf (limit : RecordDef × RecordLayout → Option Nat) (r : RecordDef × RecordLayout) :
    Declaration :=
  ⟨r.1.name, limit r, itemsOf r, r.2.size⟩

/-- Declarations are compiled one after the other, each with the names of those before it. -/
theorem compileAll?_cons_eq_some_iff {scope : Scope} {d : Declaration} {ds : List Declaration}
    {c : Compiled} {cs : List Compiled} (hfree : scope.find? d.name = none)
    (hsize : c.measure.size = d.size) :
    compileAll? scope (d :: ds) = some (c :: cs) ↔
      compile? d.limit scope d.items = some c ∧
        compileAll? (scope.insert d.name c.measure) ds = some cs := by
  rw [compileAll?, hfree]
  simp only [Option.isSome_none, Bool.false_eq_true, if_false]
  constructor
  · intro h
    obtain ⟨c', hcompile, hc'⟩ := Option.bind_eq_some_iff.1 h
    split at hc'
    next =>
      obtain ⟨cs', hcs', heq⟩ := Option.map_eq_some_iff.1 hc'
      cases heq
      exact ⟨hcompile, hcs'⟩
    next => cases hc'
  · rintro ⟨hcompile, hcs⟩
    rw [hcompile, Option.bind_some, if_pos hsize, hcs, Option.map_some]

/-- A record that is declared is known from then on. -/
theorem Knows.insert {scope : Scope} (h : Knows scope known) (hall : Unambiguous (known ++ [r])) :
    Knows (scope.insert r.1.name (compiledOf r.2).measure) (known ++ [r]) := by
  intro q hq
  rw [Table.find?_insert]
  split
  next hname => rw [hall r (by simp) q hq hname]
  next hname =>
    rcases List.mem_append.1 hq with hq | hq
    · exact h q hq
    · rw [List.mem_singleton.1 hq] at hname
      exact absurd rfl hname

/-- Records are compiled to their layouts exactly when each of them is, where those in front of it
are known. -/
theorem compileAll?_distinctNames_iff {limit : RecordDef × RecordLayout → Option Nat}
    {good : RecordDef × RecordLayout → Prop} (hall : Unambiguous all)
    (hgood : ∀ r known scope, MadeOf known r → known ⊆ all → Knows scope known →
      (compile? (limit r) scope (itemsOf r) = some (compiledOf r.2) ↔ good r))
    {seen : List String} {scope : Scope} (hrs : InOrder known rs) (hsub : known ++ rs ⊆ all)
    (hscope : Knows scope known) (hseen : ∀ name ∈ seen, ∃ r ∈ known, r.1.name = name)
    (hfree : ∀ name ∉ seen, scope.find? name = none) :
    compileAll? scope ((Node.distinctNames seen rs).map (declarationOf limit)) =
        some ((Node.distinctNames seen rs).map fun r => compiledOf r.2) ↔
      ∀ r ∈ Node.distinctNames seen rs, good r := by
  -- over the records; those in front are known, and a name is seen when one of them has it
  induction rs generalizing known seen scope with
  | nil => simp [Node.distinctNames, compileAll?]
  | cons r rs ih =>
    obtain ⟨hmade, hrest⟩ := hrs
    have hr : r ∈ all := hsub (List.mem_append_right known List.mem_cons_self)
    have hknown : known ⊆ all := fun q hq => hsub (List.mem_append_left _ hq)
    have hsub : known ++ [r] ++ rs ⊆ all := by rwa [List.append_assoc, List.singleton_append]
    have hnow : known ++ [r] ⊆ all := fun q hq => hsub (List.mem_append_left _ hq)
    rw [Node.distinctNames]
    split
    next hcontains =>
      -- a record in front has the name, so it is this record
      obtain ⟨q, hq, hname⟩ := hseen _ (List.contains_iff_mem.1 hcontains)
      obtain rfl : q = r := hall q (hknown hq) r hr hname
      refine ih hrest hsub ?_ ?_ hfree
      · intro p hp
        rcases List.mem_append.1 hp with hp | hp
        · exact hscope p hp
        · rw [List.mem_singleton.1 hp]
          exact hscope q hq
      · exact fun name h => (hseen name h).imp fun p hp => ⟨List.mem_append_left _ hp.1, hp.2⟩
    next hcontains =>
      have hnew : scope.find? r.1.name = none :=
        hfree _ fun hmem => hcontains (List.contains_iff_mem.2 hmem)
      rw [List.map_cons, List.map_cons, compileAll?_cons_eq_some_iff hnew rfl,
        List.forall_mem_cons]
      refine and_congr (hgood r known scope hmade hknown hscope) (ih hrest hsub ?_ ?_ ?_)
      · exact hscope.insert fun p hp q hq => hall p (hnow hp) q (hnow hq)
      · intro name hmem
        rcases List.mem_cons.1 hmem with rfl | hmem
        · exact ⟨r, by simp, rfl⟩
        · exact (hseen name hmem).imp fun p hp => ⟨List.mem_append_left _ hp.1, hp.2⟩
      · intro name hmem
        rw [List.mem_cons, not_or] at hmem
        have hother : r.1.name ≠ name := Ne.symm hmem.1
        show (scope.insert r.1.name (compiledOf r.2).measure).find? name = none
        rw [Table.find?_insert, if_neg hother]
        exact hfree name hmem.2

/-- All records, where none is known before. -/
theorem InOrder.compileAll?_iff (h : InOrder [] rs) (limit : RecordDef × RecordLayout → Option Nat)
    (good : RecordDef × RecordLayout → Prop) (hrs : Unambiguous rs)
    (hgood : ∀ r known scope, MadeOf known r → known ⊆ rs → Knows scope known →
      (compile? (limit r) scope (itemsOf r) = some (compiledOf r.2) ↔ good r)) :
    compileAll? .empty ((Node.distinctNames [] rs).map (declarationOf limit)) =
        some ((Node.distinctNames [] rs).map fun r => compiledOf r.2) ↔
      ∀ r ∈ Node.distinctNames [] rs, good r := by
  refine compileAll?_distinctNames_iff hrs hgood h ?_ ?_ ?_ ?_
  · rw [List.nil_append]
    exact List.Subset.refl rs
  · exact fun r hr => absurd hr List.not_mem_nil
  · exact fun name hname => absurd hname List.not_mem_nil
  · exact fun name _ => Table.find?_empty name

end NativeLayout.Source
