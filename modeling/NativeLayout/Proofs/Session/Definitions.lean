import NativeLayout.Proofs.Session.Scene
import NativeLayout.Proofs.Session.World
import NativeLayout.Proofs.Source.Dependencies

namespace NativeLayout

/-!
# The definitions of records

* `Node.exists_record?_resolve` — a record that is resolved is the last of its own definitions.
* `World.Reachable.defined_in_order` — its definitions are those of all records inside it, in order.
* `World.not_defined_in_order` — the elements of an array only count if they are made of the same records
  as the element that the array was planned with.
-/

open Node

/-- A record stays one when it is resolved, and has a layout then. -/
theorem Node.exists_record?_resolve {status : Status RecordLayout} {head : RecordHead}
    {fields : List (Field Node)} {shared : Shared} {s : Shape} (hshared : shared.Coherent)
    (h : ((Node.record status head fields).resolve shared).result = .ok s) :
    ∃ own, ((Node.record status head fields).resolve shared).state.record? = some own ∧
      own.1.name = head.typeName ∧ own.2.shape = s := by
  cases status with
  | allocatable l =>
    cases h
    exact ⟨(definition head fields, l), rfl, rfl, rfl⟩
  | allocated l p =>
    cases h
    exact ⟨(definition head fields, l), rfl, rfl, rfl⟩
  | unallocated =>
    -- resolving leaves its fields other ones, but its head is what it was
    have hfields := oblivious_traverse (fun f (_ : f ∈ fields) =>
      (oblivious_resolve f.child).mapState f.withChild) shared shared hshared hshared
    obtain ⟨_, l, -, -, rfl, hstate⟩ := resolve_record_eq_ok rfl hfields.left h
    rw [hstate]
    exact ⟨(definition head _, l), rfl, rfl, rfl⟩

namespace World

variable {w : World} {n : Node} {route : List Nat}

/-- A record has no definitions before it is resolved.  Once it is, and the records inside it are told
apart by their names, its definitions are those of all records inside it, its own at the end. -/
theorem Reachable.defined_in_order (h : w.Reachable) {status : Status RecordLayout}
    {head : RecordHead} {fields : List (Field Node)} (hn : n ∈ w.trees)
    (hroute : n.at? route = some (.record status head fields)) :
    let root := Node.record status head fields
    (root.stage = .unallocated →
      root.definitions = .error (.illegal .collectDefinitions (.atStage .unallocated))) ∧
    ∀ s, (Visit.resolve root w.store).result = .ok s →
      let resolved := (Visit.resolve root w.store).node
      resolved.WellNamed ArrayPlan.Repeats → ∃ ds own, resolved.definitions = .ok ds ∧
        resolved.DefinedInOrder ArrayPlan.Repeats ds ∧ resolved.record? = some own ∧
        ds.getLast? = some own ∧ own.1.name = head.typeName ∧ own.2.shape = s := by
  constructor
  · intro hstage
    cases status with
    | unallocated => exact definitions_of_unallocated head fields
    | allocatable => cases hstage
    | allocated => cases hstage
  · intro s hs resolved hnamed
    have hok : ((Node.record status head fields).resolve w.store.shared).result = .ok s :=
      ok_of_mapError hs
    -- what is resolved was built by the same plans all the way down
    have hknown := known_of_resolve ((h.sound.trees n hn).at hroute) h.sound.coherent hok
    obtain ⟨ds, hds, hordered⟩ := exists_definedInOrder hknown hnamed
    obtain ⟨own, hown, hname, hshape⟩ := exists_record?_resolve h.sound.coherent hok
    exact ⟨ds, own, hds, hordered, hown, hordered.last own hown, hname, hshape⟩

/-! ### Points and lines -/

/-- The layout of a record with one field of four bytes. -/
def plainLayout : RecordLayout := ⟨⟨4, false, 0, 4, 0⟩, [0], [0]⟩

/-- A number in a record. -/
def pointNode (status : Status RecordLayout) (number : Status Shape) : Node :=
  .record status ⟨"Point", .msvcX64, false, 0⟩ [⟨0, "x", .leaf number (.scalars .i32 1)⟩]

/-- A point in a record. -/
def lineNode (status : Status RecordLayout) (point : Node) : Node :=
  .record status ⟨"Line", .msvcX64, false, 0⟩ [⟨0, "from", point⟩]

/-- An array, and another record behind it. -/
def drawing : Node :=
  .record .unallocated ⟨"Drawing", .msvcX64, false, 0⟩
    [⟨0, "points", .newArray 2 false none (pointNode .unallocated .unallocated) []⟩,
      ⟨1, "line", lineNode .unallocated (pointNode .unallocated .unallocated)⟩]

/-- The definitions of both, with their layouts. -/
def pointEntry : RecordDef × RecordLayout := (⟨"Point", [⟨"x", .scalar .i32⟩]⟩, plainLayout)

def lineEntry : RecordDef × RecordLayout := (⟨"Line", [⟨"from", .named "Point"⟩]⟩, plainLayout)

def drawingEntry : RecordDef × RecordLayout :=
  (⟨"Drawing", [⟨"points", .array (.named "Point") 2⟩, ⟨"line", .named "Line"⟩]⟩,
    ⟨⟨4, false, 0, 12, 0⟩, [0, 8], [0, 0]⟩)

/-- The drawing has no leaf with a type of its own. -/
theorem plain_drawing : drawing.Forall Plain := by
  have hpoint : (pointNode .unallocated .unallocated).Forall Plain :=
    .record trivial (List.forall_mem_singleton.2 (.leaf trivial))
  have hline : (lineNode .unallocated (pointNode .unallocated .unallocated)).Forall Plain :=
    .record trivial (List.forall_mem_singleton.2 hpoint)
  refine .record trivial (List.forall_mem_cons.2 ⟨?_, List.forall_mem_singleton.2 hline⟩)
  exact .array trivial hpoint (by simp) (by simp) (by simp)

/-- The drawing is made in a world; its records are found with the point twice, once of the array and once in
the line. -/
theorem exists_drawing : ∃ w : World, w.Reachable ∧ drawing ∈ w.trees ∧
    (Visit.resolve drawing w.store).result = .ok ⟨4, false, 0, 12, 0⟩ ∧
    (Visit.resolve drawing w.store).node.records =
      .ok [pointEntry, pointEntry, lineEntry, drawingEntry] := by
  have number := (Reachable.start 0).leaf (.scalars .i32 1)
  have empty := number.record ⟨"Point", .msvcX64, false, 0⟩
  have point := empty.field 1 0 "x" rfl
  have record := point.record ⟨"Line", .msvcX64, false, 0⟩
  have line := record.field 2 1 "from" rfl
  have array := line.uniform 2 false 1 rfl
  have outer := array.record ⟨"Drawing", .msvcX64, false, 0⟩
  have first := outer.field 4 3 "points" rfl
  have both := first.field 4 2 "line" rfl
  exact ⟨_, both, List.mem_of_getElem? (i := 4) rfl, by decide +kernel, by decide +kernel⟩

/-- The points of the array and the point of the line are defined once and first, then the line. -/
theorem Reachable.defined_in_order_drawing : ∃ (w : World) (n : Node)
    (ds : List (RecordDef × RecordLayout)), w.Reachable ∧ drawing ∈ w.trees ∧
      (Visit.resolve drawing w.store).node = n ∧ n.WellNamed ArrayPlan.Repeats ∧
      n.definitions = .ok ds ∧ n.DefinedInOrder ArrayPlan.Repeats ds ∧
      ds = [pointEntry, lineEntry, drawingEntry] := by
  obtain ⟨w, hw, hn, hs, hrecords⟩ := exists_drawing
  have hplain := learns_plain.resolve plain_drawing hw.sound.coherent
  have hknown := known_of_resolve (hw.sound.trees _ hn) hw.sound.coherent (ok_of_mapError hs)
  have hnamed : (Visit.resolve drawing w.store).node.WellNamed ArrayPlan.Repeats := by
    constructor
    case once =>
      intro r r' hr hr'
      -- the two points are of one name and one definition
      have hunique : Source.Unambiguous [pointEntry, pointEntry, lineEntry, drawingEntry] := by
        unfold Source.Unambiguous
        decide
      exact hunique r ((contains_iff_mem_records hknown hrecords).1 hr) r'
        ((contains_iff_mem_records hknown hrecords).1 hr')
    case leaves => exact fun _ _ => not_hasCustom_of_plain hplain
  obtain ⟨ds, -, hds, hordered, -⟩ := (hw.defined_in_order hn (at?_nil _)).2 _ hs hnamed
  have hall : (Visit.resolve drawing w.store).node.definitions =
      .ok [pointEntry, lineEntry, drawingEntry] := by
    rw [definitions, hrecords]
    decide
  exact ⟨w, _, ds, hw, hn, rfl, hnamed, hds, hordered, Except.ok.inj (hds.symm.trans hall)⟩

/-! ### An array of different records -/

/-- A line in the storage of something else. -/
def storedLine : Node :=
  let place : Placement := ⟨⟨1, 64, 4⟩, 0, .claimed⟩
  lineNode (.allocated plainLayout place)
    (pointNode (.allocated plainLayout place) (.allocated ⟨4, false, 0, 4, 0⟩ place))

/-- An array that is planned with a point and builds a line, in a record with storage. -/
def mixedDrawing : Node :=
  .record (.allocated plainLayout ⟨⟨1, 64, 4⟩, 0, .root⟩) ⟨"Drawing", .msvcX64, false, 0⟩
    [⟨0, "items", .array
      (.allocated ⟨⟨4, false, 0, 4, 0⟩, 4, ⟨4, false, 0, 4, 0⟩, ⟨"Point", .named "Point"⟩, [pointEntry]⟩
        ⟨⟨1, 64, 4⟩, 0, .claimed⟩)
      ⟨1, false, 2, none⟩ (pointNode .unallocated .unallocated)
      [(1, lineNode .unallocated (pointNode .unallocated .unallocated))] [] [some storedLine]⟩]

/-- The mixed drawing is made from the same structures. -/
theorem exists_mixedDrawing : ∃ w : World, w.Reachable ∧ mixedDrawing ∈ w.trees := by
  have number := (Reachable.start 0).leaf (.scalars .i32 1)
  have empty := number.record ⟨"Point", .msvcX64, false, 0⟩
  have point := empty.field 1 0 "x" rfl
  have record := point.record ⟨"Line", .msvcX64, false, 0⟩
  have line := record.field 2 1 "from" rfl
  have array := @Reachable.array _ line 1 false none _
    [(1, lineNode .unallocated (pointNode .unallocated .unallocated))]
    (List.mem_of_getElem? (i := 1) rfl)
    (List.forall_mem_singleton.2 (List.mem_of_getElem? (i := 2) rfl))
  have outer := array.record ⟨"Drawing", .msvcX64, false, 0⟩
  have filled := outer.field 4 3 "items" rfl
  have resolved := filled.call 4 [] (c := .resolve) trivial
  have stored := resolved.call 4 [] (c := .allocate) trivial
  exact ⟨_, stored, List.mem_of_getElem? (i := 4) rfl⟩

/-- Its own definition and layout. -/
def mixedEntry : RecordDef × RecordLayout :=
  (⟨"Drawing", [⟨"items", .array (.named "Point") 1⟩]⟩, plainLayout)

variable {counts : ArrayPlan → Node → Prop} {r : RecordDef × RecordLayout}
  {status : Status RecordLayout} {number : Status Shape} {point : Node}

/-- Inside a point there is only the record itself. -/
theorem contains_pointNode (h : (pointNode status number).Contains counts r) :
    ∃ l, status.plan? = some l ∧ r = (pointEntry.1, l) := by
  rcases contains_iff.1 h with hself | ⟨m, hpiece, hm⟩
  · obtain ⟨l, hl, rfl⟩ := Option.map_eq_some_iff.1 hself
    exact ⟨l, hl, rfl⟩
  · cases hpiece with
    | field hf =>
      rw [List.mem_singleton.1 hf] at hm
      rcases contains_iff.1 hm with hleaf | ⟨_, hnone, -⟩
      · cases hleaf
      · cases hnone

/-- Inside a line there are the record itself and what is inside its point. -/
theorem contains_lineNode (h : (lineNode status point).Contains counts r) :
    (lineNode status point).record? = some r ∨ point.Contains counts r := by
  rcases contains_iff.1 h with hself | ⟨m, hpiece, hm⟩
  · exact .inl hself
  · cases hpiece with
    | field hf =>
      rw [List.mem_singleton.1 hf] at hm
      exact .inr hm

/-- With the plain layout that is the entry of a point. -/
theorem eq_pointEntry_of_contains (hplan : status.plan? = some plainLayout)
    (h : (pointNode status number).Contains counts r) : r = pointEntry := by
  obtain ⟨l, hl, rfl⟩ := contains_pointNode h
  cases hplan.symm.trans hl
  rfl

/-- With plain layouts these are the entries of a point and of a line. -/
theorem mem_of_lineNode_contains {status' : Status RecordLayout}
    (hplan : status.plan? = some plainLayout) (hplan' : status'.plan? = some plainLayout)
    (h : (lineNode status (pointNode status' number)).Contains counts r) :
    r ∈ [pointEntry, lineEntry] := by
  rcases contains_lineNode h with hself | hinner
  · obtain ⟨l, hl, rfl⟩ := Option.map_eq_some_iff.1 hself
    cases hplan.symm.trans hl
    exact List.mem_cons_of_mem _ (List.mem_singleton_self _)
  · rw [eq_pointEntry_of_contains hplan' hinner]
    exact List.mem_cons_self

/-- There are points, lines and the drawing, wherever one looks. -/
theorem mem_of_mixedDrawing_contains (h : mixedDrawing.Contains counts r) :
    r ∈ [pointEntry, lineEntry] ++ [mixedEntry] := by
  rcases contains_iff.1 h with hself | ⟨m, hpiece, hm⟩
  · cases hself
    exact List.mem_append_right _ (List.mem_singleton_self _)
  · refine List.mem_append_left _ ?_
    cases hpiece with
    | field hf =>
      rw [List.mem_singleton.1 hf] at hm
      rcases contains_iff.1 hm with hself | ⟨e, hpiece, he⟩
      · cases hself
      · cases hpiece with
        | first _ hfirst =>
          -- whichever template it was, and whatever the catalogs hold
          obtain ⟨shared, hshared, -, rfl, -⟩ := hfirst
          rw [(oblivious_resolve _ shared .empty hshared Shared.coherent_empty).state] at he
          unfold choose at he
          split at he
          next entry hentry =>
            rw [List.mem_singleton.1 (List.mem_of_find?_eq_some hentry)] at he
            exact mem_of_lineNode_contains rfl rfl he
          next =>
            rw [eq_pointEntry_of_contains rfl he]
            exact List.mem_cons_self
        | element _ hmem _ =>
          cases List.mem_singleton.1 hmem
          exact mem_of_lineNode_contains rfl rfl he

/-- The mixed drawing has no leaf with a type of its own either. -/
theorem plain_mixedDrawing : mixedDrawing.Forall Plain := by
  have hpoint : ∀ status number, (pointNode status number).Forall Plain := fun _ _ =>
    .record trivial (List.forall_mem_singleton.2 (.leaf trivial))
  have hline : ∀ status status' number, (lineNode status (pointNode status' number)).Forall Plain :=
    fun _ _ _ => .record trivial (List.forall_mem_singleton.2 (hpoint _ _))
  refine .record trivial (List.forall_mem_singleton.2 ?_)
  refine .array trivial (hpoint _ _) (List.forall_mem_singleton.2 (hline _ _ _)) (by simp) ?_
  intro e he
  cases List.mem_singleton.1 he
  exact hline _ _ _

/-- The line is an element of the array, but it is not defined: the array is planned with a point. -/
theorem not_defined_in_order : ∃ (w : World) (ds : List (RecordDef × RecordLayout)),
    w.Reachable ∧ mixedDrawing ∈ w.trees ∧
      (Visit.resolve mixedDrawing w.store).result = .ok ⟨4, false, 0, 4, 0⟩ ∧
      (Visit.resolve mixedDrawing w.store).node = mixedDrawing ∧
      mixedDrawing.WellNamed (fun _ _ => True) ∧ mixedDrawing.definitions = .ok ds ∧
      mixedDrawing.Contains (fun _ _ => True) lineEntry ∧ lineEntry ∉ ds ∧
      ¬ mixedDrawing.DefinedInOrder (fun _ _ => True) ds := by
  obtain ⟨w, hw, hn⟩ := exists_mixedDrawing
  have hcontains : mixedDrawing.Contains (fun _ _ => True) lineEntry := by
    refine ⟨storedLine, ?_, rfl⟩
    exact .tail (.single (.field (List.mem_singleton_self _)))
      (.element rfl (List.mem_singleton_self _) trivial)
  have hmissing : lineEntry ∉ [pointEntry, mixedEntry] := by decide
  refine ⟨w, [pointEntry, mixedEntry], hw, hn, rfl, rfl, ⟨?_, ?_⟩, by decide +kernel, hcontains,
    hmissing, fun hordered => hmissing ((hordered.exact _).2 hcontains)⟩
  · -- all three records have names of their own, so only the alternative is at fault
    have hunique : Source.Unambiguous ([pointEntry, lineEntry] ++ [mixedEntry]) := by
      unfold Source.Unambiguous
      decide
    exact fun r r' hr hr' =>
      hunique r (mem_of_mixedDrawing_contains hr) r' (mem_of_mixedDrawing_contains hr')
  · exact fun _ _ => not_hasCustom_of_plain plain_mixedDrawing

end World

end NativeLayout
