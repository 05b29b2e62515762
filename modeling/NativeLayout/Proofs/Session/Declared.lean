import NativeLayout.Proofs.Session.World
import NativeLayout.Proofs.Source.Languages

namespace NativeLayout

/-!
# The declarations of structures

* `Node.inOrder_of_shape?` — the records of a resolved structure of plain leaves are in order.
* `World.Reachable.compiled_c` — a C compiler gives them the layouts that they have.
* `World.Reachable.compiled_rust_iff` — a Rust compiler does so exactly when every record that is less
  aligned than a record inside it is declared under a limit.
-/

open Node Source

/-- Each of some records in order is made of those before it. -/
theorem Source.InOrder.exists_madeOf {known rs : List (RecordDef × RecordLayout)}
    {r : RecordDef × RecordLayout} (h : InOrder known rs) (hr : r ∈ rs) :
    ∃ others, MadeOf others r := by
  induction rs generalizing known with
  | nil => cases hr
  | cons first rs ih =>
    rcases List.mem_cons.1 hr with rfl | hr
    · exact ⟨known, h.1⟩
    · exact ih h.2 hr

/-- The records that a resolved structure of plain leaves is made of are in order. -/
theorem Node.inOrder_of_shape? {n : Node} (hn : n.Sound) (hplain : n.Forall Plain) {s : Shape}
    (hs : n.shape? = some s) : ∃ rs, n.records = .ok rs ∧ InOrder [] rs := by
  obtain ⟨rs, hrs, hdescribed⟩ := describes_of_shape? hn hplain hs
  exact ⟨rs, hrs, inOrder_of_described hdescribed []⟩

/-- Its definitions are these records, with only the first one of each name. -/
theorem Node.definitions_eq_ok {n : Node} {rs : List (RecordDef × RecordLayout)}
    (hrs : n.records = .ok rs) : n.definitions = .ok (distinctNames [] rs) := by
  rw [definitions, hrs]
  rfl

/-- So each of them can be arranged. -/
theorem Source.InOrder.items? {rs : List (RecordDef × RecordLayout)} (h : InOrder [] rs) :
    ∀ r ∈ distinctNames [] rs, Source.items? r.1 r.2 = .ok (itemsOf r) := by
  intro r hr
  obtain ⟨known, hmade⟩ := h.exists_madeOf (mem_of_mem_distinctNames hr)
  exact hmade.items?

namespace World

/-! ### A record that is less aligned than the record inside it -/

/-- A double in a record that keeps its alignment. -/
def doubleRecord : Node :=
  .record (.allocatable ⟨⟨8, false, 0, 8, 0⟩, [0], [0]⟩) ⟨"Inner", .msvcX64, false, 0⟩
    [⟨0, "d", .leaf (.allocatable ⟨8, false, 0, 8, 0⟩) (.scalars .f64 1)⟩]

/-- That record behind a number, in a record that aligns to four bytes. -/
def cappedRecord : Node :=
  .record (.allocatable ⟨⟨4, false, 0, 12, 0⟩, [0, 4], [0, 0]⟩) ⟨"Outer", .sysVI386, false, 0⟩
    [⟨0, "a", .leaf (.allocatable ⟨4, false, 0, 4, 0⟩) (.scalars .i32 1)⟩,
      ⟨1, "inner", doubleRecord⟩]

/-- There is a world in which the record is made. -/
theorem exists_cappedRecord : ∃ w : World, w.Reachable ∧ cappedRecord ∈ w.trees := by
  have number := (Reachable.start 0).leaf (.scalars .i32 1)
  have double := number.leaf (.scalars .f64 1)
  have record := double.record ⟨"Inner", .msvcX64, false, 0⟩
  have inner := record.field 2 1 "d" rfl
  have empty := inner.record ⟨"Outer", .sysVI386, false, 0⟩
  have first := empty.field 3 0 "a" rfl
  have both := first.field 3 2 "inner" rfl
  have resolved := both.call 3 [] (c := .resolve) trivial
  exact ⟨_, resolved, List.mem_of_getElem? (i := 3) rfl⟩

/-- It has no leaf with a type of its own. -/
theorem plain_cappedRecord : cappedRecord.Forall Plain := by
  have hinner : doubleRecord.Forall Plain :=
    .record trivial (List.forall_mem_singleton.2 (.leaf trivial))
  exact .record trivial (List.forall_mem_cons.2 ⟨.leaf trivial, List.forall_mem_singleton.2 hinner⟩)

/-- Its records have different names. -/
theorem unambiguous_cappedRecord : ∀ rs, cappedRecord.records = .ok rs → Unambiguous rs := by
  rintro rs ⟨⟩
  unfold Unambiguous
  decide

/-! ### Declarations -/

variable {w : World} {n m : Node} {route : List Nat} {s : Shape}

/-- A resolved structure of plain leaves, in which records of one name are the same record: its C
declarations are compiled, and each record gets the offsets, the size and the alignment of its
layout. -/
theorem Reachable.compiled_c (h : w.Reachable) (hn : n ∈ w.trees) (hm : n.at? route = some m)
    (hplain : m.Forall Plain) (hs : m.shape? = some s)
    (hnames : ∀ rs, m.records = .ok rs → Unambiguous rs) :
    ∃ rs ds, m.records = .ok rs ∧ m.definitions = .ok ds ∧ (∀ r, r ∈ ds ↔ r ∈ rs) ∧
      renderAll .c ds = .ok ("\n".intercalate (ds.map fun r => Text.ofLines (cOf r).lines)) ∧
      compileAll? .empty (ds.map fun r => (cOf r).declaration) =
        some (ds.map fun r => compiledOf r.2) := by
  obtain ⟨rs, hrs, horder⟩ := inOrder_of_shape? ((h.sound.trees n hn).at hm) hplain hs
  have hunique := hnames rs hrs
  refine ⟨rs, distinctNames [] rs, hrs, definitions_eq_ok hrs,
    fun r => mem_distinctNames_iff hunique, renderAll_c horder.items?, ?_⟩
  -- in order, every declaration finds those that it names; in C nothing else can go wrong
  refine (horder.compileAll?_iff (fun r => (cOf r).declaration.limit) (fun _ => True) hunique ?_).2
    fun _ _ => trivial
  exact fun r known scope hmade _ hscope => iff_true_intro (compile?_c hmade hscope)

/-- In C the double stays four bytes behind the start of the outer record. -/
theorem Reachable.compiled_c_capped : ∃ (w : World) (n : Node) (ds : List (RecordDef × RecordLayout)),
    w.Reachable ∧ n ∈ w.trees ∧ n.Forall Plain ∧ n.shape? = some ⟨4, false, 0, 12, 0⟩ ∧
      (∀ rs, n.records = .ok rs → Unambiguous rs) ∧ n.definitions = .ok ds ∧
      compileAll? .empty (ds.map fun r => (cOf r).declaration) =
        some [⟨[0], ⟨8, 8⟩⟩, ⟨[0, 4], ⟨12, 4⟩⟩] := by
  obtain ⟨w, hw, hn⟩ := exists_cappedRecord
  obtain ⟨rs, ds, hrs, hds, -, -, hcompile⟩ := hw.compiled_c hn (at?_nil _) plain_cappedRecord rfl
    unambiguous_cappedRecord
  refine ⟨w, _, ds, hw, hn, plain_cappedRecord, rfl, unambiguous_cappedRecord, hds, ?_⟩
  rw [hcompile]
  cases hds
  rfl

/-- The same of its Rust declarations, exactly when every record that is less aligned than a record
inside it is declared under a limit. -/
theorem Reachable.compiled_rust_iff (h : w.Reachable) (hn : n ∈ w.trees) (hm : n.at? route = some m)
    (hplain : m.Forall Plain) (hs : m.shape? = some s)
    (hnames : ∀ rs, m.records = .ok rs → Unambiguous rs) :
    ∃ rs ds, m.records = .ok rs ∧ m.definitions = .ok ds ∧ (∀ r, r ∈ ds ↔ r ∈ rs) ∧
      renderAll .rust ds = .ok ("\n".intercalate (ds.map fun r => Text.ofLines (rustOf r).lines)) ∧
      (compileAll? .empty (ds.map fun r => (rustOf r).declaration) =
          some (ds.map fun r => compiledOf r.2) ↔
        ∀ r ∈ ds, Overaligned ds r → (rustOf r).representation ≠ .natural) := by
  obtain ⟨rs, hrs, horder⟩ := inOrder_of_shape? ((h.sound.trees n hn).at hm) hplain hs
  have hunique := hnames rs hrs
  have hds : ∀ r, r ∈ distinctNames [] rs ↔ r ∈ rs := fun r => mem_distinctNames_iff hunique
  refine ⟨rs, distinctNames [] rs, hrs, definitions_eq_ok hrs, hds, renderAll_rust horder.items?, ?_⟩
  simp only [overaligned_congr hds]
  -- what can go wrong is decided for each record on its own
  refine horder.compileAll?_iff (fun r => (rustOf r).declaration.limit) _ hunique ?_
  exact fun r known scope hmade hknown hscope => compile?_rust_iff hunique hmade hknown hscope

/-- In Rust the double moves eight bytes behind the start of the outer record, which is declared
without a limit: its layout has the double four bytes behind, and 12 bytes, not 16. -/
theorem Reachable.compiled_rust_iff_capped :
    ∃ (w : World) (n : Node) (ds : List (RecordDef × RecordLayout)) (r : RecordDef × RecordLayout),
      w.Reachable ∧ n ∈ w.trees ∧ n.Forall Plain ∧ n.shape? = some ⟨4, false, 0, 12, 0⟩ ∧
        (∀ rs, n.records = .ok rs → Unambiguous rs) ∧ n.definitions = .ok ds ∧ r ∈ ds ∧
        (rustOf r).representation = .natural ∧ compiledOf r.2 = ⟨[0, 4], ⟨12, 4⟩⟩ ∧
        compile? (rustOf r).declaration.limit (Table.empty.insert "Inner" ⟨8, 8⟩) (itemsOf r) =
          some ⟨[0, 8], ⟨16, 8⟩⟩ ∧
        compileAll? .empty (ds.map fun r => (rustOf r).declaration) ≠
          some (ds.map fun r => compiledOf r.2) := by
  obtain ⟨w, hw, hn⟩ := exists_cappedRecord
  obtain ⟨rs, ds, hrs, hds, -, -, hcompile⟩ := hw.compiled_rust_iff hn (at?_nil _)
    plain_cappedRecord rfl unambiguous_cappedRecord
  cases hds
  refine ⟨w, _, _, _, hw, hn, plain_cappedRecord, rfl, unambiguous_cappedRecord, rfl,
    List.mem_cons_of_mem _ List.mem_cons_self, by decide, by decide, by decide, ?_⟩
  -- the inner record is above the alignment of the outer one, which is declared without a limit
  rw [Ne, hcompile]
  unfold Overaligned
  decide

end World

end NativeLayout
