import Mathlib.Data.List.Nodup
import NativeLayout.Proofs.Catalog.Oblivious
import NativeLayout.Proofs.Session.Route

namespace NativeLayout

/-!
# Fields in any order

A record keeps the fields that it took, and not the order in which it took them.

* `Node.eq_of_perm` — ascending fields are told by which they are.
* `Node.Finds` — what a binary search of ascending fields answers; `Node.field?_of_finds` and
  `Node.fileField_of_finds` say that records find and file their fields where it does.
* `Registration`, `Registration.Admissible` — a field that a record is asked to take, and when it is
  taken.
* `Registration.Filed` — what a record has and does after it was asked to take some fields.
* `World.Reachable.registers` — every record keeps to this, and two that took the same fields are
  the same.
-/

open Node

namespace Node

/-- Fields in the order of their indices, each index once. -/
abbrev Ascending (fields : List (Field Node)) : Prop :=
  fields.Pairwise fun f g => f.index < g.index

variable {f g : Field Node} {fields fields' filed : List (Field Node)} {index : Nat}

/-- The same fields, both times in order. -/
theorem eq_of_perm (h : Ascending fields) (h' : Ascending fields') (hperm : fields.Perm fields') :
    fields = fields' := by
  refine List.Perm.eq_of_pairwise ?_ h h' hperm
  intro f g _ _ hfg hgf
  exact absurd hfg (Nat.lt_asymm hgf)

/-- No two fields have the same index. -/
theorem eq_of_index_eq (h : Ascending fields) (hf : f ∈ fields) (hg : g ∈ fields)
    (heq : f.index = g.index) : f = g := by
  have hnodup : (fields.map Field.index).Nodup := by
    apply List.pairwise_map.2
    exact h.imp Nat.ne_of_lt
  exact List.inj_on_of_nodup_map hnodup hf hg heq

/-- Where indices ascend, a field is found under its own index. -/
theorem field?_eq_some_iff (h : Ascending fields) {child : Node} :
    field? fields index = some child ↔ ∃ name, ⟨index, name, child⟩ ∈ fields := by
  unfold field?
  constructor
  · intro hfound
    obtain ⟨f, hf, rfl⟩ := Option.map_eq_some_iff.1 hfound
    have hindex : f.index = index := by simpa using List.find?_some hf
    exact ⟨f.name, hindex ▸ List.mem_of_find?_eq_some hf⟩
  · intro ⟨name, hmem⟩
    -- the search stops at some field of the index, and there is only this one
    have hsome : (fields.find? fun f => f.index = index).isSome :=
      List.find?_isSome.2 ⟨_, hmem, decide_eq_true rfl⟩
    obtain ⟨f, hf⟩ := Option.isSome_iff_exists.1 hsome
    have hindex : f.index = index := by simpa using List.find?_some hf
    rw [hf, eq_of_index_eq h (List.mem_of_find?_eq_some hf) hmem hindex, Option.map_some]

/-- Nothing is found under an index that no field has. -/
theorem field?_eq_none_iff : field? fields index = none ↔ ∀ f ∈ fields, f.index ≠ index := by
  unfold field?
  rw [Option.map_eq_none_iff, List.find?_eq_none]
  simp

/-! ### The next index -/

/-- The first field without an index gets index zero. -/
theorem nextIndex_nil : nextIndex [] = 0 := rfl

/-- The next index is one more than the largest. -/
theorem nextIndex_eq (h : Ascending fields) (hf : f ∈ fields)
    (hlargest : ∀ g ∈ fields, g.index ≤ f.index) : nextIndex fields = f.index + 1 := by
  rcases fields.eq_nil_or_concat' with rfl | ⟨front, last, rfl⟩
  · cases hf
  · obtain ⟨-, -, hbefore⟩ := List.pairwise_append.1 h
    have hnext : nextIndex (front ++ [last]) = last.index + 1 := by simp [nextIndex]
    have hle : last.index ≤ f.index := hlargest last (by simp)
    rw [hnext]
    rcases List.mem_append.1 hf with hfront | hlast
    · have := hbefore f hfront last (by simp)
      omega
    · rw [List.mem_singleton.1 hlast]

/-! ### Searching -/

/-- What a binary search of the fields answers: the position of the field with the index, or else the
position where it would be. -/
def Finds (fields : List (Field Node)) (index : Nat) : Except Nat Nat → Prop
  | .ok position => ∃ f, fields[position]? = some f ∧ f.index = index
  | .error position => position ≤ fields.length ∧
      (∀ f ∈ fields.take position, f.index < index) ∧ ∀ f ∈ fields.drop position, index < f.index

/-- The fields with one more at the position where a search did not find it. -/
def insertAt (f : Field Node) (fields : List (Field Node)) :
    Except Nat Nat → Option (List (Field Node))
  | .ok _ => none
  | .error position => some (fields.take position ++ f :: fields.drop position)

/-- The search by halves finds what a search from the first field on finds. -/
theorem findIdx?_of_finds (h : Ascending fields) {position : Nat}
    (hfinds : Finds fields index (.ok position)) :
    (fields.findIdx? fun f => f.index = index) = some position := by
  obtain ⟨f, hf, hindex⟩ := hfinds
  obtain ⟨hlt, rfl⟩ := List.getElem?_eq_some_iff.1 hf
  refine List.findIdx?_eq_some_iff_getElem.2 ⟨hlt, decide_eq_true hindex, fun k hk => ?_⟩
  have := List.pairwise_iff_getElem.1 h k position (by omega) hlt hk
  rw [decide_eq_true_eq]
  omega

/-- A field is not where a search does not find it. -/
theorem index_ne_of_finds {position : Nat} (hfinds : Finds fields index (.error position)) :
    ∀ f ∈ fields, f.index ≠ index := by
  obtain ⟨-, hfront, hback⟩ := hfinds
  intro f hf
  rw [← List.take_append_drop position fields, List.mem_append] at hf
  rcases hf with hf | hf
  · exact Nat.ne_of_lt (hfront f hf)
  · exact Nat.ne_of_gt (hback f hf)

/-- The record finds the field that the search finds. -/
theorem field?_of_finds (h : Ascending fields) {answer : Except Nat Nat}
    (hfinds : Finds fields index answer) :
    field? fields index = answer.toOption.bind fun position => fields[position]?.map Field.child := by
  cases answer with
  | ok position =>
    obtain ⟨f, hf, rfl⟩ := hfinds
    rw [show (Except.ok position : Except Nat Nat).toOption = some position from rfl,
      Option.bind_some, hf, Option.map_some]
    exact (field?_eq_some_iff h).2 ⟨f.name, List.mem_of_getElem? hf⟩
  | error position => exact field?_eq_none_iff.2 (index_ne_of_finds hfinds)

/-- The record files a new field where the search says. -/
theorem fileField_of_finds (h : Ascending fields) {answer : Except Nat Nat}
    (hfinds : Finds fields f.index answer) : fileField f fields = insertAt f fields answer := by
  cases answer with
  | ok position =>
    obtain ⟨g, hg, hindex⟩ := hfinds
    exact (fileField_eq_none_iff h).2 ⟨g, List.mem_of_getElem? hg, hindex⟩
  | error position =>
    have hfree := index_ne_of_finds hfinds
    obtain ⟨-, hfront, hback⟩ := hfinds
    cases hfiled : fileField f fields with
    | none =>
      obtain ⟨g, hg, hindex⟩ := (fileField_eq_none_iff h).1 hfiled
      exact absurd hindex (hfree g hg)
    | some filed =>
      -- both lists are in order, and have the new field and the others
      have hperm : filed.Perm (fields.take position ++ f :: fields.drop position) := by
        refine (perm_of_fileField hfiled).trans (List.Perm.trans ?_ List.perm_middle.symm)
        rw [List.take_append_drop]
      have hinserted : Ascending (fields.take position ++ f :: fields.drop position) := by
        rw [← List.take_append_drop position fields] at h
        obtain ⟨htake, hdrop, hbetween⟩ := List.pairwise_append.1 h
        refine List.pairwise_append.2 ⟨htake, List.pairwise_cons.2 ⟨hback, hdrop⟩, ?_⟩
        intro g hg g' hg'
        rcases List.mem_cons.1 hg' with rfl | hg'
        · exact hfront g hg
        · exact hbetween g hg g' hg'
      exact congrArg some (eq_of_perm (pairwise_of_fileField h hfiled) hinserted hperm)

/-- **One registration** succeeds if the record has no layout, the child has no storage, and the index is
free. -/
theorem register_eq_ok_iff {name : String} {child : Node} {status : Status RecordLayout}
    {head : RecordHead} :
    register index name child status head fields = .ok filed ↔
      status.stage = .unallocated ∧ child.stage ≠ .allocated ∧
        fileField ⟨index, name, child⟩ fields = some filed := by
  unfold register
  split
  next hstatus => simp [hstatus]
  next hstatus =>
    split
    -- refused before the index is looked at
    next hchild => simp [hchild]
    next hchild =>
      have hstatus := Decidable.not_not.1 hstatus
      cases fileField ⟨index, name, child⟩ fields with
      | none => simp
      | some filed => simp [hstatus, hchild]

end Node

/-- A field that a record is asked to take, behind all others if no index is given. -/
structure Registration where
  index : Option Nat
  name : String
  child : Node

namespace Registration

/-- The request to the record. -/
def visit (c : Registration) : Visit Nat := .register c.index c.name c.child

/-- The index of the field among others. -/
def indexIn (c : Registration) (fields : List (Field Node)) : Nat := c.index.getD (nextIndex fields)

/-- The field, if the record takes it among others. -/
def fieldIn (c : Registration) (fields : List (Field Node)) : Field Node :=
  ⟨c.indexIn fields, c.name, c.child⟩

/-- A record takes a field if it is not resolved, the child has no storage and the index is free. -/
def Admissible (c : Registration) (status : Status RecordLayout) (fields : List (Field Node)) : Prop :=
  status.stage = .unallocated ∧ c.child.stage ≠ .allocated ∧
    ∀ f ∈ fields, f.index ≠ c.indexIn fields

/-- The fields that were taken, by the answers to the requests. -/
def accepted : List Registration → List (Except SessionError Nat) → List (Field Node)
  | [], _ => []
  | _ :: _, [] => []
  | c :: calls, .ok index :: answers => ⟨index, c.name, c.child⟩ :: accepted calls answers
  | _ :: calls, .error _ :: answers => accepted calls answers

variable {c : Registration} {calls : List Registration} {status : Status RecordLayout}
  {head : RecordHead} {fields filed : List (Field Node)} {answers : List (Except SessionError Nat)}

/-! ### One request -/

/-- A field that the record takes is filed under its index. -/
theorem visit_of_admissible (head : RecordHead) (h : Ascending fields)
    (hc : c.Admissible status fields) :
    ∃ filed, Ascending filed ∧ filed.Perm (c.fieldIn fields :: fields) ∧ ∀ store,
      c.visit (.record status head fields) store =
        ⟨.record status head filed, store, .ok (c.indexIn fields)⟩ := by
  obtain ⟨hstatus, hchild, hfree⟩ := hc
  cases hfiled : fileField (c.fieldIn fields) fields with
  | none =>
    obtain ⟨g, hg, hindex⟩ := (fileField_eq_none_iff h).1 hfiled
    exact absurd hindex (hfree g hg)
  | some filed =>
    refine ⟨filed, pairwise_of_fileField h hfiled, perm_of_fileField hfiled, fun store => ?_⟩
    have hok : Node.register (c.indexIn fields) c.name c.child status head fields = .ok filed :=
      register_eq_ok_iff.2 ⟨hstatus, hchild, hfiled⟩
    show Visit.register c.index c.name c.child (.record status head fields) store = _
    unfold indexIn at hok
    simp only [Visit.register, hok, indexIn]

/-- A field that the record refuses leaves it as it is. -/
theorem visit_of_not_admissible (head : RecordHead) (h : Ascending fields)
    (hc : ¬ c.Admissible status fields) :
    ∃ e, ∀ store, c.visit (.record status head fields) store =
      ⟨.record status head fields, store, .error e⟩ := by
  cases hregister : Node.register (c.indexIn fields) c.name c.child status head fields with
  | error e =>
    refine ⟨.fault e, fun store => ?_⟩
    show Visit.register c.index c.name c.child (.record status head fields) store = _
    unfold indexIn at hregister
    simp only [Visit.register, hregister]
  | ok filed =>
    obtain ⟨hstatus, hchild, hfiled⟩ := register_eq_ok_iff.1 hregister
    refine absurd ⟨hstatus, hchild, fun f hf hindex => ?_⟩ hc
    rw [(fileField_eq_none_iff h).2 ⟨f, hf, hindex⟩] at hfiled
    cases hfiled

/-- The record answers with the index of the field if it takes it, and not otherwise. -/
theorem result_visit_eq_ok_iff (h : Ascending fields) {store : Store} {index : Nat} :
    (c.visit (.record status head fields) store).result = .ok index ↔
      c.Admissible status fields ∧ index = c.indexIn fields := by
  by_cases hc : c.Admissible status fields
  · obtain ⟨filed, -, -, hvisit⟩ := visit_of_admissible head h hc
    rw [hvisit, Except.ok.injEq]
    exact ⟨fun heq => ⟨hc, heq.symm⟩, fun heq => heq.2.symm⟩
  · obtain ⟨e, hvisit⟩ := visit_of_not_admissible head h hc
    rw [hvisit]
    constructor
    · intro heq
      cases heq
    · exact fun heq => absurd heq.1 hc

/-! ### Some requests -/

/-- What a record has and does after it was asked to take some fields. -/
structure Filed (status : Status RecordLayout) (head : RecordHead) (fields : List (Field Node))
    (calls : List Registration) (filed : List (Field Node))
    (answers : List (Except SessionError Nat)) : Prop where
  run : ∀ store, Visit.each (calls.map visit) (.record status head fields) store =
    ⟨.record status head filed, store, .ok answers⟩
  /-- The fields are in the order of their indices: those from before and those that were taken. -/
  ascending : Ascending filed
  exact : filed.Perm (fields ++ accepted calls answers)
  /-- Under an index there is the child that was taken under it, and nothing else. -/
  found : ∀ index child, field? filed index = some child ↔
    ∃ name, ⟨index, name, child⟩ ∈ fields ++ accepted calls answers
  absent : ∀ index, field? filed index = none ↔
    ∀ f ∈ fields ++ accepted calls answers, f.index ≠ index
  /-- A binary search finds the same, and tells where a new field goes. -/
  searched : ∀ index answer, Finds filed index answer →
    field? filed index = (answer.toOption.bind fun position => filed[position]?.map Field.child) ∧
      (filed.findIdx? fun f => f.index = index) = answer.toOption ∧
      ∀ name child, fileField ⟨index, name, child⟩ filed = insertAt ⟨index, name, child⟩ filed answer
  /-- The next field is taken exactly if it is admissible, under its index. -/
  takes : ∀ (c : Registration) store index,
    (c.visit (.record status head filed) store).result = .ok index ↔
      c.Admissible status filed ∧ index = c.indexIn filed
  /-- If it is refused, nothing changes. -/
  refuses : ∀ (c : Registration) store e,
    (c.visit (.record status head filed) store).result = .error e →
      c.visit (.record status head filed) store = ⟨.record status head filed, store, .error e⟩
  /-- Without an index, the first field goes under zero, and another one under the largest index and
  one, which is exact while it is a word. -/
  first : filed = [] → nextIndex filed = 0
  next : ∀ f ∈ filed, (∀ g ∈ filed, g.index ≤ f.index) → nextIndex filed = f.index + 1 ∧
    (f.index < Word.limit - 1 → Word.add? f.index 1 = some (nextIndex filed))

/-- Requests one after the other: what is taken is added to the fields. -/
theorem exists_run (status : Status RecordLayout) (head : RecordHead) (h : Ascending fields)
    (calls : List Registration) : ∃ filed answers,
    Ascending filed ∧ filed.Perm (fields ++ accepted calls answers) ∧ ∀ store,
      Visit.each (calls.map visit) (.record status head fields) store =
        ⟨.record status head filed, store, .ok answers⟩ := by
  -- on the requests, from whatever the record has by then
  induction calls generalizing fields with
  | nil =>
    refine ⟨fields, [], h, ?_, fun store => rfl⟩
    rw [accepted, List.append_nil]
  | cons c calls ih =>
    by_cases hc : c.Admissible status fields
    · obtain ⟨one, hone, honeperm, hvisit⟩ := visit_of_admissible head h hc
      obtain ⟨filed, answers, hfiled, hperm, hrun⟩ := ih hone
      refine ⟨filed, .ok (c.indexIn fields) :: answers, hfiled, ?_, fun store => ?_⟩
      · have hmore : filed.Perm ((c.fieldIn fields :: fields) ++ accepted calls answers) :=
          hperm.trans (honeperm.append_right _)
        exact hmore.trans List.perm_middle.symm
      · simp only [List.map_cons, Visit.each, Visit.bind, hvisit, hrun, Visit.read]
    · obtain ⟨e, hvisit⟩ := visit_of_not_admissible head h hc
      obtain ⟨filed, answers, hfiled, hperm, hrun⟩ := ih h
      refine ⟨filed, .error e :: answers, hfiled, hperm, fun store => ?_⟩
      simp only [List.map_cons, Visit.each, Visit.bind, hvisit, hrun, Visit.read]

/-- A run of registrations has filed what it accepted, in the order of the indices. -/
theorem filed_of_run (hfiled : Ascending filed)
    (hperm : filed.Perm (fields ++ accepted calls answers))
    (hrun : ∀ store, Visit.each (calls.map visit) (.record status head fields) store =
      ⟨.record status head filed, store, .ok answers⟩) :
    Filed status head fields calls filed answers := by
  constructor
  case run => exact hrun
  case ascending => exact hfiled
  case exact => exact hperm
  case found =>
    intro index child
    rw [field?_eq_some_iff hfiled]
    simp only [hperm.mem_iff]
  case absent =>
    intro index
    rw [field?_eq_none_iff]
    simp only [hperm.mem_iff]
  case searched =>
    intro index answer hfinds
    refine ⟨field?_of_finds hfiled hfinds, ?_, fun name child =>
      fileField_of_finds (f := ⟨index, name, child⟩) hfiled hfinds⟩
    cases answer with
    | ok position => exact findIdx?_of_finds hfiled hfinds
    | error position =>
      -- an index that the search does not find is that of no field
      refine List.findIdx?_eq_none_iff.2 fun f hf => ?_
      exact decide_eq_false (index_ne_of_finds hfinds f hf)
  case takes => exact fun c store index => result_visit_eq_ok_iff hfiled
  case refuses =>
    intro c store e he
    -- only what is not admissible is refused, and it leaves the record as it was
    by_cases hc : c.Admissible status filed
    · obtain ⟨_, -, -, hvisit⟩ := visit_of_admissible head hfiled hc
      rw [hvisit] at he
      cases he
    · obtain ⟨e', hvisit⟩ := visit_of_not_admissible head hfiled hc
      rw [hvisit] at he ⊢
      cases he
      rfl
  case first =>
    rintro rfl
    exact nextIndex_nil
  case next =>
    intro f hf hlargest
    rw [nextIndex_eq hfiled hf hlargest]
    exact ⟨rfl, fun hword => Word.add?_eq_some_iff.2 ⟨by omega, rfl⟩⟩

/-- Whatever a record is asked to take, it keeps its fields in order. -/
theorem exists_filed (h : Ascending fields) (status : Status RecordLayout) (head : RecordHead)
    (calls : List Registration) : ∃ filed answers, Filed status head fields calls filed answers := by
  obtain ⟨filed, answers, hfiled, hperm, hrun⟩ := exists_run status head h calls
  exact ⟨filed, answers, filed_of_run hfiled hperm hrun⟩

end Registration

/-! ### Two records -/

namespace Node

/-- Two records that only differ in the catalog, and what both show. -/
structure RecordsAgree (head head' : RecordHead) (n n' : Node) : Prop where
  /-- They have the same layout and the same fields, in the same order and under the same indices. -/
  same : SameRecords head head' n n'
  /-- They have the same definition, layout and number of fields. -/
  viewed : ∀ store store', ∃ view, (Visit.record n store).result = .ok view ∧
    (Visit.record n' store').result = .ok { view with head := head' }
  offset : ∀ index store store',
    (Visit.fieldOffset index n store).result = (Visit.fieldOffset index n' store').result

variable {head head' : RecordHead} {n n' : Node}

/-- Two runs that filed the same fields leave records that resolve alike and present themselves alike. -/
theorem recordsAgree_of_same (h : head.Alike head') (hsame : SameRecords head head' n n') :
    RecordsAgree head head' n n' := by
  constructor
  case same => exact hsame
  case viewed =>
    intro store store'
    obtain ⟨status, fields, rfl, rfl⟩ := hsame
    refine ⟨⟨head, fields.length, status.plan?, definition head fields⟩, rfl, ?_⟩
    simp only [Visit.record, definition, h.1]
  case offset =>
    obtain ⟨status, fields, rfl, rfl⟩ := hsame
    exact fun _ _ _ => rfl

end Node

namespace World

variable {w w' : World}

open Registration

/-- Every record keeps its fields in order and takes what is admissible, whatever it is asked to take.
Two records of the same name, binary interface and packing that took the same fields, in whatever
order, have the same fields, definition, layout and offsets. -/
theorem Reachable.registers (h : w.Reachable) (h' : w'.Reachable) :
    (∀ n route status head fields, n ∈ w.trees → n.at? route = some (.record status head fields) →
      ∀ calls, ∃ filed answers, Filed status head fields calls filed answers) ∧
    ∀ head head' fields fields' calls calls' filed filed' answers answers',
      Filed .unallocated head fields calls filed answers →
      Filed .unallocated head' fields' calls' filed' answers' → head.Alike head' →
      (fields ++ accepted calls answers).Perm (fields' ++ accepted calls' answers') →
      let n := Node.record .unallocated head filed
      let n' := Node.record .unallocated head' filed'
      filed = filed' ∧ RecordsAgree head head' n n' ∧
        (Visit.resolve n w.store).result = (Visit.resolve n' w'.store).result ∧
        RecordsAgree head head' (Visit.resolve n w.store).node (Visit.resolve n' w'.store).node := by
  constructor
  · intro n route status head fields hn hroute calls
    obtain ⟨self, -⟩ := sound_record_iff.1 ((h.sound.trees n hn).at hroute)
    exact exists_filed self.ascending status head calls
  · intro head head' fields fields' calls calls' filed filed' answers answers' hfiled hfiled' hhead
      hperm
    -- ascending lists with the same entries are the same, in whatever order these came
    have hsame : filed = filed' := by
      apply eq_of_perm hfiled.ascending hfiled'.ascending
      exact hfiled.exact.trans (hperm.trans hfiled'.exact.symm)
    subst hsame
    have hmatch := matches_resolve_record hhead (fun f (_ : f ∈ filed) => oblivious_resolve f.child)
      h.sound.coherent h'.sound.coherent
    refine ⟨rfl, recordsAgree_of_same hhead ⟨_, _, rfl, rfl⟩, ?_,
      recordsAgree_of_same hhead hmatch.state⟩
    exact congrArg (Except.mapError SessionError.fault) hmatch.result

/-- The head of a record that takes its layout from one of two catalogs. -/
def entryHead (catalog : Nat) : RecordHead := ⟨"Entry", .msvcX64, false, catalog⟩

/-- Three fields, and one under an index that is taken by then. -/
def entryCalls : List Registration :=
  [⟨none, "tag", .ofLeaf (.scalars .u8 1)⟩, ⟨some 5, "size", .ofLeaf (.scalars .u32 1)⟩,
    ⟨some 0, "again", .ofLeaf (.scalars .u8 1)⟩, ⟨none, "last", .ofLeaf (.scalars .u16 1)⟩]

/-- The same fields in another order, each under its index. -/
def entryCallsAgain : List Registration :=
  [⟨some 6, "last", .ofLeaf (.scalars .u16 1)⟩, ⟨some 0, "tag", .ofLeaf (.scalars .u8 1)⟩,
    ⟨some 5, "size", .ofLeaf (.scalars .u32 1)⟩]

/-- Both records take the three fields, and are the same with different catalogs. -/
theorem Reachable.registers_entry : ∃ (w w' : World) (filed filed' : List (Field Node)),
    w.Reachable ∧ w'.Reachable ∧
      Filed .unallocated (entryHead 0) [] entryCalls filed
        [.ok 0, .ok 5, .error (.fault (.layout (.duplicateField "Entry" 0))), .ok 6] ∧
      Filed .unallocated (entryHead 1) [] entryCallsAgain filed' [.ok 6, .ok 0, .ok 5] ∧
      filed = filed' ∧
      (Visit.resolve (.record .unallocated (entryHead 0) filed) w.store).result =
        .ok ⟨4, false, 0, 10, 2⟩ ∧
      (Visit.resolve (.record .unallocated (entryHead 1) filed') w'.store).result =
        .ok ⟨4, false, 0, 10, 2⟩ := by
  have hw := (Reachable.start 0).record (entryHead 0)
  have hw' := (Reachable.start 0).record (entryHead 1)
  obtain ⟨filed, answers, hfiled⟩ := (hw.registers hw').1 _ [] _ _ _ (List.mem_singleton_self _) rfl
    entryCalls
  obtain ⟨filed', answers', hfiled'⟩ := (hw'.registers hw).1 _ [] _ _ _ (List.mem_singleton_self _) rfl
    entryCallsAgain
  -- the requests are carried out
  have hrun := hfiled.run ⟨.startingAt 0, .empty⟩
  have hrun' := hfiled'.run ⟨.startingAt 0, .empty⟩
  have hanswers : answers =
      [.ok 0, .ok 5, .error (.fault (.layout (.duplicateField "Entry" 0))), .ok 6] :=
    (Except.ok.inj (congrArg Visited.result hrun)).symm
  have hanswers' : answers' = [.ok 6, .ok 0, .ok 5] :=
    (Except.ok.inj (congrArg Visited.result hrun')).symm
  subst hanswers hanswers'
  have hnode : Node.record .unallocated (entryHead 0) filed = _ := (congrArg Visited.node hrun).symm
  have hperm := @List.perm_append_comm (Field Node)
    [⟨0, "tag", .ofLeaf (.scalars .u8 1)⟩, ⟨5, "size", .ofLeaf (.scalars .u32 1)⟩]
    [⟨6, "last", .ofLeaf (.scalars .u16 1)⟩]
  obtain ⟨hsame, -, hresult, -⟩ := (hw.registers hw').2 _ _ _ _ _ _ _ _ _ _ hfiled hfiled'
    ⟨rfl, rfl, rfl⟩ hperm
  have hresolved : (Visit.resolve (.record .unallocated (entryHead 0) filed)
      ⟨.startingAt 0, .empty⟩).result = .ok ⟨4, false, 0, 10, 2⟩ := by
    rw [hnode]
    rfl
  exact ⟨_, _, filed, filed', hw, hw', hfiled, hfiled', hsame, hresolved, hresult ▸ hresolved⟩

end World

end NativeLayout
