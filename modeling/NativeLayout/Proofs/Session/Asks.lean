import NativeLayout.Proofs.Session.Commit
import NativeLayout.Proofs.Session.Views
import NativeLayout.Proofs.Tree.Counts

namespace NativeLayout

/-!
# What operations ask for

* `Node.InSteps`, `Node.InWindow` — the elements that are asked for along some steps, and through some
  windows, each at the end of a way.
* `Visit.Asks` — an operation on a complete tree asks for such elements: each of them exists afterwards,
  and if it is new it was built with one call.
* `Visit.Asks.along` — so does the operation along some steps.
* `Visit.Steady.asks_inView`, `Visit.Steady.asks_overView` — what is asked for through windows.
* `Visit.Reads` — an operation that only looks asks for nothing, also if it looks through windows.
-/

open Node

variable {α : Type}

/-! ### What is asked for -/

namespace Node

/-- The rank of the first field of a record that has some property. -/
def fieldRank? (p : Field Node → Bool) : Node → Option Nat
  | .record _ _ fields => fields.findIdx? p
  | _ => none

/-- What is asked for in a child. -/
def InChild (k : Nat) (ends : Node → List Nat → Prop) (n : Node) (way : List Nat) : Prop :=
  ∃ c rest, n.child? k = some c ∧ ends c rest ∧ way = k :: rest

/-- What is asked for in the first field that has some property. -/
def InField (p : Field Node → Bool) (ends : Node → List Nat → Prop) (n : Node) (way : List Nat) :
    Prop :=
  ∃ k, n.fieldRank? p = some k ∧ n.InChild k ends way

/-- An element that is asked for, if the array has that index, and what is asked for in it. -/
def InElement (k : Nat) (ends : Node → List Nat → Prop) (n : Node) (way : List Nat) : Prop :=
  k < n.length ∧ (way = [k] ∨ n.InChild k ends way)

/-- Some elements in the last of some windows, each cut from the one before. -/
def InWindow (cuts : List (Nat × Nat)) (wanted : Nat → Prop) (n : Node) (way : List Nat) : Prop :=
  ∃ w index, ((Window.whole n.length).cuts cuts).2 = .ok w ∧ index < w.length ∧ wanted index ∧
    way = [w.start + index]

/-- What is asked for along some steps, and at their end. -/
def InSteps (ends : Node → List Nat → Prop) : List PathStep → Node → List Nat → Prop
  | [] => ends
  | .index index :: steps => InField (fun f => f.index = index) (InSteps ends steps)
  | .name name :: steps => InField (fun f => f.name = name) (InSteps ends steps)
  | .element index :: steps => InElement index (InSteps ends steps)

variable {ends : Node → List Nat → Prop} {n c : Node} {j k : Nat} {way : List Nat}

/-- A way through a child goes on as a way in that child. -/
theorem inChild_cons_iff (hc : n.child? k = some c) : n.InChild k ends (k :: way) ↔ ends c way := by
  constructor
  · rintro ⟨d, rest, hd, hrest, h⟩
    cases h
    cases hc.symm.trans hd
    exact hrest
  · exact fun h => ⟨c, way, hc, h, rfl⟩

/-- What is asked for in one child is not on a way through another one. -/
theorem not_inChild_cons (hj : k ≠ j) : ¬ n.InChild k ends (j :: way) := by
  rintro ⟨_, _, -, -, h⟩
  cases h
  exact hj rfl

/-- The elements of an array are its children. -/
theorem IsArray.element?_eq {length : Nat} (h : n.IsArray length) (k : Nat) :
    n.element? k = n.child? k := by
  cases h with
  | array => rfl

variable {asked more : List Nat → Prop} {born : Node}

/-- Nothing more is asked for. -/
theorem Stems.or_of_not (h : Stems asked born n) (hmore : ∀ way, ¬ more way) :
    Stems (fun way => asked way ∨ more way) born n :=
  h.congr fun k way => or_iff_left (hmore (k :: way))

end Node

namespace Visit

/-- An operation on a complete tree that asks for the elements at the ends of some ways, as these are
in the tree afterwards. -/
structure Asks (v : Visit α) (ends : Node → List Nat → Prop) : Prop where
  safe : v.Safe
  moves : ∀ R, Respected R → v.Moves R
  stems : ∀ (n : Node) (store : Store), n.Sound → store.shared.Coherent → n.Complete →
    ∀ asked born, Stems asked born n →
      Stems (fun way => asked way ∨ ends (v n store).node way) born (v n store).node

variable {v : Visit α} {ends : Node → List Nat → Prop}

/-- An operation that does not change the tree asks for nothing. -/
theorem Steady.asks (hv : v.Steady) : v.Asks fun _ _ => False where
  safe := hv.safe
  moves R hR n store _ _ := by
    rw [hv.node]
    exact hR.refl n
  stems n store _ _ _ asked born h := by
    rw [hv.node]
    exact h.or_of_not fun _ => id

/-- **A field.** What is asked for in a field is asked for in the record, one step further. -/
theorem Asks.field {p : Field Node → Bool} (hp : ∀ f c, p (f.withChild c) = p f) (hv : v.Asks ends) :
    (field p v).Asks (InField p ends) where
  safe := hv.safe.field p
  moves R hR := hR.onField (hv.moves R hR) p
  stems n store hn hstore hcomplete asked born h := by
    unfold Visit.field
    -- only a record with a field that has the property can ask for anything
    split
    next status head fields =>
      split
      next hnone =>
        refine h.or_of_not ?_
        rintro way ⟨k, hk, -⟩
        cases hnone.symm.trans hk
      next k hk =>
        split
        next hnone =>
          refine h.or_of_not ?_
          rintro way ⟨j, hj, c, _, hc, -⟩
          cases hk.symm.trans hj
          obtain ⟨f, hf, -⟩ := Option.map_eq_some_iff.1 hc
          cases hnone.symm.trans hf
        next f hf =>
          have hsound : f.child.Sound := hn.child (k := k) (by simp [child?, hf])
          have hchild : f.child.Complete := hcomplete.child (k := k) (by simp [child?, hf])
          have hinside := hv.stems f.child store hsound hstore hchild
          simp only
          generalize (v f.child store).node = c at hinside ⊢
          -- the field still has its rank
          have hrank : (Node.record status head (fields.set k (f.withChild c))).fieldRank? p = some k :=
            findIdx?_setField hp hk hf
          have hc : (Node.record status head (fields.set k (f.withChild c))).child? k = some c := by
            rw [child?_setField hf, if_pos rfl]
          refine h.setField hf (fun j hj way => or_iff_left ?_) fun b hb => ?_
          · rintro ⟨i, hi, hway⟩
            cases hrank.symm.trans hi
            exact not_inChild_cons hj hway
          · have hself (way : List Nat) : InField p ends
                (Node.record status head (fields.set k (f.withChild c))) (k :: way) ↔ ends c way := by
              constructor
              · rintro ⟨i, hi, hway⟩
                cases hrank.symm.trans hi
                exact (inChild_cons_iff hc).1 hway
              · exact fun hway => ⟨k, hrank, (inChild_cons_iff hc).2 hway⟩
            exact (hinside _ b hb).congr fun i way => or_congr_right (hself (i :: way))
    next hother =>
      refine h.or_of_not ?_
      rintro way ⟨k, hk, -⟩
      cases n with
      | record status head fields => exact hother status head fields rfl
      | leaf => cases hk
      | array => cases hk

/-- An operation on an element that was asked for and is there. -/
theorem Asks.inElement {n c : Node} {length k : Nat} {store : Store} {asked : List Nat → Prop}
    {born : Node} (hv : v.Asks ends) (hn : n.Sound) (hstore : store.shared.Coherent)
    (hcomplete : n.Complete) (harray : n.IsArray length) (hk : k < length) (hc : n.child? k = some c)
    (h : Stems (fun way => asked way ∨ way = [k]) born n) :
    Stems (fun way => asked way ∨ InElement k ends (n.setElement k (v c store).node) way) born
      (n.setElement k (v c store).node) := by
  have hinside := hv.stems c store (hn.child hc) hstore (hcomplete.child hc)
  generalize (v c store).node = e at hinside ⊢
  have hlength : k < (n.setElement k e).length := by
    rwa [(harray.setElement k e).length_eq]
  cases harray with
  | @array status head template alternatives staged elements hhead =>
    have hget : elements[k]? = some (some c) := Option.join_eq_some_iff.1 hc
    have he : (setElement (.array status head template alternatives staged elements) k e).child? k =
        some e := by
      rw [setElement, child?_setElement hget, if_pos rfl]
    -- what is asked for in the element: itself, and what the operation asks for behind it
    have hself (way : List Nat) : InElement k ends
        (setElement (.array status head template alternatives staged elements) k e) (k :: way) ↔
          way = [] ∨ ends e way := by
      refine (and_iff_right hlength).trans (or_congr ?_ (inChild_cons_iff he))
      rw [List.cons.injEq, and_iff_right rfl]
    cases hcomplete with
    | array =>
      refine h.inElement (sound_array_iff.1 hn).1 hget (fun way hway => ?_) (fun j hj way => ?_)
        fun b hb => ?_
      · refine hway.imp_right fun hway => (hself way).2 (.inl ?_)
        cases hway
        rfl
      · -- the other elements are asked for as before
        rw [asked_other hj]
        refine or_iff_left ?_
        rintro ⟨-, hway | hway⟩
        · cases hway
          exact hj rfl
        · exact not_inChild_cons hj hway
      · refine (hinside _ b hb).congr fun i way => ?_
        rw [hself]
        constructor
        · rintro (hway | hway | hway)
          · exact .inl (.inl hway)
          · cases hway
          · exact .inr hway
        · rintro ((hway | hway) | hway)
          · exact .inl hway
          · cases hway
          · exact .inr (.inr hway)

/-- **An element.** It is asked for itself, and with it what is asked for inside it. -/
theorem Asks.element (hv : v.Asks ends) (k : Nat) : (element k v).Asks (InElement k ends) where
  safe := hv.safe.element k
  moves R hR := hR.onElement (hv.moves R hR) k
  stems n store hn hstore hcomplete asked born h := by
    have hnot (hlength : ¬ k < n.length) : ∀ way, ¬ InElement k ends n way := fun _ h => hlength h.1
    cases n with
    | leaf => exact h.or_of_not (hnot (Nat.not_lt_zero _))
    | record => exact h.or_of_not (hnot (Nat.not_lt_zero _))
    | array status head template alternatives staged elements =>
      have harray : (Node.array status head template alternatives staged elements).IsArray head.length :=
        .array rfl
      -- a complete tree has room for each element, so making one cannot fail
      by_cases hk : k < head.length
      · have hok := hcomplete.materialize_ok hn hk hstore
        have hmade : Materialized k _ _ := materialized_materialize hn hstore
        have hstems := h.materialize hn hcomplete hstore hok
        have hcomplete := hcomplete.materialize k hn hstore
        have harray := harray.materialize k store.shared
        obtain ⟨c, hc⟩ := hmade.ok hok
        simp only [Visit.element, onArray, Visit.bind, change, hok, Except.mapError]
        generalize Node.materialize k (.array status head template alternatives staged elements)
          store.shared = made at hmade hstems hcomplete harray hc ⊢
        rw [harray.element?_eq, hc]
        exact hv.inElement hmade.evolves.sound hmade.coherent hcomplete harray hk hc hstems
      · -- there is no such index, and nothing is done
        cases hcomplete with
        | array =>
          simp only [Visit.element, onArray, Visit.bind, change, Node.materialize, if_neg hk,
            Outcome.fail, Except.mapError]
          exact h.or_of_not (hnot hk)

/-- **Steps.** What is asked for at the end of some steps, with each element on the way. -/
theorem Asks.along (hv : v.Asks ends) (steps : List PathStep) :
    (v.along steps).Asks (InSteps ends steps) := by
  induction steps with
  | nil => exact hv
  | cons step steps ih =>
    cases step with
    | index => exact ih.field fun _ _ => rfl
    | name => exact ih.field fun _ _ => rfl
    | element k => exact ih.element k

/-! ### Windows -/

variable {β : Type} {R : Node → Node → Prop}

/-- To do one safe thing after the other is safe. -/
theorem Safe.each {vs : List (Visit α)} (h : ∀ v ∈ vs, v.Safe) : (each vs).Safe := by
  induction vs with
  | nil => exact safe_read _
  | cons v rest ih =>
    obtain ⟨hv, hrest⟩ := List.forall_mem_cons.1 h
    intro n store hn hstore
    have hfirst := hv n store hn hstore
    have hothers := (ih hrest).bind
      (fun results => safe_read fun _ _ => .ok ((v n store).result :: results)) _ _ hfirst.sound
      hfirst.coherent
    exact ⟨hothers.coherent, hothers.sound, hfirst.keeps.trans hothers.keeps⟩

/-- What each of some operations respects, all of them in a row respect. -/
theorem Respected.each (hR : Respected R) {vs : List (Visit α)}
    (h : ∀ v ∈ vs, v.Safe ∧ v.Moves R) : (each vs).Moves R := by
  induction vs with
  | nil => exact hR.read _
  | cons v rest ih =>
    obtain ⟨⟨hsafe, hv⟩, hrest⟩ := List.forall_mem_cons.1 h
    intro n store hn hstore
    have hfirst := hsafe n store hn hstore
    exact hR.trans _ _ _ (hv n store hn hstore)
      (hR.bind (.each fun w hw => (hrest w hw).1) (ih hrest) (fun _ => hR.read _) _ _ hfirst.sound
        hfirst.coherent)

/-- An operation that only looks: whatever it answers, all is as before. -/
def Reads (v : Visit α) : Prop := ∀ n store, ∃ result, v n store = ⟨n, store, result⟩

/-- To read is to look. -/
theorem reads_read (f : Node → Store → Except SessionError α) : (read f).Reads := fun _ _ => ⟨_, rfl⟩

/-- To look at something and then at what was found there is to look. -/
theorem Reads.bind {v : Visit α} {next : α → Visit β} (hv : v.Reads) (hnext : ∀ a, (next a).Reads) :
    (v.bind next).Reads := by
  intro n store
  obtain ⟨result, h⟩ := hv n store
  unfold Visit.bind
  rw [h]
  cases result with
  | ok a => exact hnext a n store
  | error e => exact ⟨_, rfl⟩

/-- To look at an array only. -/
theorem Reads.onArray {v : Visit α} (hv : v.Reads) : (onArray v).Reads := by
  intro n store
  cases n with
  | leaf => exact ⟨_, rfl⟩
  | record => exact ⟨_, rfl⟩
  | array => exact hv _ store

/-- Where all stays as it was, nothing can have changed in a failure. -/
theorem Reads.steady {v : Visit α} (hv : v.Reads) : v.Steady := by
  refine ⟨fun n store => ?_, fun n store => ?_, fun n store _ _ => ?_⟩ <;>
  · obtain ⟨result, h⟩ := hv n store
    rw [h]

/-- To ask for a window is to look, whether it is granted or not. -/
theorem reads_window (cuts : List (Nat × Nat)) : (window cuts).Reads := by
  refine (reads_read _).onArray.bind fun w => ?_
  split
  next => exact reads_read _
  next => exact reads_read _

/-- An element that is only looked for through windows is not made for that. -/
theorem reads_peekInView (cuts : List (Nat × Nat)) (index : Nat) : (peekInView cuts index).Reads := by
  refine (reads_window cuts).bind fun w => ?_
  unfold peekInWindow
  split
  next => exact (reads_read _).onArray
  next => exact reads_read _

/-- Nor is one whose address is wanted. -/
theorem reads_addressInView (cuts : List (Nat × Nat)) (index : Nat) :
    (addressInView cuts index).Reads := by
  refine (reads_window cuts).bind fun w => ?_
  unfold addressInWindow
  split
  next => exact (reads_read _).onArray
  next => exact reads_read _

/-- Nothing is asked for through windows that are not granted. -/
theorem not_inWindow {cuts : List (Nat × Nat)} {wanted : Nat → Prop} {n : Node}
    (h : ∀ w index, ((Window.whole n.length).cuts cuts).2 = .ok w → index < w.length → ¬ wanted index)
    (way : List Nat) : ¬ InWindow cuts wanted n way := by
  rintro ⟨w, index, hw, hindex, hwanted, -⟩
  exact h w index hw hindex hwanted

/-- An operation on the last of some windows. -/
theorem asks_window {next : Window → Visit β} {cuts : List (Nat × Nat)} {wanted : Nat → Prop}
    (hsafe : ∀ w, (next w).Safe) (hmoves : ∀ w R, Respected R → (next w).Moves R)
    (hstems : ∀ (w : Window) (n : Node) (store : Store) (length : Nat), n.IsArray length →
      w.start + w.length ≤ length → n.Sound → store.shared.Coherent → n.Complete →
        (next w n store).node.IsArray length ∧ ∀ asked born, Stems asked born n →
          Stems (fun way => asked way ∨ ∃ index < w.length, wanted index ∧ way = [w.start + index]) born
            (next w n store).node) :
    ((window cuts).bind next).Asks (InWindow cuts wanted) where
  safe := (reads_window cuts).steady.safe.bind hsafe
  moves R hR := hR.bind (reads_window cuts).steady.safe ((reads_window cuts).steady.asks.moves R hR)
    fun w => hmoves w R hR
  stems n store hn hstore hall asked born h := by
    -- a window on nothing has no index
    have hempty (hlength : n.length = 0) (way : List Nat) : ¬ InWindow cuts wanted n way := by
      refine not_inWindow (fun w index hw hindex _ => ?_) way
      have hstop : w.start + w.length ≤ 0 + n.length := (Window.inside_of_cuts hw).stop
      omega
    cases n with
    | leaf => exact h.or_of_not (hempty rfl)
    | record => exact h.or_of_not (hempty rfl)
    | array status head template alternatives staged elements =>
      have harray : (Node.array status head template alternatives staged elements).IsArray head.length :=
        .array rfl
      cases hcuts : ((Window.whole head.length).cuts cuts).2 with
      | error e =>
        simp only [Visit.bind, window_eq_of_error harray hcuts store]
        refine h.or_of_not (not_inWindow fun w index hw => ?_)
        cases hcuts.symm.trans hw
      | ok w =>
        have hstop : w.start + w.length ≤ 0 + head.length := (Window.inside_of_cuts hcuts).stop
        obtain ⟨hsame, hafter⟩ :=
          hstems w _ store _ harray (by rwa [Nat.zero_add] at hstop) hn hstore hall
        simp only [Visit.bind, window_eq_of_ok harray hcuts store]
        refine (hafter asked born h).congr fun k way => or_congr_right ?_
        rw [InWindow, hsame.length_eq]
        constructor
        · rintro ⟨v, index, hv, hindex, hwanted, hway⟩
          cases hcuts.symm.trans hv
          exact ⟨index, hindex, hwanted, hway⟩
        · rintro ⟨index, hindex, hwanted, hway⟩
          exact ⟨w, index, hcuts, hindex, hwanted, hway⟩

section steady

variable {n : Node} {store : Store} {length : Nat} {asked : List Nat → Prop} {born : Node}

/-- To get an element asks for it. -/
theorem Steady.stems_element {k : Nat} (hv : v.Steady) (harray : n.IsArray length) (hk : k < length)
    (hn : n.Sound) (hstore : store.shared.Coherent) (hcomplete : n.Complete) (h : Stems asked born n) :
    Stems (fun way => asked way ∨ way = [k]) born (element k v n store).node := by
  have hafter := harray.element k v store
  refine ((hv.asks.element k).stems n store hn hstore hcomplete asked born h).congr fun i way => ?_
  refine or_congr_right ⟨fun hway => ⟨by rwa [hafter.length_eq], .inl hway⟩, ?_⟩
  rintro ⟨-, hway | ⟨_, _, -, ⟨⟩, -⟩⟩
  exact hway

/-- What a row of operations leaves behind is told without the failures in it, which do not end it. -/
theorem node_each_cons (v : Visit α) (rest : List (Visit α)) (n : Node) (store : Store) :
    (each (v :: rest) n store).node = (each rest (v n store).node (v n store).store).node := by
  simp only [each, Visit.bind, read]
  split <;> rfl

/-- An array stays one of its length while its elements are visited. -/
theorem isArray_each (harray : n.IsArray length) (v : Visit α) (indices : List Nat) (store : Store) :
    (each (indices.map fun k => element k v) n store).node.IsArray length := by
  induction indices generalizing n store with
  | nil => exact harray
  | cons k rest ih =>
    rw [List.map_cons, node_each_cons]
    exact ih (harray.element k v store) _

/-- To go through some indices asks for one after the other. -/
theorem Steady.stems_each {indices : List Nat} (hv : v.Steady) (harray : n.IsArray length)
    (hindices : ∀ k ∈ indices, k < length) (hn : n.Sound) (hstore : store.shared.Coherent)
    (hcomplete : n.Complete) (h : Stems asked born n) :
    Stems (fun way => asked way ∨ ∃ k ∈ indices, way = [k]) born
      (each (indices.map fun k => element k v) n store).node := by
  induction indices generalizing n store asked with
  | nil => exact h.or_of_not (by simp)
  | cons k rest ih =>
    obtain ⟨hk, hrest⟩ := List.forall_mem_cons.1 hindices
    have hsafe := (hv.safe.element k) n store hn hstore
    -- the others are asked for in the array as it is after the first one
    have hothers := ih (harray.element k v store) hrest hsafe.sound hsafe.coherent
      ((hv.asks.element k).moves _ respected_complete n store hn hstore hcomplete)
      (hv.stems_element harray hk hn hstore hcomplete h)
    rw [List.map_cons, node_each_cons]
    refine hothers.congr fun i way => ?_
    simp only [List.mem_cons, exists_eq_or_imp, or_assoc]

end steady

/-- To visit an index in a window asks for that element of the array, if the window has the index. -/
theorem Steady.asks_inView (hv : v.Steady) (cuts : List (Nat × Nat)) (index : Nat) :
    (inView cuts index v).Asks (InWindow cuts (· = index)) := by
  refine asks_window (fun w => ?_) (fun w R hR => ?_)
    fun w n store length harray hstop hn hstore hall => ?_
  · unfold inWindow
    split
    · exact hv.safe.element _
    · exact safe_read _
  · unfold inWindow
    split
    · exact (hv.asks.element _).moves R hR
    · exact hR.read _
  -- a window that is too short refuses the index, and nothing is made
  · by_cases hindex : index < w.length
    · simp only [inWindow, Window.index_of_lt hindex]
      refine ⟨harray.element _ v store, fun asked born h => ?_⟩
      have hafter := hv.stems_element harray (k := w.start + index) (by omega) hn hstore hall h
      refine hafter.congr fun i way => or_congr_right ?_
      constructor
      · rintro ⟨_, -, rfl, hway⟩
        exact hway
      · exact fun hway => ⟨index, hindex, rfl, hway⟩
    · simp only [inWindow, Window.index_of_le (Nat.le_of_not_lt hindex), fail, read]
      refine ⟨harray, fun asked born h => h.or_of_not ?_⟩
      rintro way ⟨i, hi, rfl, -⟩
      exact hindex hi

/-- To go through a window asks for each of its elements. -/
theorem Steady.asks_overView (hv : v.Steady) (cuts : List (Nat × Nat)) :
    (overView cuts v).Asks (InWindow cuts fun _ => True) := by
  have hsafe (w : Window) : ∀ u ∈ w.indices.map fun k => element k v, u.Safe ∧
      ∀ R, Respected R → u.Moves R := by
    intro u hu
    obtain ⟨k, -, rfl⟩ := List.mem_map.1 hu
    exact ⟨hv.safe.element k, (hv.asks.element k).moves⟩
  refine asks_window (fun w => .each fun u hu => (hsafe w u hu).1)
    (fun w R hR => hR.each fun u hu => ⟨(hsafe w u hu).1, (hsafe w u hu).2 R hR⟩)
    fun w n store length harray hstop hn hstore hall => ?_
  -- the window ends where the array does, or in front of that
  have hindices : ∀ k ∈ w.indices, k < length := by
    intro k hk
    obtain ⟨i, hi, rfl⟩ := List.mem_map.1 hk
    have hin := List.mem_range.1 hi
    omega
  refine ⟨isArray_each harray v w.indices store, fun asked born h => ?_⟩
  refine (hv.stems_each harray hindices hn hstore hall h).congr fun i way => or_congr_right ?_
  simp only [Window.indices, List.mem_map, List.mem_range, exists_exists_and_eq_and, true_and]

end Visit

end NativeLayout
