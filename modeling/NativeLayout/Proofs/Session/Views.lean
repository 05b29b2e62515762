import NativeLayout.Proofs.Session.Located

namespace NativeLayout

/-!
# Windows of windows

A window of a window is again one window of the array, as long as each fits in the one before it.

* `Window.Inside` — a window inside another one.
* `Window.start_of_cuts`, `Window.length_of_cuts`, `Window.inside_of_cuts` — the last of some windows.
* `Window.Checked.cuts_eq` — none of the sums behind it leaves the words.
* `Visit.peekInView`, `Visit.overView` — what else such a window is asked.
* `Node.viewed_of_window` — everything that the last of some windows on an array is and does.
-/

namespace Window

variable {w v u : Window} {a n b m : Nat} {chain front back : List (Nat × Nat)}

/-- A window that fits is granted; its start is counted in the array from then on. -/
theorem cut_of_le (h : a + n ≤ w.length) : w.cut a n = .ok ⟨w.start + a, n⟩ := by
  rw [cut, if_pos h]

/-- One that does not fit is refused with its last index, or the largest word if that is no word. -/
theorem cut_of_lt (h : w.length < a + n) :
    w.cut a n = .error (.outOfRange (Word.addSat a (n - 1)) w.length) := by
  rw [cut, if_neg (Nat.not_le.2 h)]

/-- Both cases in one, to take a granted window apart. -/
theorem cut_eq_ok_iff : w.cut a n = .ok v ↔ a + n ≤ w.length ∧ v = ⟨w.start + a, n⟩ := by
  by_cases h : a + n ≤ w.length
  · rw [cut_of_le h, Except.ok.injEq]
    exact ⟨fun heq => ⟨h, heq.symm⟩, fun heq => heq.2.symm⟩
  · rw [cut_of_lt (Nat.lt_of_not_le h)]
    constructor
    · intro heq
      cases heq
    · exact fun heq => absurd heq.1 h

/-- An index in the window, as an index in the array. -/
theorem index_of_lt {i : Nat} (h : i < w.length) : w.index i = .ok (w.start + i) := by
  rw [index, if_pos h]

/-- An index behind the window is refused, even if the array has it. -/
theorem index_of_le {i : Nat} (h : w.length ≤ i) : w.index i = .error (.outOfRange i w.length) := by
  rw [index, if_neg (Nat.not_lt.2 h)]

/-! ### Windows one from the other -/

/-- A window that is granted is where the rest is cut from. -/
theorem cuts_cons_of_ok (rest : List (Nat × Nat)) (h : w.cut a n = .ok v) :
    (w.cuts ((a, n) :: rest)).2 = (v.cuts rest).2 := by
  simp only [cuts, h]

/-- Once one window is refused, the ones after it are not tried. -/
theorem cuts_cons_of_error {e : Fault} (rest : List (Nat × Nat)) (h : w.cut a n = .error e) :
    (w.cuts ((a, n) :: rest)).2 = .error e := by
  simp only [cuts, h]

/-- The last of some windows, by the first of them. -/
theorem cuts_cons_eq_ok {rest : List (Nat × Nat)} (h : (w.cuts ((a, n) :: rest)).2 = .ok v) :
    a + n ≤ w.length ∧ ((⟨w.start + a, n⟩ : Window).cuts rest).2 = .ok v := by
  by_cases hfits : a + n ≤ w.length
  · rw [cuts_cons_of_ok rest (cut_of_le hfits)] at h
    exact ⟨hfits, h⟩
  · rw [cuts_cons_of_error rest (cut_of_lt (Nat.lt_of_not_le hfits))] at h
    cases h

/-- More windows, cut from the last one. -/
theorem cuts_append (h : (w.cuts front).2 = .ok v) : (w.cuts (front ++ back)).2 = (v.cuts back).2 := by
  induction front generalizing w with
  | nil =>
    cases h
    rfl
  | cons c front ih =>
    obtain ⟨a, n⟩ := c
    obtain ⟨hfits, h⟩ := cuts_cons_eq_ok h
    rw [List.cons_append, cuts_cons_of_ok _ (cut_of_le hfits), ih h]

/-- The windows on the way to the last one. -/
theorem cuts_of_append (h : (w.cuts (front ++ back)).2 = .ok u) :
    ∃ v, (w.cuts front).2 = .ok v ∧ (v.cuts back).2 = .ok u := by
  cases hfront : (w.cuts front).2 with
  | ok v =>
    rw [cuts_append hfront] at h
    exact ⟨v, rfl, h⟩
  | error e =>
    -- a refused window would end the chain
    exfalso
    induction front generalizing w with
    | nil => cases hfront
    | cons c front ih =>
      obtain ⟨a, n⟩ := c
      obtain ⟨hfits, h⟩ := cuts_cons_eq_ok h
      rw [cuts_cons_of_ok _ (cut_of_le hfits)] at hfront
      exact ih h hfront

/-- The indices of one window are indices of another one. -/
structure Inside (v w : Window) : Prop where
  start : w.start ≤ v.start
  stop : v.start + v.length ≤ w.start + w.length

/-- The last of some windows is inside the first one, and so inside each of them (`cuts_of_append`). -/
theorem inside_of_cuts (h : (w.cuts chain).2 = .ok v) : v.Inside w := by
  -- on the windows, each of them the one that the rest is cut from
  induction chain generalizing w with
  | nil =>
    cases h
    exact ⟨Nat.le_refl _, Nat.le_refl _⟩
  | cons c rest ih =>
    obtain ⟨a, n⟩ := c
    obtain ⟨hfits, h⟩ := cuts_cons_eq_ok h
    obtain ⟨hstart, hstop⟩ := ih h
    have hstart : w.start + a ≤ v.start := hstart
    have hstop : v.start + v.length ≤ w.start + a + n := hstop
    constructor <;> omega

/-- All starts add up, since each is counted in the window before. -/
theorem start_of_cuts (h : (w.cuts chain).2 = .ok v) :
    v.start = w.start + (chain.map Prod.fst).sum := by
  induction chain generalizing w with
  | nil =>
    cases h
    rfl
  | cons c rest ih =>
    obtain ⟨a, n⟩ := c
    obtain ⟨-, h⟩ := cuts_cons_eq_ok h
    rw [ih h, List.map_cons, List.sum_cons, Nat.add_assoc]

/-- Only the last count matters; if there are no windows, it is the first window itself. -/
theorem length_of_cuts (h : (w.cuts chain).2 = .ok v) :
    v.length = (chain.getLast?.map Prod.snd).getD w.length := by
  induction chain generalizing w with
  | nil =>
    cases h
    rfl
  | cons c rest ih =>
    obtain ⟨a, n⟩ := c
    obtain ⟨-, h⟩ := cuts_cons_eq_ok h
    rw [ih h]
    cases rest with
    | nil => rfl
    | cons c rest =>
      have hlast : ((a, n) :: c :: rest).getLast? = (c :: rest).getLast? := List.getLast?_cons_cons
      rw [hlast, List.getLast?_eq_some_getLast (List.cons_ne_nil c rest)]
      rfl

/-- Two windows of which the second is cut from the first are one. -/
theorem cuts_merge (h : (w.cuts (front ++ (a, n) :: (b, m) :: back)).2 = .ok u) :
    (w.cuts (front ++ (a + b, m) :: back)).2 = .ok u := by
  obtain ⟨v, hfront, h⟩ := cuts_of_append h
  obtain ⟨hfits, h⟩ := cuts_cons_eq_ok h
  obtain ⟨hinner, h⟩ := cuts_cons_eq_ok h
  -- the second start is counted in the first window, so both starts can be taken at once
  have hboth : v.cut (a + b) m = .ok ⟨v.start + a + b, m⟩ :=
    cut_cut (cut_of_le hfits) (cut_of_le hinner)
  rw [cuts_append hfront, cuts_cons_of_ok back hboth, h]

/-! ### Sums -/

namespace Checked

/-- A window of a window; the sum of the starts is checked, too. -/
def cut (w : Window) (start count : Nat) : Except Fault Window :=
  match Word.add? start count with
  | some stop =>
    if stop ≤ w.length then
      match Word.add? w.start start with
      | some first => .ok { start := first, length := count }
      | none => .error (.layout .overflow)
    else .error (.outOfRange (Word.addSat start (count - 1)) w.length)
  | none => .error (.outOfRange (Word.addSat start (count - 1)) w.length)

/-- The index in the array, with a check. -/
def index (w : Window) (i : Nat) : Except Fault Nat :=
  if i < w.length then
    match Word.add? w.start i with
    | some index => .ok index
    | none => .error (.layout .overflow)
  else .error (.outOfRange i w.length)

/-- The indices in the array from the first one to the end, with a check. -/
def indices (w : Window) : Except Fault (List Nat) :=
  match Word.add? w.start w.length with
  | some stop => .ok (List.range' w.start (stop - w.start))
  | none => .error (.layout .overflow)

/-- The windows that are cut one from the other, with a check for each of them. -/
def cuts (w : Window) : List (Nat × Nat) → List Window × Except Fault Window
  | [] => ([], .ok w)
  | (start, count) :: rest =>
    match cut w start count with
    | .error e => ([], .error e)
    | .ok v =>
      let others := cuts v rest
      (v :: others.1, others.2)

/-- Two words whose sum is a word. -/
theorem add?_of_lt {a b : Nat} (h : a + b < Word.limit) : Word.add? a b = some (a + b) :=
  Word.add?_eq_some_iff.2 ⟨h, rfl⟩

/-- The sums in a single step: where a window fits, both are below its end, which is a word. -/
theorem cut_eq (h : w.start + w.length < Word.limit) (a n : Nat) : cut w a n = w.cut a n := by
  by_cases hfits : a + n ≤ w.length
  · have hcount : Word.add? a n = some (a + n) := add?_of_lt (by omega)
    have hstart : Word.add? w.start a = some (w.start + a) := add?_of_lt (by omega)
    simp only [cut, hcount, if_pos hfits, hstart, cut_of_le hfits]
  · rw [cut_of_lt (Nat.lt_of_not_le hfits)]
    -- a sum that is no word is behind every window
    cases hcount : Word.add? a n with
    | none => simp only [cut, hcount]
    | some stop =>
      obtain ⟨-, rfl⟩ := Word.add?_eq_some_iff.1 hcount
      simp only [cut, hcount, if_neg hfits]

/-- The sum for an index that the window has is below its end. -/
theorem index_eq (h : w.start + w.length < Word.limit) (i : Nat) : index w i = w.index i := by
  by_cases hi : i < w.length
  · have hindex : Word.add? w.start i = some (w.start + i) := add?_of_lt (by omega)
    simp only [index, if_pos hi, hindex, index_of_lt hi]
  · rw [index, if_neg hi, index_of_le (Nat.le_of_not_lt hi)]

/-- The end of the window is the only sum behind its indices. -/
theorem indices_eq (h : w.start + w.length < Word.limit) : indices w = .ok w.indices := by
  have hstop : Word.add? w.start w.length = some (w.start + w.length) := add?_of_lt h
  simp only [indices, hstop, Nat.add_sub_cancel_left, Window.indices, List.range'_eq_map_range]

/-- Where a window ends at a word, none of the sums of its windows leaves the words. -/
theorem cuts_eq (h : w.start + w.length < Word.limit) (chain : List (Nat × Nat)) :
    cuts w chain = w.cuts chain := by
  induction chain generalizing w with
  | nil => rfl
  | cons c rest ih =>
    obtain ⟨a, n⟩ := c
    simp only [cuts, Window.cuts, cut_eq h]
    cases hcut : w.cut a n with
    | error e => rfl
    | ok v =>
      obtain ⟨hfits, rfl⟩ := cut_eq_ok_iff.1 hcut
      have hword : w.start + a + n < Word.limit := by omega
      have hrest := ih (show (⟨w.start + a, n⟩ : Window).start + n < Word.limit from hword)
      simp only [hrest]

/-- The checks do notice starts whose sum is too large. -/
example : cut ⟨2 ^ 63, 2 ^ 63 + 1⟩ (2 ^ 63) 1 = .error (.layout .overflow) := by decide

end Checked

end Window

/-! ### What a window is asked -/

namespace Visit

variable {α β : Type}

/-- The element at an index of the last of some windows, if it exists. -/
def peekInView (cuts : List (Nat × Nat)) (index : Nat) : Visit (Option Node) :=
  (window cuts).bind fun last => peekInWindow last index

/-- An operation on each element in the last of some windows. -/
def overView (cuts : List (Nat × Nat)) (visit : Visit α) : Visit (List (Except SessionError α)) :=
  (window cuts).bind fun last => overWindow last visit

end Visit

namespace Node

variable {α : Type}

/-- An array of some length. -/
inductive IsArray (length : Nat) : Node → Prop where
  | array {status : Status ArrayPlan} {head : ArrayHead} {template : Node}
      {alternatives : List (Nat × Node)} {staged : List Node} {elements : List (Option Node)}
      (h : head.length = length) :
      IsArray length (.array status head template alternatives staged elements)

/-- Two ways to windows on an array that no question and no operation tells apart. -/
structure Indistinct (n : Node) (chain chain' : List (Nat × Nat)) : Prop where
  window : ∀ store, Visit.window chain n store = Visit.window chain' n store
  get : ∀ index (α : Type) (v : Visit α) store,
    Visit.inView chain index v n store = Visit.inView chain' index v n store
  peek : ∀ index store, Visit.peekInView chain index n store = Visit.peekInView chain' index n store
  address : ∀ index store,
    Visit.addressInView chain index n store = Visit.addressInView chain' index n store
  iter : ∀ (α : Type) (v : Visit α) store,
    Visit.overView chain v n store = Visit.overView chain' v n store

/-- Everything that the last of some windows on an array, each cut from the one before, is and does. -/
structure Viewed (n : Node) (chain : List (Nat × Nat)) (w : Window) : Prop where
  /-- The start is the sum of all starts. -/
  start : w.start = (chain.map Prod.fst).sum
  /-- The length is the last count; without any window it is the length of the array. -/
  length : w.length = (chain.getLast?.map Prod.snd).getD n.length
  /-- It is inside every window it was cut from; the one that is not cut is the array. -/
  inside : ∀ front back, chain = front ++ back → ∃ outer : Window,
    (∀ store, Visit.window front n store = ⟨n, store, .ok outer⟩) ∧ w.Inside outer
  within : w.start + w.length ≤ n.length
  /-- One more window, if it fits. -/
  next : ∀ start count, start + count ≤ w.length → ∀ store,
    Visit.window (chain ++ [(start, count)]) n store = ⟨n, store, .ok ⟨w.start + start, count⟩⟩
  /-- One that does not fit, whatever is cut from it. -/
  refused : ∀ start count rest, w.length < start + count → ∀ store,
    Visit.window (chain ++ (start, count) :: rest) n store =
      ⟨n, store, .error (.fault (.outOfRange (Word.addSat start (count - 1)) w.length))⟩
  /-- No sum leaves the words: neither for these windows and any that are tried after them, nor for the
  indices in the last one. -/
  words : (∀ more, Window.Checked.cuts (.whole n.length) (chain ++ more) =
      (Window.whole n.length).cuts (chain ++ more)) ∧
    (∀ index, Window.Checked.index w index = w.index index) ∧
    Window.Checked.indices w = .ok w.indices
  /-- An index in the window is an index in the array. -/
  get : ∀ index, index < w.length → ∀ store,
    (∀ (α : Type) (v : Visit α),
      Visit.inView chain index v n store = Visit.element (w.start + index) v n store) ∧
    Visit.peekInView chain index n store = Visit.peek (w.start + index) n store ∧
    Visit.addressInView chain index n store = Visit.elementAddress (w.start + index) n store
  /-- An index behind the window, whether the array has it or not. -/
  behind : ∀ index, w.length ≤ index → ∀ store,
    (∀ (α : Type) (v : Visit α), Visit.inView chain index v n store =
      ⟨n, store, .error (.fault (.outOfRange index w.length))⟩) ∧
    Visit.peekInView chain index n store = ⟨n, store, .ok none⟩ ∧
    Visit.addressInView chain index n store =
      ⟨n, store, .error (.fault (.outOfRange index w.length))⟩
  /-- To go through the window is to get one index after the other. -/
  iter : ∀ (α : Type) (v : Visit α) store, Visit.overView chain v n store =
    Visit.each ((List.range w.length).map fun index => Visit.inView chain index v) n store
  /-- Two windows in a row cannot be told from one. -/
  merged : ∀ front a k b m back, chain = front ++ (a, k) :: (b, m) :: back →
    n.Indistinct chain (front ++ (a + b, m) :: back)

variable {n m : Node} {length : Nat} {chain : List (Nat × Nat)} {w : Window}

/-- The length is what the head of the array says, whether it is stored or not. -/
theorem IsArray.length_eq (h : n.IsArray length) : n.length = length := by
  cases h with
  | array h => exact h

/-- A structure that moves on stays an array of that length. -/
theorem IsArray.forward (h : n.IsArray length) (hforward : Forward n m) : m.IsArray length := by
  cases h with
  | array h =>
    cases hforward with
    | array => exact .array h

/-- An array in which an element is replaced keeps its length. -/
theorem IsArray.setElement (h : n.IsArray length) (k : Nat) (c : Node) :
    (n.setElement k c).IsArray length := by
  cases h with
  | array h => exact .array h

/-- An array that makes an element, or fails to, keeps its length. -/
theorem IsArray.materialize (h : n.IsArray length) (k : Nat) (shared : Shared) :
    (Node.materialize k n shared).state.IsArray length := by
  obtain ⟨d, hd, hforward⟩ := advances_materialize k n shared [] n rfl
  cases hd
  exact h.forward hforward

/-- An array stays one of the same length, whatever is done to an element of it. -/
theorem IsArray.element (h : n.IsArray length) (k : Nat) (v : Visit α) (store : Store) :
    (Visit.element k v n store).node.IsArray length := by
  have hmade := h.materialize k store.shared
  cases h with
  | array h =>
    simp only [Visit.element, Visit.onArray, Visit.bind, Visit.change]
    -- an element may be made first; whether or not it is, the visit writes at most back to its index
    generalize Node.materialize k _ store.shared = made at hmade ⊢
    cases made.result with
    | error => exact hmade
    | ok =>
      simp only [Except.mapError]
      cases made.state.element? k with
      | none => exact hmade
      | some e => exact hmade.setElement k _

/-! ### Windows on an array -/

/-- Asking an array for a window is computing it from the length, and changes nothing. -/
theorem window_eq_of_ok (h : n.IsArray length) (hw : ((Window.whole length).cuts chain).2 = .ok w)
    (store : Store) : Visit.window chain n store = ⟨n, store, .ok w⟩ := by
  cases h with
  | array h =>
    cases h
    simp only [Visit.window, Visit.bind, Visit.allElements, Visit.onArray, Visit.read, Node.length, hw]

/-- The same for a window that is refused. -/
theorem window_eq_of_error {e : Fault} (h : n.IsArray length)
    (he : ((Window.whole length).cuts chain).2 = .error e) (store : Store) :
    Visit.window chain n store = ⟨n, store, .error (.fault e)⟩ := by
  cases h with
  | array h =>
    cases h
    simp only [Visit.window, Visit.bind, Visit.allElements, Visit.onArray, Visit.read, Node.length, he,
      Visit.fail]

/-- The windows that an array grants. -/
theorem cuts_of_window {store : Store} (h : n.IsArray length)
    (hw : (Visit.window chain n store).result = .ok w) :
    ((Window.whole length).cuts chain).2 = .ok w := by
  cases hcuts : ((Window.whole length).cuts chain).2 with
  | ok last =>
    rw [window_eq_of_ok h hcuts] at hw
    cases hw
    rfl
  | error e =>
    rw [window_eq_of_error h hcuts] at hw
    cases hw

section

variable (h : n.IsArray length) (hw : ((Window.whole length).cuts chain).2 = .ok w)

include h hw

/-- To visit an index in the last of some windows is to visit it in that window. -/
theorem inView_eq_inWindow (index : Nat) (v : Visit α) (store : Store) :
    Visit.inView chain index v n store = Visit.inWindow w index v n store := by
  simp only [Visit.inView, Visit.bind, window_eq_of_ok h hw store]

/-- To look for an index in the last of some windows is to look for it in that window. -/
theorem peekInView_eq (index : Nat) (store : Store) :
    Visit.peekInView chain index n store = Visit.peekInWindow w index n store := by
  simp only [Visit.peekInView, Visit.bind, window_eq_of_ok h hw store]

/-- The address of an index in the last of some windows is its address in that window. -/
theorem addressInView_eq (index : Nat) (store : Store) :
    Visit.addressInView chain index n store = Visit.addressInWindow w index n store := by
  simp only [Visit.addressInView, Visit.bind, window_eq_of_ok h hw store]

/-- To go through the last of some windows is to go through that window. -/
theorem overView_eq (v : Visit α) (store : Store) :
    Visit.overView chain v n store = Visit.overWindow w v n store := by
  simp only [Visit.overView, Visit.bind, window_eq_of_ok h hw store]

end

/-- The indices of a window, one after the other: after each of them it is still the same window. -/
theorem each_inView (indices : List Nat) (h : n.IsArray length)
    (hw : ((Window.whole length).cuts chain).2 = .ok w) (hindices : ∀ i ∈ indices, i < w.length)
    (v : Visit α) (store : Store) :
    Visit.each (indices.map fun i => Visit.element (w.start + i) v) n store =
      Visit.each (indices.map fun i => Visit.inView chain i v) n store := by
  -- on the indices; the structure differs after each of them, so the array is a premise of the induction
  induction indices generalizing n store with
  | nil => rfl
  | cons i rest ih =>
    obtain ⟨hi, hrest⟩ := List.forall_mem_cons.1 hindices
    have hfirst : Visit.inView chain i v n store = Visit.element (w.start + i) v n store := by
      rw [inView_eq_inWindow h hw]
      simp only [Visit.inWindow, Window.index_of_lt hi]
    have hlater := ih (h.element (w.start + i) v store) hrest
      (Visit.element (w.start + i) v n store).store
    simp only [List.map_cons, Visit.each, Visit.bind, hfirst, hlater]

/-- Going through a window is visiting its indices in order, each with the window cut anew. -/
theorem overWindow_eq_each (h : n.IsArray length)
    (hw : ((Window.whole length).cuts chain).2 = .ok w) (v : Visit α) (store : Store) :
    Visit.overWindow w v n store =
      Visit.each ((List.range w.length).map fun index => Visit.inView chain index v) n store := by
  rw [← each_inView (List.range w.length) h hw (fun i hi => List.mem_range.1 hi), Visit.overWindow,
    Window.indices, List.map_map]
  rfl

/-- Ways to the same window. -/
theorem indistinct_of_cuts {chain' : List (Nat × Nat)} (h : n.IsArray length)
    (hw : ((Window.whole length).cuts chain).2 = .ok w)
    (hw' : ((Window.whole length).cuts chain').2 = .ok w) : n.Indistinct chain chain' := by
  constructor
  · intro store
    rw [window_eq_of_ok h hw, window_eq_of_ok h hw']
  · intro index α v store
    rw [inView_eq_inWindow h hw, inView_eq_inWindow h hw']
  · intro index store
    rw [peekInView_eq h hw, peekInView_eq h hw']
  · intro index store
    rw [addressInView_eq h hw, addressInView_eq h hw']
  · intro α v store
    rw [overView_eq h hw, overView_eq h hw']

/-- An array of any length, whether it is stored or not, and any windows on it, each cut from the one
before. -/
theorem viewed_of_window {store : Store} (h : n.IsArray length) (hlength : length < Word.limit)
    (hwindow : (Visit.window chain n store).result = .ok w) : n.Viewed chain w := by
  -- everything follows from the windows as numbers; the array only supplies its length
  have hw : ((Window.whole length).cuts chain).2 = .ok w := cuts_of_window h hwindow
  have hn : n.length = length := h.length_eq
  have hinside : w.Inside (.whole length) := Window.inside_of_cuts hw
  have hwithin : w.start + w.length ≤ length := by
    have hstop : w.start + w.length ≤ 0 + length := hinside.stop
    omega
  have hword : w.start + w.length < Word.limit := Nat.lt_of_le_of_lt hwithin hlength
  have hwhole : (Window.whole n.length).start + (Window.whole n.length).length < Word.limit := by
    show 0 + n.length < Word.limit
    omega
  constructor
  case start =>
    have hstart : w.start = 0 + (chain.map Prod.fst).sum := Window.start_of_cuts hw
    omega
  case length =>
    rw [hn]
    exact Window.length_of_cuts hw
  case inside =>
    rintro front back rfl
    obtain ⟨outer, hfront, hback⟩ := Window.cuts_of_append hw
    exact ⟨outer, window_eq_of_ok h hfront, Window.inside_of_cuts hback⟩
  case within =>
    rwa [hn]
  case next =>
    intro start count hfits
    refine window_eq_of_ok h ?_
    rw [Window.cuts_append hw, Window.cuts_cons_of_ok [] (Window.cut_of_le hfits)]
    rfl
  -- from the last window on, whatever follows the one that does not fit
  case refused =>
    intro start count rest hlarge
    refine window_eq_of_error h ?_
    rw [Window.cuts_append hw, Window.cuts_cons_of_error rest (Window.cut_of_lt hlarge)]
  case words =>
    exact ⟨fun more => Window.Checked.cuts_eq hwhole (chain ++ more), Window.Checked.index_eq hword,
      Window.Checked.indices_eq hword⟩
  case get =>
    intro index hindex store
    have hin := Window.index_of_lt hindex
    refine ⟨fun α v => ?_, ?_, ?_⟩
    · rw [inView_eq_inWindow h hw]
      simp only [Visit.inWindow, hin]
    · rw [peekInView_eq h hw]
      simp only [Visit.peekInWindow, hin]
    · rw [addressInView_eq h hw]
      simp only [Visit.addressInWindow, hin]
  -- the index is compared with the window and not with the array
  case behind =>
    intro index hindex store
    have hout := Window.index_of_le hindex
    refine ⟨fun α v => ?_, ?_, ?_⟩
    · rw [inView_eq_inWindow h hw]
      simp only [Visit.inWindow, hout, Visit.fail, Visit.read]
    · rw [peekInView_eq h hw]
      simp only [Visit.peekInWindow, hout, Visit.read]
    · rw [addressInView_eq h hw]
      simp only [Visit.addressInWindow, hout, Visit.fail, Visit.read]
  case iter =>
    intro α v store
    rw [overView_eq h hw, overWindow_eq_each h hw]
  case merged =>
    rintro front a k b m back rfl
    exact indistinct_of_cuts h hw (Window.cuts_merge hw)

/-- The longest array there is, with nothing stored: the last two indices, of these the second one,
and behind it a window without any index. -/
theorem viewed_last : (Node.newArray (2 ^ 64 - 1) true none (.ofLeaf (.scalars .u8 1)) []).Viewed
    [(2 ^ 64 - 3, 2), (1, 1), (1, 0)] ⟨2 ^ 64 - 1, 0⟩ := by
  have hlongest : (Node.newArray (2 ^ 64 - 1) true none (.ofLeaf (.scalars .u8 1)) []).IsArray
      (2 ^ 64 - 1) := .array rfl
  have hwindow : (Visit.window [(2 ^ 64 - 3, 2), (1, 1), (1, 0)]
      (Node.newArray (2 ^ 64 - 1) true none (.ofLeaf (.scalars .u8 1)) [])
      ⟨.startingAt 0, .empty⟩).result = .ok ⟨2 ^ 64 - 1, 0⟩ := rfl
  exact viewed_of_window hlongest (by decide) hwindow

end Node

end NativeLayout
