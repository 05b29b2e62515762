import NativeLayout.Proofs.Memory.Cells
import NativeLayout.Proofs.Tree.Placement

namespace NativeLayout.Node

/-!
# The leaves of a stored structure

* `stored_at` — whatever is in the tree of a stored structure is stored inside it.
* `leaves_apart` — the leaves at two routes have no byte in common.
* `datum?` — what a cell of the leaf at a route holds.
* `datum?_of_sameInside`, `datum?_of_sameOutside` — what a leaf holds is in its own bytes, and a
  change of the bytes of one leaf does not change what the others hold.
-/

variable {n m : Node} {route other : List Nat} {s t u : Shape} {p q r : Placement}

/-- A child that stands somewhere is stored there. -/
theorem Stands.status_of {k : Nat} {c : Node} (h : n.Stands k s p) (hc : n.child? k = some c) :
    c.status = .allocated s p := by
  have hstatus := h.status
  rwa [hc, Option.map_some, Option.some.injEq] at hstatus

/-- Whatever is in the tree of a stored structure is stored inside it. -/
theorem stored_at (hn : n.Sound) (hs : n.status = .allocated s p) (hm : n.at? route = some m) :
    ∃ t q, m.status = .allocated t q ∧ q.region = p.region ∧ p.offset ≤ q.offset ∧
      q.offset + t.size ≤ p.offset + s.size := by
  induction route generalizing n s p with
  | nil =>
    rw [at?_nil, Option.some.injEq] at hm
    subst hm
    exact ⟨s, p, hs, rfl, Nat.le_refl _, Nat.le_refl _⟩
  | cons k route ih =>
    obtain ⟨c, hc, hm⟩ := Option.bind_eq_some_iff.1 hm
    have hencloses := encloses_of_consistent hn.self_of hs
    -- the child is inside the structure, and by induction whatever is below is inside the child
    obtain ⟨u, offset, -, hstands⟩ := hencloses.stands k c hc
    obtain ⟨hbefore, hbehind⟩ := hencloses.inside k u _ hstands
    obtain ⟨t, q, hts, hregion, hstart, hstop⟩ := ih (hn.child hc) (hstands.status_of hc) hm
    refine ⟨t, q, hts, hregion, ?_, ?_⟩
    · show p.offset ≤ q.offset
      have hinside : p.offset + offset ≤ q.offset := hstart
      omega
    · have hextent : u.size ≤ u.extent := Nat.le_add_right _ _
      have hinside : q.offset + t.size ≤ p.offset + offset + u.size := hstop
      have hchild : p.offset + offset + u.extent ≤ p.offset + s.size := hbehind
      omega

/-- Structures below two children of a stored structure have no byte in common. -/
theorem branches_apart {j k : Nat} {a b c d : Node} (hn : n.Sound) (hs : n.status = .allocated s p)
    (hjk : j < k) (ha : n.child? j = some a) (hb : n.child? k = some b) (hc : a.at? route = some c)
    (hd : b.at? other = some d) (hcs : c.status = .allocated t q)
    (hds : d.status = .allocated u r) : q.offset + t.size ≤ r.offset := by
  have hencloses := encloses_of_consistent hn.self_of hs
  obtain ⟨v, x, -, hj⟩ := hencloses.stands j a ha
  obtain ⟨w, y, -, hk⟩ := hencloses.stands k b hb
  have hapart : p.offset + x + v.extent + w.pre ≤ p.offset + y := hencloses.apart j k v w _ _ hjk hj hk
  obtain ⟨_, _, hcs', -, -, hstop⟩ := stored_at (hn.child ha) (hj.status_of ha) hc
  obtain ⟨_, _, hds', -, hstart, -⟩ := stored_at (hn.child hb) (hk.status_of hb) hd
  rw [hcs] at hcs'
  rw [hds] at hds'
  cases hcs'
  cases hds'
  -- each structure lies in the child it is below, and the children are apart
  have hextent : v.size ≤ v.extent := Nat.le_add_right _ _
  have hfirst : q.offset + t.size ≤ p.offset + x + v.size := hstop
  have hsecond : p.offset + y ≤ r.offset := hstart
  omega

/-- Leaves at two routes have no byte in common. -/
theorem leaves_apart {kind kind' : Leaf} (hn : n.Sound) (hs : n.status = .allocated s p)
    (hne : route ≠ other) (h : n.at? route = some (.leaf (.allocated t q) kind))
    (h' : n.at? other = some (.leaf (.allocated u r) kind')) :
    q.offset + t.size ≤ r.offset ∨ r.offset + u.size ≤ q.offset := by
  induction route generalizing n s p other with
  | nil =>
    -- a leaf has no children, so no other route leads anywhere
    cases h
    cases other with
    | nil => exact absurd rfl hne
    | cons k other => cases h'
  | cons j route ih =>
    obtain ⟨a, ha, hleaf⟩ := Option.bind_eq_some_iff.1 h
    cases other with
    | nil =>
      cases h'
      cases ha
    | cons k other =>
      obtain ⟨b, hb, hleaf'⟩ := Option.bind_eq_some_iff.1 h'
      -- the routes part here, or they go on together
      rcases Nat.lt_trichotomy j k with hjk | hjk | hjk
      · exact .inl (branches_apart hn hs hjk ha hb hleaf hleaf' rfl rfl)
      · subst hjk
        rw [ha, Option.some.injEq] at hb
        subst hb
        have hroutes : route ≠ other := fun heq => hne (by rw [heq])
        have haj : n.at? [j] = some a := by rw [at?_cons, ha]; rfl
        obtain ⟨v, x, has, -⟩ := stored_at hn hs haj
        exact ih (hn.child ha) has hroutes hleaf hleaf'
      · exact .inr (branches_apart hn hs hjk hb ha hleaf' hleaf rfl rfl)

/-! ### What cells hold -/

/-- What the cell at an index of the leaf at a route holds, if it is a datum. -/
def datum? (heap : Heap) (route : List Nat) (index : Nat) (n : Node) : Option Datum :=
  match n.at? route with
  | some (.leaf status kind) => kind.datum? heap status index
  | _ => none

variable {heap heap' : Heap} {status : Status Shape} {kind : Leaf} {index : Nat}

/-- The data of a structure inside are those at its route. -/
theorem datum?_at (h : n.at? route = some m) : n.datum? heap route index = m.datum? heap [] index := by
  rw [datum?, h]
  rfl

/-- Only the bytes of a structure matter for what its own cells hold. -/
theorem datum?_of_sameInside (hn : n.Consistent) (hs : n.status = .allocated s p)
    (hsame : heap.SameInside heap' p.region p.offset (p.offset + s.size)) :
    n.datum? heap' [] index = n.datum? heap [] index := by
  cases n with
  | record => rfl
  | array => rfl
  | leaf status kind =>
    change status = .allocated s p at hs
    subst hs
    show kind.datum? heap' (.allocated s p) index = kind.datum? heap (.allocated s p) index
    refine Leaf.datum?_congr rfl fun c hc => Heap.read_congr fun i hstart hstop => ?_
    have hinside : c.1 + c.2 ≤ s.size := Leaf.cell_inside (hn s rfl) hc
    exact hsame i (by omega) (by omega)

/-- A change of the bytes of one leaf does not change what the others hold. -/
theorem datum?_of_sameOutside (hn : n.Sound) (hs : n.status = .allocated s p) (hne : route ≠ other)
    (hleaf : n.at? route = some (.leaf (.allocated t q) kind))
    (hsame : heap.SameOutside heap' q.region q.offset (q.offset + t.size)) :
    n.datum? heap' other index = n.datum? heap other index := by
  unfold datum?
  split
  next status' kind' hother =>
    obtain ⟨u, r, hstatus, hregion, -⟩ := stored_at hn hs hother
    change status' = .allocated u r at hstatus
    subst hstatus
    have hshape : kind'.shape? = .ok u := (hn.at hother).self_of u rfl
    have hapart := leaves_apart hn hs hne hleaf hother
    refine Leaf.datum?_congr rfl fun c hc => Heap.read_congr fun i hstart hstop => ?_
    have hinside : c.1 + c.2 ≤ u.size := Leaf.cell_inside hshape hc
    exact hsame r.region i (.inr (by omega))
  next => rfl

end NativeLayout.Node
