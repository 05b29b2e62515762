import NativeLayout.Proofs.Session.Advance
import NativeLayout.Proofs.Session.Failure
import NativeLayout.Proofs.Session.Scene

namespace NativeLayout

/-!
# Claims and the end of the region

* `Node.Placeable`, `Node.claim_ok_iff` — a claim succeeds exactly if there is room and nothing else
  keeps the structure from getting storage.
* `Node.Confined`, `World.Reachable.confined` — a claim that succeeds stays inside the region, and one
  that does not fit is refused and changes nothing; only a structure without any bytes gets storage
  wherever the offset is, even behind the end of the region.
-/

open Node

namespace Node

/-- Whether nothing but a lack of room can keep a structure from getting storage: its elements can be
built, and then no storage is in the way. -/
structure Placeable (n : Node) (shared : Shared) : Prop where
  built : (n.prepare shared).result = .ok ()
  free : (n.prepare shared).state.Free

variable {n : Node} {region : Region} {offset : Nat} {s : Shape} {shared : Shared}

/-- A claim succeeds exactly if there are bytes enough and what is inside can be placed. -/
theorem claim_ok_iff (hn : n.Sound) (hs : n.status = .allocatable s) (hshared : shared.Coherent) :
    (n.claim region offset shared).result = .ok () ↔
      s.footprint ≤ region.length - offset ∧ n.Placeable shared := by
  obtain ⟨fuel, hfuel⟩ : ∃ fuel, n.depth = fuel + 1 := Nat.exists_eq_add_one.2 n.depth_pos
  rw [claim, hfuel]
  by_cases hfits : s.footprint ≤ region.length - offset
  · have hprepared := prepared_prepare hn hshared
    cases hbuilt : (n.prepare shared).result with
    | error e =>
      -- an element could not be built
      have hfail : ¬ n.Placeable shared := fun h => by cases hbuilt.symm.trans h.built
      simp only [claimWithin, hs, if_neg (Nat.not_lt.2 hfits), Outcome.bind_eq_of_error hbuilt, hfail,
        and_false, reduceCtorEq]
    | ok =>
      rw [claimWithin_of_prepare hn hshared hs hfits hbuilt]
      have hroom : (n.prepare shared).state.Fits region offset := by
        intro t ht
        rw [shape?, ← hprepared.alike.status, hs] at ht
        cases ht
        exact hfits
      have hsettled : Settled (n.prepare shared).state (claimWithin (fuel + 1) region .claimed .claim
          offset (n.prepare shared).state (n.prepare shared).shared) :=
        settled_claimWithin (hfuel ▸ hprepared.depth_le) hprepared.sound (hprepared.ready hbuilt) hroom
          hprepared.coherent
      rw [hsettled.ok]
      exact ⟨fun hfree => ⟨hfits, hbuilt, hfree⟩, fun h => h.2.free⟩
  · simp only [claimWithin, hs, if_pos (Nat.lt_of_not_le hfits), Outcome.fail, hfits, false_and,
      reduceCtorEq]

/-- A structure that does not fit is refused. -/
theorem claim_of_full (hs : n.status = .allocatable s) (h : region.length - offset < s.footprint) :
    n.claim region offset shared =
      .fail shared n (.capacity s.footprint (region.length - offset)) := by
  obtain ⟨fuel, hfuel⟩ : ∃ fuel, n.depth = fuel + 1 := Nat.exists_eq_add_one.2 n.depth_pos
  rw [claim, hfuel]
  simp only [claimWithin, hs, if_pos h]

/-- What a claim of the bytes of a region from an offset on does to a structure of some shape, at the
end of some steps. -/
structure Confined (n : Node) (steps : List PathStep) (route : List Nat) (store : Store) (m : Node)
    (s : Shape) (region : Region) (offset : Nat) (r : Visited Unit) : Prop where
  /-- It succeeds if there is room, or if there are no bytes to find room for. -/
  ok_iff : r.result = .ok () ↔
    (offset + s.footprint ≤ region.length ∨ s.footprint = 0) ∧ m.Placeable store.shared
  /-- Then the value is behind the leading padding, and everything in the structure is in its bytes. -/
  stored : r.result = .ok () → ∃ m', r.node.at? route = some m' ∧
    m'.status = .allocated s ⟨region, offset + s.pre, .claimed⟩ ∧
    ∀ way c, m'.at? way = some c → ∃ t q, c.status = .allocated t q ∧ q.region = region ∧
      offset ≤ q.offset ∧ q.offset + t.size ≤ offset + s.footprint
  /-- Where the bytes do not fit it fails and changes nothing. -/
  refused : s.footprint ≠ 0 → region.length < offset + s.footprint →
    r = ⟨n, store, .error (.fault (.capacity s.footprint (region.length - offset)))⟩
  /-- However it fails, the structure can be claimed again. -/
  failed : ∀ e, r.result = .error e → (r.node.at? route).map status = some (.allocatable s)

end Node

namespace World

variable {w : World} {n m : Node} {steps : List PathStep} {route : List Nat} {s : Shape}

/-- A claim of any bytes of any region for a structure of a reachable world that is resolved and not
stored yet. -/
theorem Reachable.confined (h : w.Reachable) (hn : n ∈ w.trees) (hroute : n.route? steps = some route)
    (hm : n.at? route = some m) (hs : m.status = .allocatable s) (region : Region) (offset : Nat) :
    n.Confined steps route w.store m s region offset
      ((Visit.claim region offset).along steps n w.store) := by
  have hsound := h.sound.trees n hn
  have hcoherent := h.sound.coherent
  have hclaimed : Claimed region offset .claimed m (m.claim region offset w.store.shared) :=
    claimed_claimWithin (Nat.le_refl _) (hsound.at hm) hcoherent
  have hvisit : Visit.claim region offset m w.store =
      ⟨(m.claim region offset w.store.shared).state,
        { w.store with shared := (m.claim region offset w.store.shared).shared },
        (m.claim region offset w.store.shared).result.mapError .fault⟩ := rfl
  have hreaches := Visit.reaches_along (v := Visit.claim region offset) hsound hroute hm w.store
  have hat := Visit.at?_along (v := Visit.claim region offset) hsound hroute hm w.store
  have hresult := hreaches.result
  rw [hvisit] at hat hresult
  constructor
  · -- it succeeds exactly if the bytes from the offset on are enough
    have hiff : (m.claim region offset w.store.shared).result.mapError SessionError.fault = .ok () ↔
        (m.claim region offset w.store.shared).result = .ok () :=
      ⟨ok_of_mapError, fun hok => by rw [hok]; rfl⟩
    rw [hresult, hiff, claim_ok_iff (hsound.at hm) hs hcoherent]
    exact and_congr (by omega) .rfl
  · intro hok
    rw [hresult] at hok
    obtain ⟨t, ht, hstatus⟩ := hclaimed.ok (ok_of_mapError hok)
    cases hs.symm.trans ht
    refine ⟨_, hat, hstatus, fun way c hc => ?_⟩
    -- everything below lies inside the structure, and that behind the padding in front of it
    obtain ⟨t, q, hc, hregion, hstart, hstop⟩ := stored_at hclaimed.sound hstatus hc
    refine ⟨t, q, hc, hregion, Nat.le_trans (Nat.le_add_right _ _) hstart, Nat.le_trans hstop ?_⟩
    show offset + s.pre + s.size ≤ offset + s.footprint
    rw [Shape.footprint]
    omega
  · -- refused before anything is prepared
    intro hbytes hfull
    refine Visit.along_eq_of_unchanged hsound hroute hm ?_
    rw [hvisit, claim_of_full hs (by omega)]
    rfl
  · intro e he
    rw [hresult] at he
    obtain ⟨fault, hfault⟩ := error_of_mapError he
    rw [hat, Option.map_some, hclaimed.error fault hfault, hs]

/-- A leaf without any bytes. -/
def blank : Leaf := .custom "Blank" ⟨1, false, 0, 0, 0⟩

/-- It gets storage behind the end of a region of four bytes; a number of four bytes does not. -/
theorem Reachable.confined_blank : ∃ (w : World) (n m : Node) (r : Visited Unit), w.Reachable ∧
    n ∈ w.trees ∧ m ∈ w.trees ∧ n.status = .allocatable ⟨1, false, 0, 0, 0⟩ ∧
      m.status = .allocatable ⟨4, false, 0, 4, 0⟩ ∧
      (Visit.claim ⟨1, 64, 4⟩ 5).along [] n w.store = r ∧ r.result = .ok () ∧
      (r.node.at? []).map status =
        some (.allocated ⟨1, false, 0, 0, 0⟩ ⟨⟨1, 64, 4⟩, 5, .claimed⟩) ∧
      (Visit.claim ⟨1, 64, 4⟩ 5).along [] m w.store =
        ⟨m, w.store, .error (.fault (.capacity 4 0))⟩ := by
  have leaf := ((Reachable.start 0).leaf blank).call 0 [] (c := .resolve) trivial
  obtain ⟨w, hw, hn, hm⟩ : ∃ w : World, w.Reachable ∧
      .leaf (.allocatable ⟨1, false, 0, 0, 0⟩) blank ∈ w.trees ∧
      .leaf (.allocatable ⟨4, false, 0, 4, 0⟩) (.scalars .i32 1) ∈ w.trees :=
    ⟨_, (leaf.leaf (.scalars .i32 1)).call 1 [] (c := .resolve) trivial,
      List.mem_of_getElem? (i := 0) rfl, List.mem_of_getElem? (i := 1) rfl⟩
  have hblank := hw.confined hn (route?_nil _) (at?_nil _) rfl ⟨1, 64, 4⟩ 5
  have hnumber := hw.confined hm (route?_nil _) (at?_nil _) rfl ⟨1, 64, 4⟩ 5
  -- there are no bytes to find room for, and no elements to build
  have hok := hblank.ok_iff.2 ⟨.inr rfl, rfl, .leaf⟩
  obtain ⟨m', hm', hstatus, -⟩ := hblank.stored hok
  exact ⟨w, _, _, _, hw, hn, hm, rfl, rfl, rfl, hok,
    (congrArg (Option.map status) hm').trans (congrArg some hstatus),
    hnumber.refused (by decide) (by decide)⟩

end World

end NativeLayout
