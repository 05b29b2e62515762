import NativeLayout.Proofs.Layout.Whole

namespace NativeLayout.RecordLayout

/-!
# More fields behind a record

A record may get new fields behind the ones that it has, and whoever knows the old fields finds them
where they were.

* `placeFields_append` — the pass over two lists of fields is the pass over the first one, and then the
  pass over the second one from the place where the first one ended.
* `exists_close_of_le` — a record that ends no later and is aligned no more can be closed as well.
* `compute_append` — the layout of the longer list begins with the layout of the shorter one, which is
  there if the longer one is.
-/

variable {cap start : Nat} {packed : Bool} {typeName : String} {xs ys : List Shape}
  {placed first : Placed} {s : Shape} {longer : RecordLayout}

/-! ### The pass over the fields -/

/-- Fields that are placed, with others placed behind them. -/
def Placed.append (first later : Placed) : Placed where
  offsets := first.offsets ++ later.offsets
  gaps := first.gaps ++ later.gaps
  stop := later.stop
  align := max first.align later.align

theorem one_le_align_of_placeFields (h : placeFields cap packed start xs = .ok placed) :
    1 ≤ placed.align := by
  induction xs generalizing start placed with
  | nil => cases h; exact le_rfl
  | cons field xs ih =>
    obtain ⟨-, offset, stop, later, -, -, hlater, rfl⟩ := placeFields_cons_eq_ok_iff.1 h
    exact le_max_of_le_right (ih hlater)

/-- The second list is placed from where the first one ended, and the first failure is the failure of
both. -/
theorem placeFields_append (cap : Nat) (packed : Bool) (start : Nat) (xs ys : List Shape) :
    placeFields cap packed start (xs ++ ys) =
      (placeFields cap packed start xs).bind fun first =>
        (placeFields cap packed first.stop ys).map first.append := by
  induction xs generalizing start with
  | nil =>
    show placeFields cap packed start ys = (placeFields cap packed start ys).map _
    cases hys : placeFields cap packed start ys with
    | error e => rfl
    | ok later =>
      -- nothing in front has the alignment 1, which is the least one
      have hone : max 1 later.align = later.align := max_eq_right (one_le_align_of_placeFields hys)
      simp [Except.map, Placed.append, hone]
  | cons field xs ih =>
    simp only [List.cons_append, placeFields]
    split
    · split
      · rfl
      · split
        · rfl
        next stop _ =>
          -- from here on both sides only differ in what stands in front
          rw [ih]
          cases placeFields cap packed stop xs with
          | error e => rfl
          | ok first =>
            simp only [Except.bind]
            cases placeFields cap packed first.stop ys with
            | error e => rfl
            | ok later => simp [Except.map, Placed.append, max_assoc]
    · rfl

/-- Fields that are placed behind others start where those end. -/
theorem placeFields_append_eq_ok (h : placeFields cap packed start (xs ++ ys) = .ok placed) :
    ∃ first later, placeFields cap packed start xs = .ok first ∧
      placeFields cap packed first.stop ys = .ok later ∧ placed = first.append later := by
  rw [placeFields_append] at h
  cases hfirst : placeFields cap packed start xs with
  | error e => simp [hfirst, Except.bind] at h
  | ok first =>
    cases hlater : placeFields cap packed first.stop ys with
    | error e => simp [hfirst, hlater, Except.bind, Except.map] at h
    | ok later =>
      refine ⟨first, later, rfl, hlater, ?_⟩
      simpa [hfirst, hlater, Except.bind, Except.map, eq_comm] using h

/-! ### The record around them -/

/-- The end of the record is rounded up, so it is not clear that a shorter list fits if a longer one
does: its own end is another one.  But it is no further on before it is rounded, and not by more. -/
theorem exists_close_of_le (h : close packed placed = .ok s) (hpow : first.align.isPowerOfTwo)
    (hstop : first.stop ≤ placed.stop) (halign : first.align ≤ placed.align) :
    ∃ t, close packed first = .ok t := by
  unfold close at h ⊢
  cases packed with
  | true => exact ⟨_, rfl⟩
  | false =>
    simp only [Bool.false_eq_true, if_false] at h ⊢
    split at h
    next => cases h
    next total htotal =>
      obtain ⟨bumped, hbumped, -⟩ := Option.map_eq_some_iff.1 htotal
      obtain ⟨hword, -⟩ := Word.add?_eq_some_iff.1 hbumped
      -- the sum that is formed for the longer list bounds the one for the shorter list
      have hfits : Word.add? first.stop (first.align - 1) = some (first.stop + (first.align - 1)) :=
        Word.add?_eq_some_iff.2 ⟨by omega, rfl⟩
      have hround : Word.roundUp? first.stop first.align =
          some (Word.roundUp first.stop first.align) := by
        rw [Word.roundUp?, hfits, Option.map_some, Word.sub_and_mask _ hpow, Word.roundUp]
      have hle := Word.roundUp_le_add first.stop first.align
      refine ⟨⟨first.align, false, 0, first.stop,
        Word.roundUp first.stop first.align - first.stop⟩, ?_⟩
      rw [hround]
      apply Shape.padded?_eq_ok_iff.2
      exact ⟨hpow, by omega, rfl⟩

/-- New fields behind the old ones leave the old ones where they are.  If the longer record has a layout,
so has the shorter one, with the same places and the same gaps for its fields, no larger, no more
aligned, and with an alignment that divides the one of the longer record. -/
theorem compute_append (hcap : cap.isPowerOfTwo) (hne : xs ≠ [])
    (h : compute cap packed typeName (xs ++ ys) = .ok longer) :
    ∃ shorter, compute cap packed typeName xs = .ok shorter ∧
      shorter.offsets = longer.offsets.take xs.length ∧
      shorter.gaps = longer.gaps.take xs.length ∧
      shorter.size ≤ longer.size ∧
      shorter.shape.align ≤ longer.shape.align ∧
      shorter.shape.align ∣ longer.shape.align := by
  obtain ⟨-, placed, hplaced, hclose, hoffsets, hgaps⟩ := compute_eq_ok_iff.1 h
  -- both passes run through the same places until the shorter list ends
  obtain ⟨first, later, hfirst, hlater, rfl⟩ := placeFields_append_eq_ok hplaced
  have hstop : first.stop ≤ later.stop := (spaced_placeFields hlater).le
  have halign : first.align ≤ max first.align later.align := le_max_left _ _
  obtain ⟨hpow, hone⟩ := align_of_placed hcap hfirst
  obtain ⟨hpow', hone'⟩ := align_of_placed hcap hplaced
  have hdvd : first.align ∣ max first.align later.align := Word.dvd_of_isPowerOfTwo hpow hpow' halign
  -- so the shorter record can be closed, too, and both are known from their ends and alignments
  obtain ⟨shape, hshape⟩ := exists_close_of_le hclose hpow hstop halign
  obtain rfl := eq_of_close hpow hone hshape
  have hshape' := eq_of_close hpow' hone' hclose
  have hshorter : compute cap packed typeName xs = .ok ⟨_, first.offsets, first.gaps⟩ :=
    compute_eq_ok_iff.2 ⟨hne, first, hfirst, hshape, rfl, rfl⟩
  obtain ⟨hlength, hlength'⟩ := length_offsets_placeFields hfirst
  refine ⟨_, hshorter, ?_, ?_, ?_, ?_, ?_⟩
  · rw [hoffsets]
    simp [Placed.append, ← hlength]
  · rw [hgaps]
    simp [Placed.append, ← hlength']
  · rw [size_eq_roundUp hcap hshorter, size_eq_roundUp hcap h, hshape']
    -- the end of the longer record is a multiple of the smaller alignment, and behind both stops
    apply Word.roundUp_le
    · exact Nat.dvd_trans hdvd (Word.dvd_roundUp _ _)
    · exact Nat.le_trans hstop (Word.le_roundUp _ (Word.pos_of_isPowerOfTwo hpow'))
  · rw [hshape']
    exact halign
  · rw [hshape']
    exact hdvd

/-- A number of four bytes, and later a number of eight bytes and a byte behind it: the alignment grows
from 4 to 8 and the size from 4 to 24, and the first number stays where it is. -/
theorem compute_append_number :
    let number : Shape := ⟨4, false, 0, 4, 0⟩
    let double : Shape := ⟨8, false, 0, 8, 0⟩
    let byte : Shape := ⟨1, false, 0, 1, 0⟩
    Nat.isPowerOfTwo 16 ∧ [number] ≠ [] ∧ ∃ longer shorter,
      compute 16 false anonymous ([number] ++ [double, byte]) = .ok longer ∧
        compute 16 false anonymous [number] = .ok shorter ∧
        longer.offsets = [0, 8, 16] ∧ shorter.offsets = longer.offsets.take 1 ∧
        shorter.gaps = longer.gaps.take 1 ∧ shorter.size ≤ longer.size ∧ longer.size = 24 ∧
        shorter.shape.align ∣ longer.shape.align := by
  intro number double byte
  have hcap : Nat.isPowerOfTwo 16 := ⟨4, rfl⟩
  have hne : [number] ≠ [] := by decide
  have hlonger : compute 16 false anonymous ([number] ++ [double, byte]) =
      .ok ⟨⟨8, false, 0, 17, 7⟩, [0, 8, 16], [0, 4, 0]⟩ := by decide
  obtain ⟨shorter, hshorter, hoffsets, hgaps, hsize, -, hdvd⟩ := compute_append hcap hne hlonger
  exact ⟨hcap, hne, _, shorter, hlonger, hshorter, rfl, hoffsets, hgaps, hsize, rfl, hdvd⟩

end NativeLayout.RecordLayout
