import NativeLayout.Proofs.Layout.Whole

namespace NativeLayout

/-!
# Alignment caps

The cap is how much of its alignment a field may keep, and so it is all that one application binary
interface does differently from another.

* `RecordLayout.compute_eq` — under a power of two, the layout is that of the least offsets.
* `RecordLayout.compute_le_of_cap_le` — a smaller cap never makes a record larger, moves a field back
  or refuses a record; a packed record is laid out like any other one under the cap 1.
* `RecordLayout.Checked.compute` — the same computation with each difference checked, and
  `RecordLayout.Checked.compute_eq`: no check fails, whatever the cap is.
* `RecordLayout.compute_of_not_isPowerOfTwo` — a cap that is no power of two either touches no field,
  and then counts for nothing, or there is no layout.
-/

namespace RecordLayout

variable {cap cap' start : Nat} {packed packed' : Bool} {fields : List Shape}
  {offsets offsets' : List Nat} {typeName : String}

/-! ### The layout as a whole -/

/-- The layout under a power of two: the least offsets, closed at the least multiple of the alignment
of the record, if that is a word. -/
theorem compute_eq (packed : Bool) (typeName : String) (hcap : cap.isPowerOfTwo) (hne : fields ≠ [])
    (h : ∀ f ∈ fields, f.Built) :
    compute cap packed typeName fields =
      let offsets := leastOffsets cap packed 0 fields
      let stop := stopOf 0 fields offsets
      let align := recordAlign cap packed fields
      let total := Word.roundUp stop align
      if total < Word.limit then
        .ok ⟨⟨align, packed, 0, stop, total - stop⟩, offsets, gapsOf 0 fields offsets⟩
      else .error .overflow := by
  have hpow := recordAlign_isPowerOfTwo packed hcap fun f hf => (h f hf).isPowerOfTwo
  have hplace : placeFields cap packed 0 fields = _ := placeFields_eq hcap h (by decide)
  simp only
  -- only where the fields end counts from here on, and not what the offsets are
  generalize leastOffsets cap packed 0 fields = offsets at hplace ⊢
  have hle := Word.le_roundUp (stopOf 0 fields offsets) (Word.pos_of_isPowerOfTwo hpow)
  unfold compute
  rw [if_neg hne, hplace]
  by_cases hstop : stopOf 0 fields offsets < Word.limit
  · have hclose : close packed ⟨offsets, gapsOf 0 fields offsets, stopOf 0 fields offsets,
        recordAlign cap packed fields⟩ = _ :=
      close_eq hpow (recordAlign_lt cap packed h) hstop
        fun hp => by rw [hp]; exact recordAlign_packed cap fields
    simp only [if_pos hstop, hclose]
    by_cases htotal : Word.roundUp (stopOf 0 fields offsets) (recordAlign cap packed fields) <
        Word.limit
    · simp only [if_pos htotal]
    · simp only [if_neg htotal]
  · -- the record does not end before its fields do
    simp only [if_neg hstop]
    rw [if_neg (by omega)]

/-- The pass sees nothing of a cap but the alignments that it leaves to the fields. -/
theorem placeFields_congr
    (h : ∀ f ∈ fields, f.align.isPowerOfTwo → fieldAlign cap packed f = fieldAlign cap' packed' f)
    (start : Nat) : placeFields cap packed start fields = placeFields cap' packed' start fields := by
  induction fields generalizing start with
  | nil => rfl
  | cons field fields ih =>
    obtain ⟨hfield, hfields⟩ := List.forall_mem_cons.1 h
    unfold placeFields
    by_cases hpow : field.align.isPowerOfTwo
    · simp only [if_pos hpow, hfield hpow, ih hfields]
    · simp only [if_neg hpow]

/-- A cap only matters through what it leaves of the alignments of the fields. -/
theorem compute_congr (typeName : String)
    (h : ∀ f ∈ fields, f.align.isPowerOfTwo → fieldAlign cap packed f = fieldAlign cap' packed f) :
    compute cap packed typeName fields = compute cap' packed typeName fields := by
  unfold compute
  rw [placeFields_congr h]

/-! ### A smaller cap -/

/-- A larger cap leaves a field at least as aligned. -/
theorem fieldAlign_le_of_cap_le (packed : Bool) (hle : cap ≤ cap') (field : Shape) :
    fieldAlign cap packed field ≤ fieldAlign cap' packed field := by
  unfold fieldAlign
  split
  · exact le_rfl
  · exact min_le_min_left _ hle

/-- A larger cap leaves the record at least as aligned. -/
theorem recordAlign_le_of_cap_le (packed : Bool) (hle : cap ≤ cap') (fields : List Shape) :
    recordAlign cap packed fields ≤ recordAlign cap' packed fields := by
  induction fields with
  | nil => exact le_rfl
  | cons field fields ih => exact max_le_max (fieldAlign_le_of_cap_le packed hle field) ih

/-- Offsets that a cap allows are allowed by every smaller one: there each alignment divides what it
was. -/
theorem Admits.of_cap_le (hcap : cap.isPowerOfTwo) (hcap' : cap'.isPowerOfTwo) (hle : cap ≤ cap')
    (hpow : ∀ f ∈ fields, f.align.isPowerOfTwo) (h : Admits cap' packed start fields offsets) :
    Admits cap packed start fields offsets := by
  induction fields generalizing start offsets with
  | nil => cases offsets <;> exact h
  | cons field fields ih =>
    cases offsets with
    | nil => exact h.elim
    | cons offset offsets =>
      obtain ⟨hfield, hfields⟩ := List.forall_mem_cons.1 hpow
      obtain ⟨hroom, hdvd, hrest⟩ := h
      -- of two powers of two the smaller one divides the larger
      have hsmaller : fieldAlign cap packed field ∣ fieldAlign cap' packed field :=
        Word.dvd_of_isPowerOfTwo (fieldAlign_isPowerOfTwo packed hcap hfield)
          (fieldAlign_isPowerOfTwo packed hcap' hfield) (fieldAlign_le_of_cap_le packed hle field)
      exact ⟨hroom, Nat.dvd_trans hsmaller hdvd, ih hfields hrest⟩

/-- Fields that are nowhere further on do not end further on. -/
theorem stopOf_le {start' : Nat} (h : List.Forall₂ (· ≤ ·) offsets offsets') (hstart : start ≤ start') :
    stopOf start fields offsets ≤ stopOf start' fields offsets' := by
  induction h generalizing start start' fields with
  | nil => cases fields <;> exact hstart
  | cons hle _ ih =>
    cases fields with
    | nil => exact hstart
    | cons field fields => exact ih (Nat.add_le_add_right hle _)

/-! ### Packed records -/

/-- The same layout, as that of a packed record. -/
def asPacked (l : RecordLayout) : RecordLayout :=
  { l with shape := { l.shape with packed := true } }

/-- Where the pass over the fields succeeds, the fields end at a word. -/
theorem stop_lt_of_placeFields {placed : Placed} (hstart : start < Word.limit)
    (h : placeFields cap packed start fields = .ok placed) : placed.stop < Word.limit := by
  induction fields generalizing start placed with
  | nil =>
    cases h
    exact hstart
  | cons field fields ih =>
    obtain ⟨-, offset, stop, later, -, hstop, hlater, rfl⟩ := placeFields_cons_eq_ok_iff.1 h
    obtain ⟨hword, rfl⟩ := Word.add?_eq_some_iff.1 hstop
    show later.stop < Word.limit
    exact ih hword hlater

/-- With cap one, nothing is aligned. -/
theorem recordAlign_one (h : ∀ f ∈ fields, f.align.isPowerOfTwo) : recordAlign 1 false fields = 1 :=
  Nat.le_antisymm (recordAlign_le fields Nat.one_pos)
    (Word.pos_of_isPowerOfTwo (recordAlign_isPowerOfTwo false ⟨0, rfl⟩ h))

/-- A packed record is laid out like any other one under the cap 1. -/
theorem compute_packed (cap : Nat) (typeName : String) (fields : List Shape) :
    compute cap true typeName fields = (compute 1 false typeName fields).map asPacked := by
  have hplace : placeFields cap true 0 fields = placeFields 1 false 0 fields :=
    placeFields_congr (fun f _ hpow => (min_eq_right (Word.pos_of_isPowerOfTwo hpow)).symm) 0
  unfold compute
  rw [hplace]
  by_cases hne : fields = []
  · simp only [if_pos hne]
    rfl
  · simp only [if_neg hne]
    cases hplaced : placeFields 1 false 0 fields with
    | error e => rfl
    | ok placed =>
      -- every field has the alignment 1, and so has the record: it is closed where its fields end
      have halign : placed.align = 1 := by
        rw [align_of_placeFields hplaced, recordAlign_one (isPowerOfTwo_of_placeFields hplaced)]
      have hpow : placed.align.isPowerOfTwo := by
        rw [halign]
        exact ⟨0, rfl⟩
      have hword : placed.align < Word.limit := by
        rw [halign]
        decide
      have hstop := stop_lt_of_placeFields (by decide) hplaced
      have hclose := fun packed => @close_eq packed _ hpow hword hstop fun _ => halign
      have htotal : Word.roundUp placed.stop placed.align < Word.limit := by
        rwa [halign, Word.roundUp_one]
      simp only [hclose, if_pos htotal]
      rfl

/-- A smaller cap refuses no record that a larger one accepts, moves none of its fields back, and makes
it neither larger nor more aligned.  A packed record is laid out as under the cap 1, whatever its own
cap is. -/
theorem compute_le_of_cap_le (typeName : String) (hcap : cap.isPowerOfTwo)
    (hcap' : cap'.isPowerOfTwo) (hle : cap ≤ cap') (h : ∀ f ∈ fields, f.Built) :
    (∀ wide, compute cap' false typeName fields = .ok wide →
      ∃ narrow, compute cap false typeName fields = .ok narrow ∧
        List.Forall₂ (· ≤ ·) narrow.offsets wide.offsets ∧ narrow.size ≤ wide.size ∧
        narrow.shape.align ≤ wide.shape.align) ∧
    ∀ other, compute other true typeName fields = (compute 1 false typeName fields).map asPacked := by
  refine ⟨fun wide hwide => ?_, fun other => compute_packed other typeName fields⟩
  have hne : fields ≠ [] := by
    rintro rfl
    cases hwide
  have hpow : ∀ f ∈ fields, f.align.isPowerOfTwo := fun f hf => (h f hf).isPowerOfTwo
  rw [compute_eq false typeName hcap' hne h] at hwide
  rw [compute_eq false typeName hcap hne h]
  -- the offsets under the larger cap are allowed under the smaller one, so the least are no larger
  have hadmits := (admits_leastOffsets false hcap' h 0).of_cap_le hcap hcap' hle hpow
  have hoffsets := leastOffsets_le hadmits le_rfl
  have hstop : stopOf 0 fields (leastOffsets cap false 0 fields) ≤ _ := stopOf_le hoffsets le_rfl
  have halign := recordAlign_le_of_cap_le false hle fields
  have halignPow := recordAlign_isPowerOfTwo false hcap hpow
  have halignPow' := recordAlign_isPowerOfTwo false hcap' hpow
  have hdvd := Word.dvd_of_isPowerOfTwo halignPow halignPow' halign
  simp only at hwide ⊢
  generalize leastOffsets cap' false 0 fields = offsets' at hwide hoffsets hstop
  generalize leastOffsets cap false 0 fields = offsets at hoffsets hstop ⊢
  have hend := Word.le_roundUp (stopOf 0 fields offsets) (Word.pos_of_isPowerOfTwo halignPow)
  have hend' := Word.le_roundUp (stopOf 0 fields offsets') (Word.pos_of_isPowerOfTwo halignPow')
  -- the end of the larger record is a multiple of the smaller alignment, too
  have htotal : Word.roundUp (stopOf 0 fields offsets) (recordAlign cap false fields) ≤
      Word.roundUp (stopOf 0 fields offsets') (recordAlign cap' false fields) :=
    Word.roundUp_le (Nat.dvd_trans hdvd (Word.dvd_roundUp _ _)) (Nat.le_trans hstop hend')
  split at hwide
  next hfits =>
    cases hwide
    rw [if_pos (lt_of_le_of_lt htotal hfits)]
    refine ⟨_, rfl, hoffsets, ?_, halign⟩
    show stopOf 0 fields offsets + (_ - _) ≤ stopOf 0 fields offsets' + (_ - _)
    omega
  next => cases hwide

/-- A double behind an integer, and a byte behind both: at most four bytes of alignment leave no gap
between them, so the record has 16 bytes instead of 24. -/
theorem compute_le_of_cap_le_double :
    let fields : List Shape := [⟨4, false, 0, 4, 0⟩, ⟨8, false, 0, 8, 0⟩, ⟨1, false, 0, 1, 0⟩]
    (∀ f ∈ fields, f.Built) ∧ Abi.cap .sysVI386 ≤ Abi.cap .msvcX64 ∧
      ∃ narrow wide, Abi.layout .sysVI386 false anonymous fields = .ok narrow ∧
        Abi.layout .msvcX64 false anonymous fields = .ok wide ∧
        narrow.offsets = [0, 4, 12] ∧ wide.offsets = [0, 8, 16] ∧
        List.Forall₂ (· ≤ ·) narrow.offsets wide.offsets ∧ narrow.size = 16 ∧ wide.size = 24 ∧
        Abi.layout .msvcX64 true anonymous fields = (compute 1 false anonymous fields).map asPacked := by
  intro fields
  have hbuilt : ∀ f ∈ fields, f.Built := by
    intro f hf
    simp only [fields, List.mem_cons, List.not_mem_nil, or_false] at hf
    rcases hf with rfl | rfl | rfl
    · exact .padded (by decide) (Shape.padded?_eq_ok_iff.2 ⟨by decide, by decide, rfl⟩)
    · exact .padded (by decide) (Shape.padded?_eq_ok_iff.2 ⟨by decide, by decide, rfl⟩)
    · exact .padded (by decide) (Shape.padded?_eq_ok_iff.2 ⟨by decide, by decide, rfl⟩)
  have hwide : Abi.layout .msvcX64 false anonymous fields =
      .ok ⟨⟨8, false, 0, 17, 7⟩, [0, 8, 16], [0, 4, 0]⟩ := by decide
  have hnarrow : Abi.layout .sysVI386 false anonymous fields =
      .ok ⟨⟨4, false, 0, 13, 3⟩, [0, 4, 12], [0, 0, 0]⟩ := by decide
  obtain ⟨hcaps, hpacked⟩ := compute_le_of_cap_le anonymous (Abi.cap_isPowerOfTwo .sysVI386)
    (Abi.cap_isPowerOfTwo .msvcX64) (by decide) hbuilt
  -- the theorem finds some narrow layout, which can only be this one
  obtain ⟨narrow, hlayout, hoffsets, -, -⟩ := hcaps _ hwide
  cases hlayout.symm.trans hnarrow
  exact ⟨hbuilt, by decide, _, _, hnarrow, hwide, rfl, rfl, hoffsets, rfl, rfl, hpacked _⟩

/-! ### Differences that do not fall below zero -/

namespace Checked

/-- The difference of two words, if it is one. -/
def sub? (a b : Nat) : Option Nat := if b ≤ a then some (a - b) else none

/-- The pass over the fields, with the gap in front of each field checked: no answer at all, if the
field would be in front of the place from where the gap is counted. -/
def placeFields (cap : Nat) (packed : Bool) (start : Nat) :
    List Shape → Option (Except LayoutError Placed)
  | [] => some (.ok { offsets := [], gaps := [], stop := start, align := 1 })
  | field :: rest =>
    if field.align.isPowerOfTwo then
      let align := fieldAlign cap packed field
      match (Word.add? start field.pre).bind (Word.roundUp? · align) with
      | none => some (.error .overflow)
      | some offset =>
        (sub? offset start).bind fun gap =>
          match Word.add? offset field.extent with
          | none => some (.error .overflow)
          | some stop =>
            (placeFields cap packed stop rest).map fun answer => answer.map fun placed =>
              { offsets := offset :: placed.offsets
                gaps := gap :: placed.gaps
                stop := placed.stop
                align := max align placed.align }
    else some (.error (.notPowerOfTwo field.align))

/-- The record around the fields, with its trailing padding checked. -/
def close (packed : Bool) (placed : Placed) : Option (Except LayoutError Shape) :=
  if packed then some (.ok (.compressed placed.stop))
  else
    match Word.roundUp? placed.stop placed.align with
    | none => some (.error .overflow)
    | some total => (sub? total placed.stop).map (Shape.padded? placed.stop placed.align 0)

/-- The layout, with every difference checked. -/
def compute (cap : Nat) (packed : Bool) (typeName : String) (fields : List Shape) :
    Option (Except LayoutError RecordLayout) :=
  if fields = [] then some (.error (.emptyRecord typeName))
  else
    (placeFields cap packed 0 fields).bind fun
      | .error e => some (.error e)
      | .ok placed =>
        (close packed placed).map fun answer => answer.map fun shape =>
          { shape, offsets := placed.offsets, gaps := placed.gaps }

/-- A difference that does not go below zero. -/
theorem sub?_of_le {a b : Nat} (h : b ≤ a) : sub? a b = some (a - b) := if_pos h

/-- A field is never in front of the place where the one before it ends. -/
theorem placeFields_eq (cap : Nat) (packed : Bool) (start : Nat) (fields : List Shape) :
    placeFields cap packed start fields = some (RecordLayout.placeFields cap packed start fields) := by
  induction fields generalizing start with
  | nil => rfl
  | cons field fields ih =>
    unfold placeFields RecordLayout.placeFields
    by_cases hpow : field.align.isPowerOfTwo
    · simp only [if_pos hpow]
      cases hoffset : (Word.add? start field.pre).bind
          (Word.roundUp? · (fieldAlign cap packed field)) with
      | none => rfl
      | some offset =>
        obtain ⟨begin, hbegin, hround⟩ := Option.bind_eq_some_iff.1 hoffset
        obtain ⟨-, rfl⟩ := Word.add?_eq_some_iff.1 hbegin
        -- rounding never goes down, so what is subtracted is no larger
        have hle := Word.le_of_roundUp?_eq_some hround
        simp only [sub?_of_le (show start ≤ offset by omega), Option.bind_some]
        cases Word.add? offset field.extent with
        | none => rfl
        | some stop =>
          simp only [ih]
          cases RecordLayout.placeFields cap packed stop fields <;> rfl
    · simp only [if_neg hpow]

/-- Closing a layout never goes below zero: the total is rounded up. -/
theorem close_eq (packed : Bool) (placed : Placed) :
    close packed placed = some (RecordLayout.close packed placed) := by
  unfold close RecordLayout.close
  split
  · rfl
  · cases htotal : Word.roundUp? placed.stop placed.align with
    | none => rfl
    | some total => simp only [sub?_of_le (Word.le_of_roundUp?_eq_some htotal), Option.map_some]

/-- No check fails, whatever the cap is: clearing low bits of a sum takes no more than was added. -/
theorem compute_eq (cap : Nat) (packed : Bool) (typeName : String) (fields : List Shape) :
    compute cap packed typeName fields = some (RecordLayout.compute cap packed typeName fields) := by
  unfold compute RecordLayout.compute
  rw [placeFields_eq]
  split
  · rfl
  · cases RecordLayout.placeFields cap packed 0 fields with
    | error e => rfl
    | ok placed =>
      simp only [Option.bind_some, close_eq, Option.map_some]
      cases RecordLayout.close packed placed <;> rfl

end Checked

/-! ### A cap that is no power of two -/

/-- A cap that touches a field becomes the alignment of the record. -/
theorem recordAlign_eq_cap (hpos : 0 < cap) (h : ∃ f ∈ fields, cap < f.align) :
    recordAlign cap false fields = cap := by
  obtain ⟨field, hfield, hlt⟩ := h
  have hkept : fieldAlign cap false field = cap := min_eq_right (Nat.le_of_lt hlt)
  have hle := fieldAlign_le_recordAlign cap false hfield
  rw [hkept] at hle
  exact Nat.le_antisymm (recordAlign_le fields hpos) hle

/-- The pass itself has nothing against a cap, it can only run out of words. -/
theorem eq_overflow_of_placeFields {e : LayoutError} (hpow : ∀ f ∈ fields, f.align.isPowerOfTwo)
    (h : placeFields cap packed start fields = .error e) : e = .overflow := by
  induction fields generalizing start with
  | nil => cases h
  | cons field fields ih =>
    obtain ⟨hfield, hfields⟩ := List.forall_mem_cons.1 hpow
    unfold placeFields at h
    simp only [if_pos hfield] at h
    split at h
    next => cases h; rfl
    next =>
      split at h
      next => cases h; rfl
      next =>
        split at h
        next hrest =>
          cases h
          exact ih hfields hrest
        next => cases h

/-- A record is not closed at an alignment that is no power of two. -/
theorem close_of_not_isPowerOfTwo {placed : Placed} (h : ¬ placed.align.isPowerOfTwo) :
    close false placed = .error (.notPowerOfTwo placed.align) ∨
      close false placed = .error .overflow := by
  unfold close
  simp only [Bool.false_eq_true, if_false]
  split
  next => exact .inr rfl
  next =>
    unfold Shape.padded?
    rw [if_neg h]
    exact .inl rfl

/-- Under a cap that is no power of two there is no layout, if a field has a larger alignment: the record
would get the cap as its own.  No difference falls below zero on the way to that error.  If no field
has, the layout is the one under any other cap that leaves the fields alone, and a packed record has the
same layout under all caps. -/
theorem compute_of_not_isPowerOfTwo (typeName : String) (hpos : 0 < cap) (hcap : ¬ cap.isPowerOfTwo)
    (h : ∀ f ∈ fields, f.Built) :
    ((∃ f ∈ fields, cap < f.align) →
      (compute cap false typeName fields = .error (.notPowerOfTwo cap) ∨
        compute cap false typeName fields = .error .overflow) ∧
      Checked.compute cap false typeName fields = some (compute cap false typeName fields)) ∧
    ((∀ f ∈ fields, f.align ≤ cap) → ∀ cap', (∀ f ∈ fields, f.align ≤ cap') →
      compute cap false typeName fields = compute cap' false typeName fields) ∧
    ∀ cap', compute cap true typeName fields = compute cap' true typeName fields := by
  have hpow : ∀ f ∈ fields, f.align.isPowerOfTwo := fun f hf => (h f hf).isPowerOfTwo
  refine ⟨?_, ?_, ?_⟩
  · intro htouched
    refine ⟨?_, Checked.compute_eq cap false typeName fields⟩
    have hne : fields ≠ [] := by
      rintro rfl
      obtain ⟨f, hf, -⟩ := htouched
      cases hf
    unfold compute
    simp only [if_neg hne]
    cases hplaced : placeFields cap false 0 fields with
    | error e =>
      rw [eq_overflow_of_placeFields hpow hplaced]
      exact .inr rfl
    | ok placed =>
      -- the placing goes through, and its alignment is the cap, which closing refuses
      have halign : placed.align = cap := by
        rw [align_of_placeFields hplaced, recordAlign_eq_cap hpos htouched]
      have hpow : ¬ placed.align.isPowerOfTwo := by rwa [halign]
      have hclose := close_of_not_isPowerOfTwo hpow
      rw [halign] at hclose
      rcases hclose with hclose | hclose
      · simp only [hclose]
        exact .inl trivial
      · simp only [hclose]
        exact .inr trivial
  · intro hkept cap' hkept'
    refine compute_congr typeName fun f hf _ => ?_
    show min f.align cap = min f.align cap'
    rw [min_eq_left (hkept f hf), min_eq_left (hkept' f hf)]
  · exact fun cap' => compute_congr typeName fun _ _ _ => rfl

/-- The cap 3 clears one bit of each sum, and would become the alignment of a record with a double.  A
record of small numbers does not see it. -/
theorem compute_of_not_isPowerOfTwo_three :
    let small : Shape := ⟨2, false, 1, 3, 0⟩
    let double : Shape := ⟨8, false, 0, 8, 0⟩
    ¬ Nat.isPowerOfTwo 3 ∧ small.Built ∧ double.Built ∧
      compute 3 false anonymous [small, double] = .error (.notPowerOfTwo 3) ∧
      Checked.compute 3 false anonymous [small, double] = some (.error (.notPowerOfTwo 3)) ∧
      compute 3 false anonymous [small, small] = compute 2 false anonymous [small, small] ∧
      compute 3 true anonymous [small, double] = compute 16 true anonymous [small, double] := by
  intro small double
  have hthree : ¬ Nat.isPowerOfTwo 3 := by decide
  have hsmall : small.Built :=
    .padded (by decide) (Shape.padded?_eq_ok_iff.2 ⟨by decide, by decide, rfl⟩)
  have hdouble : double.Built :=
    .padded (by decide) (Shape.padded?_eq_ok_iff.2 ⟨by decide, by decide, rfl⟩)
  have hboth : ∀ f ∈ [small, double], f.Built :=
    List.forall_mem_cons.2 ⟨hsmall, List.forall_mem_singleton.2 hdouble⟩
  have htwice : ∀ f ∈ [small, small], f.Built :=
    List.forall_mem_cons.2 ⟨hsmall, List.forall_mem_singleton.2 hsmall⟩
  obtain ⟨htouched, -, hpacked⟩ :=
    compute_of_not_isPowerOfTwo anonymous (by decide : 0 < 3) hthree hboth
  obtain ⟨-, hkept, -⟩ := compute_of_not_isPowerOfTwo anonymous (by decide : 0 < 3) hthree htwice
  obtain ⟨herror, hchecked⟩ := htouched ⟨double, by decide, by decide⟩
  have hresult : compute 3 false anonymous [small, double] = .error (.notPowerOfTwo 3) := by
    rcases herror with herror | herror
    · exact herror
    · exact absurd herror (by decide)
  rw [hresult] at hchecked
  exact ⟨hthree, hsmall, hdouble, hresult, hchecked, hkept (by decide) 2 (by decide), hpacked 16⟩

end RecordLayout

end NativeLayout
