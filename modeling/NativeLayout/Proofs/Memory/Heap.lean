import NativeLayout.Memory.Heap

namespace NativeLayout.Heap

/-!
# What memory holds after a change

* `Has` — a region that was made, which no change takes away (`has_modify`, `has_of_allocate`).
* `length_of_allocate`, `allocate_eq_error_iff` — a region is made unless it passes the size limit.
* `content_modify_self`, `content_modify_of_ne` — a change concerns the bytes of one region.
* `read_write_inside`, `read_write_of_disjoint` — what is written is read again, each part of it on
  its own, and what lies apart from it is read as before.
* `content_fill_inside`, `sameOutside_fill` — cleared bytes are zero, and no others change.
* `write_append` — two writes of which the second goes on where the first ends are one.
* `SameInside`, `SameOutside` — memories with the same bytes in a run, or everywhere else, as before
  and after a write (`sameOutside_write`).
-/

variable {h : Heap} {r r' : Region} {f : Content → Content}

/-- A region of this memory. -/
def Has (h : Heap) (r : Region) : Prop := ∃ block ∈ h.blocks, block.region = r

/-- A change neither makes nor takes away a region. -/
theorem has_modify : (h.modify r f).Has r' ↔ h.Has r' := by
  constructor
  · rintro ⟨block, hblock, rfl⟩
    obtain ⟨before, hbefore, rfl⟩ := List.mem_map.1 hblock
    refine ⟨before, hbefore, ?_⟩
    split <;> rfl
  · rintro ⟨block, hblock, rfl⟩
    refine ⟨_, List.mem_map_of_mem hblock, ?_⟩
    split <;> rfl

/-- A region that is granted is there, with the length that was asked for. -/
theorem has_of_allocate {length align : Nat} {h' : Heap}
    (ha : h.allocate length align = .ok (r, h')) : h'.Has r ∧ r.length = length := by
  unfold allocate at ha
  split at ha
  · split at ha
    · cases ha
      exact ⟨⟨_, List.mem_cons_self, rfl⟩, rfl⟩
    · cases ha
  · cases ha

/-- A region that was made is no larger than the limit. -/
theorem length_of_allocate {length align : Nat} {h' : Heap}
    (ha : h.allocate length align = .ok (r, h')) : r.length = length ∧ length + align ≤ sizeLimit := by
  unfold allocate at ha
  split at ha
  · split at ha
    next hfits =>
      cases ha
      exact ⟨rfl, by omega⟩
    next => cases ha
  · cases ha

/-- Only the limit keeps a region from being made. -/
theorem allocate_eq_error_iff {length align : Nat} (halign : align.isPowerOfTwo) {e : LayoutError} :
    h.allocate length align = .error e ↔ e = .overflow ∧ sizeLimit < max length 1 + align := by
  rw [allocate, if_pos halign]
  split
  next hfits =>
    simp only [reduceCtorEq, false_iff, not_and, Nat.not_lt]
    exact fun _ => hfits
  next hfits =>
    rw [Except.error.injEq]
    exact ⟨fun heq => ⟨heq.symm, Nat.lt_of_not_le hfits⟩, fun heq => heq.1.symm⟩

/-- The block of a region is found as before, changed if the change is for it. -/
theorem find?_modify : (h.modify r f).blocks.find? (fun b => b.region.number = r'.number) =
    (h.blocks.find? fun b => b.region.number = r'.number).map fun block =>
      if block.region.number = r.number then { block with content := f block.content }
      else block := by
  rw [modify, List.find?_map]
  congr 2
  funext block
  simp only [Function.comp]
  split <;> rfl

/-- A change of a region shows in its bytes. -/
theorem content_modify_self (hr : h.Has r) : (h.modify r f).content r = f (h.content r) := by
  obtain ⟨block, hblock, rfl⟩ := hr
  unfold content
  rw [find?_modify]
  cases hfind : h.blocks.find? fun b => b.region.number = block.region.number with
  | none => exact absurd (decide_eq_true rfl) (List.find?_eq_none.1 hfind block hblock)
  | some found =>
    have hnumber : found.region.number = block.region.number := by simpa using List.find?_some hfind
    rw [Option.map_some, if_pos hnumber]

/-- A change of one region does not show in another one. -/
theorem content_modify_of_ne (hne : r'.number ≠ r.number) :
    (h.modify r f).content r' = h.content r' := by
  unfold content
  rw [find?_modify]
  cases hfind : h.blocks.find? fun b => b.region.number = r'.number with
  | none => rfl
  | some found =>
    have hnumber : found.region.number = r'.number := by simpa using List.find?_some hfind
    rw [Option.map_some, if_neg (by rwa [hnumber])]

/-- Equal numbers, equal bytes. -/
theorem content_congr (heq : r'.number = r.number) : h.content r' = h.content r := by
  unfold content
  rw [heq]

/-! ### Reading and writing -/

variable {offset start count : Nat} {bytes : List UInt8}

/-- Two memories that only differ in some bytes of one region. -/
def SameOutside (h h' : Heap) (r : Region) (start stop : Nat) : Prop :=
  ∀ (r' : Region) (i : Nat), r'.number ≠ r.number ∨ i < start ∨ stop ≤ i →
    h'.content r' i = h.content r' i

/-- Two memories that have the same bytes in a run of one region. -/
def SameInside (h h' : Heap) (r : Region) (start stop : Nat) : Prop :=
  ∀ i, start ≤ i → i < stop → h'.content r i = h.content r i

/-- Memory that is left alone is the same everywhere. -/
theorem SameOutside.refl (h : Heap) (r : Region) (start stop : Nat) : h.SameOutside h r start stop :=
  fun _ _ _ => rfl

/-- A write only changes the bytes it covers. -/
theorem sameOutside_write {stop : Nat} (hr : h.Has r) (hstart : start ≤ offset)
    (hstop : offset + bytes.length ≤ stop) :
    h.SameOutside (h.write r offset bytes) r start stop := by
  intro r' i hi
  unfold write
  by_cases hsame : r'.number = r.number
  · rw [content_congr hsame, content_congr hsame, content_modify_self hr]
    apply Content.write_outside
    rw [List.size_toArray]
    have hrange := hi.resolve_left (not_not_intro hsame)
    omega
  · exact congrFun (content_modify_of_ne hsame) i

/-- Cleared bytes are zero, also in a region that was never made. -/
theorem content_fill_inside {i : Nat} (hi : offset ≤ i ∧ i < offset + count) :
    (h.fill r offset count).content r i = 0 := by
  unfold fill content
  rw [find?_modify]
  cases hfind : h.blocks.find? fun b => b.region.number = r.number with
  | none => rfl
  | some found =>
    have hnumber : found.region.number = r.number := by simpa using List.find?_some hfind
    rw [Option.map_some, if_pos hnumber]
    exact Content.fill_inside _ hi

/-- Clearing only changes the bytes it covers. -/
theorem sameOutside_fill : h.SameOutside (h.fill r offset count) r offset (offset + count) := by
  intro r' i hi
  -- in the region itself, the bytes around the cleared ones stay; in another one, all do
  by_cases hsame : r'.number = r.number
  · have hrange := hi.resolve_left (not_not_intro hsame)
    rw [content_congr hsame, content_congr hsame]
    unfold fill content
    rw [find?_modify]
    cases hfind : h.blocks.find? fun b => b.region.number = r.number with
    | none => rfl
    | some found =>
      have hnumber : found.region.number = r.number := by simpa using List.find?_some hfind
      rw [Option.map_some, if_pos hnumber]
      exact Content.fill_outside _ hrange
  · exact congrFun (content_modify_of_ne hsame) i

/-- What was written is read. -/
theorem read_write_self (hr : h.Has r) :
    (h.write r offset bytes).read r offset bytes.length = bytes := by
  rw [read, write, content_modify_self hr]
  simpa using Content.read_write (h.content r) offset bytes.toArray

/-- A part of a run of bytes. -/
theorem read_part {length part : Nat} (hpart : part + count ≤ length) :
    ((h.read r offset length).drop part).take count = h.read r (offset + part) count := by
  apply List.ext_getElem?
  intro i
  rw [read, read, List.getElem?_take, Content.getElem?_read]
  by_cases hi : i < count
  · rw [if_pos hi, if_pos hi, List.getElem?_drop, Content.getElem?_read, if_pos (by omega),
      Nat.add_assoc]
  · rw [if_neg hi, if_neg hi]

/-- A part of what was written is read as that part. -/
theorem read_write_inside (hr : h.Has r) {part : Nat} (hpart : part + count ≤ bytes.length) :
    (h.write r offset bytes).read r (offset + part) count = (bytes.drop part).take count := by
  rw [← read_part hpart, read_write_self hr]

/-- A run of bytes of which the first ones are written. -/
theorem read_write_front (hr : h.Has r) (hfits : bytes.length ≤ count) :
    (h.write r offset bytes).read r offset count =
      bytes ++ (h.read r offset count).drop bytes.length := by
  rw [read, read, write, content_modify_self hr]
  apply List.ext_getElem?
  intro i
  rw [Content.getElem?_read]
  by_cases hi : i < bytes.length
  · rw [if_pos (by omega), List.getElem?_append_left hi, Content.write, if_pos (by omega),
      Nat.add_sub_cancel_left, List.getElem?_toArray, List.getElem?_eq_getElem hi]
  · have hbehind := Nat.le_of_not_lt hi
    rw [List.getElem?_append_right hbehind, List.getElem?_drop, Nat.add_sub_cancel' hbehind,
      Content.getElem?_read, Content.write_outside _ (.inr (by rw [List.size_toArray]; omega))]

/-- A read apart from a write sees what was there before. -/
theorem read_write_of_disjoint (hr : h.Has r)
    (hd : start + count ≤ offset ∨ offset + bytes.length ≤ start) :
    (h.write r offset bytes).read r start count = h.read r start count := by
  rw [read, read, write, content_modify_self hr]
  exact Content.read_write_of_disjoint _ (by simpa using hd)

/-- Only the bytes that are read matter. -/
theorem read_congr {h' : Heap} (hsame : h.SameInside h' r offset (offset + count)) :
    h'.read r offset count = h.read r offset count := by
  apply List.ext_getElem?
  intro i
  rw [read, read, Content.getElem?_read, Content.getElem?_read]
  by_cases hi : i < count
  · rw [if_pos hi, if_pos hi, hsame _ (by omega) (by omega)]
  · rw [if_neg hi, if_neg hi]

/-! ### One write after the other -/

/-- Two changes of a region are one. -/
theorem modify_modify (h : Heap) (r : Region) (f g : Content → Content) :
    (h.modify r f).modify r g = h.modify r fun c => g (f c) := by
  simp only [modify, List.map_map, Heap.mk.injEq, and_true]
  refine List.map_congr_left fun block _ => ?_
  simp only [Function.comp]
  by_cases hnumber : block.region.number = r.number
  · simp only [if_pos hnumber]
  · simp only [if_neg hnumber]

/-- Writing nothing changes nothing. -/
theorem write_nil (h : Heap) (r : Region) (offset : Nat) : h.write r offset [] = h := by
  have hcontent : ∀ c : Content, c.write offset [].toArray = c := by
    intro c
    funext i
    by_cases hi : offset ≤ i
    · exact Content.write_outside c (.inr (by simpa using hi))
    · exact Content.write_outside c (.inl (Nat.lt_of_not_le hi))
  simp only [write, modify, hcontent, ite_self, List.map_id']

/-- Bytes that are written in two parts. -/
theorem write_append (h : Heap) (r : Region) (offset : Nat) (first rest : List UInt8) :
    (h.write r offset first).write r (offset + first.length) rest =
      h.write r offset (first ++ rest) := by
  simp only [write, modify_modify]
  congr 1
  funext c i
  -- byte by byte: in front of both parts, in the first one, or from the second one on
  by_cases hi : offset ≤ i
  · by_cases hfirst : i < offset + first.length
    · -- the second part is behind this byte
      have hinner : i - offset < first.length := by omega
      rw [Content.write_outside _ (.inl hfirst), Content.write, if_pos hi, Content.write, if_pos hi]
      simp only [List.getElem?_toArray, List.getElem?_append_left hinner]
    · have hfirst := Nat.le_of_not_lt hfirst
      have hinner : c.write offset first.toArray i = c i :=
        Content.write_outside c (.inr (by simpa using hfirst))
      have hboth : (first ++ rest)[i - offset]? = rest[i - (offset + first.length)]? := by
        rw [List.getElem?_append_right (by omega), Nat.sub_sub]
      simp only [Content.write, if_pos hfirst, if_pos hi, List.getElem?_toArray, hboth] at hinner ⊢
      rw [hinner]
  · have hi := Nat.lt_of_not_le hi
    rw [Content.write_outside _ (.inl (by omega)), Content.write_outside c (.inl hi),
      Content.write_outside c (.inl hi)]

end NativeLayout.Heap
