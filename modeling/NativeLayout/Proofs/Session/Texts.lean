import Mathlib.Data.List.TakeWhile
import NativeLayout.Proofs.Session.Access
import NativeLayout.Proofs.Session.Route
import NativeLayout.Proofs.Session.World

namespace NativeLayout

/-!
# Texts that are written and read again

* `Text.bytes` — the UTF-8 bytes of a text.
* `Text.Longest` — the longest leading part of a text that there is room for.
* `Text.untilNul` — what is in front of the first zero character.
* `Node.Texted` — a text is put into a leaf, read, and put there again.
* `World.Reachable.texted` — that holds for every stored text leaf, text and memory.
-/

namespace Text

/-- The UTF-8 bytes of a text. -/
def bytes (text : String) : List UInt8 := text.toByteArray.data.toList

/-- The text in front of the first zero character. -/
def untilNul (text : String) : String := String.ofList (text.toList.takeWhile (· ≠ '\x00'))

/-- The longest leading part of a text, of whole characters, with at most some number of bytes. -/
structure Longest (room : Nat) (text part : String) : Prop where
  leading : part.toList <+: text.toList
  fits : part.utf8ByteSize ≤ room
  longest : ∀ other : String, other.toList <+: text.toList → other.utf8ByteSize ≤ room →
    other.toList <+: part.toList

variable {room : Nat} {text part : String}

/-- The bytes of a text are those of its characters. -/
theorem bytes_ofList (cs : List Char) : bytes (String.ofList cs) = encode cs := by
  rw [bytes, String.toByteArray_ofList, List.utf8Encode, List.data_toByteArray]
  rfl

/-- The size of a text is the number of its bytes. -/
theorem length_bytes (text : String) : (bytes text).length = text.utf8ByteSize := rfl

/-- The size of a text that is put together is that of its characters. -/
theorem utf8ByteSize_ofList (cs : List Char) :
    (String.ofList cs).utf8ByteSize = (encode cs).length := by
  rw [← length_bytes, bytes_ofList]

/-- There is one, and it is what is stored. -/
theorem longest_cut (room : Nat) (text : String) :
    Longest room text (String.ofList (cut room text.toList)) := by
  constructor
  · rw [String.toList_ofList]
    exact cut_prefix room text.toList
  · rw [utf8ByteSize_ofList]
    exact length_encode_cut_le room text.toList
  · intro other hleading hfits
    rw [String.toList_ofList]
    have hsize : (encode other.toList).length ≤ room := by
      rwa [← utf8ByteSize_ofList, String.ofList_toList]
    -- two leading parts of one text: the shorter one is a leading part of the other
    exact List.prefix_of_prefix_length_le hleading ( cut_prefix room text.toList)
      ((isGreatest_cut room text.toList).2 ⟨other.toList, hleading, hsize, rfl⟩)

/-- A text that there is room for is its own longest part. -/
theorem Longest.eq_of_fits (h : Longest room text part) (hfits : text.utf8ByteSize ≤ room) :
    part = text := by
  have hprefix : text.toList <+: part.toList := h.longest text (List.prefix_refl _) hfits
  exact String.toList_inj.1 (h.leading.eq_of_length_le hprefix.length_le)

/-- A text without a zero character is kept whole. -/
theorem untilNul_eq_self (h : '\x00' ∉ text.toList) : untilNul text = text := by
  have hall : text.toList.takeWhile (· ≠ '\x00') = text.toList := by
    rw [List.takeWhile_eq_self_iff]
    intro c hc
    exact decide_eq_true fun hzero => h (hzero ▸ hc)
  rw [untilNul, hall, String.ofList_toList]

/-- What is left in front of the first zero character has none. -/
theorem nul_notMem_untilNul (text : String) : '\x00' ∉ (untilNul text).toList := by
  rw [untilNul, String.toList_ofList]
  intro hmem
  have hne := List.mem_takeWhile_imp hmem
  exact absurd hne (by decide)

/-- What is in front of the first zero character needs no more room. -/
theorem utf8ByteSize_untilNul_le (text : String) : (untilNul text).utf8ByteSize ≤ text.utf8ByteSize := by
  obtain ⟨rest, hrest⟩ := List.takeWhile_prefix (l := text.toList) (· ≠ '\x00')
  have hwhole : text.utf8ByteSize = (encode text.toList).length := by
    rw [← utf8ByteSize_ofList, String.ofList_toList]
  rw [untilNul, utf8ByteSize_ofList, hwhole]
  conv_rhs => rw [← hrest]
  rw [encode, encode, List.flatMap_append, List.length_append]
  exact Nat.le_add_right _ _

end Text

namespace Node

open Text

/-- A text is put into a leaf of some bytes at the end of some steps, read, and put there again.  Some
part of it is what is stored, and some memory is there afterwards. -/
structure Texted (n : Node) (steps : List PathStep) (store : Store) (p : Placement) (capacity : Nat)
    (text part : String) (after : Store) : Prop where
  put : (Visit.putText text).along steps n store = ⟨n, after, .ok ()⟩
  longest : Longest (capacity - 1) text part
  /-- There is a zero byte behind the text. -/
  terminated : part.utf8ByteSize < capacity
  bytes : after.heap.read p.region p.offset capacity =
    Text.bytes part ++ List.replicate (capacity - part.utf8ByteSize) 0
  outside : store.heap.SameOutside after.heap p.region p.offset (p.offset + capacity)
  get : Visit.getText.along steps n after = ⟨n, after, .ok (untilNul part)⟩
  /-- A text that there is room for is read as it is. -/
  whole : text.utf8ByteSize ≤ capacity - 1 → '\x00' ∉ text.toList → untilNul part = text
  /-- What was read, put there again, is read again. -/
  again : ∃ later, (Visit.putText (untilNul part)).along steps n after = ⟨n, later, .ok ()⟩ ∧
    Visit.getText.along steps n later = ⟨n, later, .ok (untilNul part)⟩

variable {n : Node} {steps : List PathStep} {route : List Nat} {store : Store} {s : Shape}
  {p : Placement} {capacity : Nat}

/-- The bytes of a leaf that a text is put into. -/
theorem textBytes_eq (capacity : Nat) (text : String) : Leaf.textBytes capacity text =
    Text.bytes (String.ofList (cut (capacity - 1) text.toList)) ++ List.replicate
      (capacity - (String.ofList (cut (capacity - 1) text.toList)).utf8ByteSize) 0 := by
  rw [Leaf.textBytes, fitting_eq, bytes_ofList, utf8ByteSize_ofList]

/-- What is read of a text that was stored. -/
theorem storedText_eq (capacity : Nat) (text : String) : Leaf.storedText capacity text =
    untilNul (String.ofList (cut (capacity - 1) text.toList)) := by
  rw [Leaf.storedText, untilNul, String.toList_ofList]

section leaf

variable (hn : n.Sound) (hroute : n.route? steps = some route)
  (hm : n.at? route = some (.leaf (.allocated s p) (.text capacity)))

include hn hroute hm

/-- Putting a text writes all bytes of its leaf at once. -/
theorem putText_eq (store : Store) (text : String) : (Visit.putText text).along steps n store =
    ⟨n, ⟨store.heap.write p.region p.offset (Leaf.textBytes capacity text), store.shared⟩, .ok ()⟩ :=
  Visit.along_write hn hroute hm rfl

/-- What was put into a leaf is read up to its first zero character. -/
theorem getText_eq_of_read {text : String}
    (hread : store.heap.read p.region p.offset capacity = Leaf.textBytes capacity text) :
    Visit.getText.along steps n store = ⟨n, store, .ok (Leaf.storedText capacity text)⟩ := by
  refine Visit.along_eq_of_unchanged hn hroute hm ?_
  have htext : Leaf.readText store.heap (.allocated s p) capacity =
      .ok (Leaf.storedText capacity text) := by
    show Except.ok (String.ofList (Text.decode (untilZero (store.heap.read p.region p.offset capacity))))
      = _
    rw [hread, Leaf.textBytes, decode_untilZero_fitting, Leaf.storedText]
  simp only [Visit.getText, Visit.read, htext, Except.mapError]

/-- Any text can be put: the part that is stored is the longest one that leaves room for a zero byte. -/
theorem texted_of_text (hhas : store.heap.Has p.region) (text : String) :
    ∃ part after, n.Texted steps store p capacity text part after := by
  have hcapacity : capacity ≠ 0 := (Leaf.size_of_text ((hn.at hm).self_of s rfl)).2
  -- what is read after a text was put, whatever was there before
  have hread : ∀ (store : Store) (text : String), store.heap.Has p.region →
      (store.heap.write p.region p.offset (Leaf.textBytes capacity text)).read p.region p.offset
        capacity = Leaf.textBytes capacity text := by
    intro store text hhas
    have hself : (store.heap.write p.region p.offset (Leaf.textBytes capacity text)).read p.region
        p.offset (Leaf.textBytes capacity text).length = Leaf.textBytes capacity text :=
      Heap.read_write_self hhas
    rwa [Leaf.length_textBytes] at hself
  have hlongest := longest_cut (capacity - 1) text
  have hstored := storedText_eq capacity text
  generalize hpart : String.ofList (cut (capacity - 1) text.toList) = part at hlongest hstored
  have hfits : part.utf8ByteSize ≤ capacity - 1 := hlongest.fits
  refine ⟨part, ⟨store.heap.write p.region p.offset (Leaf.textBytes capacity text), store.shared⟩, ?_⟩
  constructor
  case put => exact putText_eq hn hroute hm store text
  case longest => exact hlongest
  case terminated => omega
  case bytes => rw [hread store text hhas, textBytes_eq, hpart]
  case outside =>
    exact Heap.sameOutside_write hhas (Nat.le_refl _) (by rw [Leaf.length_textBytes])
  case get =>
    rw [getText_eq_of_read hn hroute hm (hread store text hhas), hstored]
  case whole =>
    intro hroom hnul
    rw [hlongest.eq_of_fits hroom, untilNul_eq_self hnul]
  case again =>
    -- what was read has no zero character, and there is room for it
    have hroom : (untilNul part).utf8ByteSize ≤ capacity - 1 :=
      Nat.le_trans (utf8ByteSize_untilNul_le part) hfits
    have hsame : Leaf.storedText capacity (untilNul part) = untilNul part := by
      rw [storedText_eq, (longest_cut (capacity - 1) (untilNul part)).eq_of_fits hroom,
        untilNul_eq_self (nul_notMem_untilNul part)]
    refine ⟨_, putText_eq hn hroute hm _ _, ?_⟩
    rw [getText_eq_of_read hn hroute hm (hread _ (untilNul part) (Heap.has_modify.2 hhas)), hsame]

end leaf

end Node

namespace World

variable {w : World} {n : Node} {steps : List PathStep} {route : List Nat} {store : Store} {s : Shape}
  {p : Placement} {capacity : Nat}

/-- Any text, put into a stored leaf of any number of bytes, whatever is in memory. -/
theorem Reachable.texted (h : w.Reachable) (hn : n ∈ w.trees) (hroute : n.route? steps = some route)
    (hm : n.at? route = some (.leaf (.allocated s p) (.text capacity)))
    (hhas : store.heap.Has p.region) (text : String) :
    ∃ part after, n.Texted steps store p capacity text part after :=
  Node.texted_of_text (h.sound.trees n hn) hroute hm hhas text

/-- Four bytes in a region of their own. -/
def fourBytes : Node := .leaf (.allocated ⟨1, false, 0, 4, 0⟩ ⟨⟨1, 64, 4⟩, 0, .root⟩) (.text 4)

/-- There is a world with such a text in a region of its own. -/
theorem exists_fourBytes : ∃ w : World, w.Reachable ∧ fourBytes ∈ w.trees ∧
    w.store.heap.Has ⟨1, 64, 4⟩ := by
  have made := (Reachable.start 0).leaf (.text 4)
  have resolved := made.call 0 [] (c := .resolve) trivial
  exact ⟨_, resolved.call 0 [] (c := .allocate) trivial, List.mem_of_getElem? (i := 0) rfl,
    ⟨_, List.mem_cons_self, rfl⟩⟩

/-- There is room for three bytes: the first two of these characters. -/
theorem Reachable.texted_fourBytes : ∃ (w : World) (part : String) (after : Store), w.Reachable ∧
    fourBytes ∈ w.trees ∧ fourBytes.Texted [] w.store ⟨⟨1, 64, 4⟩, 0, .root⟩ 4 "né€" part after := by
  obtain ⟨w, hw, hn, hhas⟩ := exists_fourBytes
  obtain ⟨part, after, htexted⟩ := hw.texted hn (Node.route?_nil fourBytes) rfl hhas "né€"
  exact ⟨w, part, after, hw, hn, htexted⟩

end World

end NativeLayout
