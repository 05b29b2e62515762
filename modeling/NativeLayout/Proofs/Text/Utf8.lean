import Mathlib.Order.Bounds.Basic
import NativeLayout.Text.Utf8

namespace NativeLayout.Text

/-!
# Texts survive being stored

* `decode_encode` — the bytes of some characters are read as these characters.
* `cut` — the characters that there is room for: the longest run of leading characters whose bytes
  fit (`isGreatest_cut`).
* `decode_untilZero_fitting` — a text that is stored with zero bytes behind it is read as the part
  of it that fits, up to its first zero character.
-/

/-- The bytes of some characters. -/
def encode (cs : List Char) : List UInt8 := cs.flatMap String.utf8EncodeChar

/-- Character by character. -/
@[simp] theorem encode_cons (c : Char) (cs : List Char) :
    encode (c :: cs) = String.utf8EncodeChar c ++ encode cs := rfl

/-! ### Reading what was encoded -/

/-- The first byte of a character decides what is expected. -/
theorem decodeFrom_none_cons (b : UInt8) (rest : List UInt8) :
    decodeFrom none (b :: rest) = (lead b.toNat).1 ++ decodeFrom (lead b.toNat).2 rest := rfl

/-- A later byte completes a character, or is expected to go on, or breaks it off. -/
theorem decodeFrom_some_cons (p : Partial) (b : UInt8) (rest : List UInt8) :
    decodeFrom (some p) (b :: rest) =
      (extend p b.toNat).1 ++ decodeFrom (extend p b.toNat).2 rest := rfl

/-- The last byte of a character. -/
theorem decodeFrom_last {p : Partial} {b : UInt8} {rest : List UInt8}
    (h : p.low ≤ b.toNat ∧ b.toNat ≤ p.high) (hneeded : p.needed = 1) :
    decodeFrom (some p) (b :: rest) =
      Char.ofNat (64 * p.value + (b.toNat - 0x80)) :: decodeFrom none rest := by
  rw [decodeFrom_some_cons, extend, if_pos h]
  simp only [hneeded, if_true]
  rfl

/-- A byte in the middle of a character. -/
theorem decodeFrom_middle {p : Partial} {b : UInt8} {rest : List UInt8}
    (h : p.low ≤ b.toNat ∧ b.toNat ≤ p.high) (hneeded : p.needed ≠ 1) :
    decodeFrom (some p) (b :: rest) =
      decodeFrom (some ⟨64 * p.value + (b.toNat - 0x80), p.needed - 1, 0x80, 0xBF⟩) rest := by
  rw [decodeFrom_some_cons, extend, if_pos h]
  simp only [if_neg hneeded]
  rfl

/-- A byte that starts a character of two bytes. -/
theorem lead_two {b : Nat} (h : 0xC2 ≤ b ∧ b ≤ 0xDF) :
    lead b = ([], some ⟨b - 0xC0, 1, 0x80, 0xBF⟩) := by
  rw [lead, if_neg (by omega), if_pos h]

/-- A byte that starts a character of three bytes; two of them narrow the byte that follows. -/
theorem lead_three {b : Nat} (h : 0xE0 ≤ b ∧ b ≤ 0xEF) :
    lead b = ([], some ⟨b - 0xE0, 2, if b = 0xE0 then 0xA0 else 0x80,
      if b = 0xED then 0x9F else 0xBF⟩) := by
  rw [lead, if_neg (by omega), if_neg (by omega), if_pos h]

/-- A byte that starts a character of four bytes; two of them narrow the byte that follows. -/
theorem lead_four {b : Nat} (h : 0xF0 ≤ b ∧ b ≤ 0xF4) :
    lead b = ([], some ⟨b - 0xF0, 3, if b = 0xF0 then 0x90 else 0x80,
      if b = 0xF4 then 0x8F else 0xBF⟩) := by
  rw [lead, if_neg (by omega), if_neg (by omega), if_neg (by omega), if_pos h]

/-- A number below 256 is a byte. -/
theorem toNat_ofNat_of_lt {n : Nat} (h : n < 256) : (UInt8.ofNat n).toNat = n := by
  rw [UInt8.toNat_ofNat']
  exact Nat.mod_eq_of_lt h

/-- The bytes of a character are read as the character. -/
theorem decodeFrom_utf8EncodeChar (c : Char) (rest : List UInt8) :
    decodeFrom none (String.utf8EncodeChar c ++ rest) = c :: decodeFrom none rest := by
  -- the gap in the middle is what the bounds on the second of three bytes leave out
  have hvalid : c.val.toNat < 0xD800 ∨ 0xDFFF < c.val.toNat ∧ c.val.toNat < 0x110000 := c.valid
  have hchar : Char.ofNat c.val.toNat = c := Char.ofNat_toNat c
  unfold String.utf8EncodeChar
  generalize c.val.toNat = v at hvalid hchar
  simp only
  by_cases h₁ : v ≤ 0x7F
  · -- one byte
    rw [if_pos h₁, List.singleton_append, decodeFrom_none_cons, toNat_ofNat_of_lt (by omega), lead,
      if_pos (by omega), hchar]
    rfl
  rw [if_neg h₁]
  by_cases h₂ : v ≤ 0x7FF
  · -- two bytes
    have hb := toNat_ofNat_of_lt (show v / 64 % 0x20 + 0xC0 < 256 by omega)
    have hb₂ := toNat_ofNat_of_lt (show v % 0x40 + 0x80 < 256 by omega)
    rw [if_pos h₂, List.cons_append, List.singleton_append, decodeFrom_none_cons, hb,
      lead_two (by omega), List.nil_append, decodeFrom_last (by rw [hb₂]; simp only; omega) rfl, hb₂]
    have hvalue : 64 * (v / 64 % 0x20 + 0xC0 - 0xC0) + (v % 0x40 + 0x80 - 0x80) = v := by omega
    rw [hvalue, hchar]
  rw [if_neg h₂]
  by_cases h₃ : v ≤ 0xFFFF
  · -- three bytes
    have hb := toNat_ofNat_of_lt (show v / 4096 % 0x10 + 0xE0 < 256 by omega)
    have hb₂ := toNat_ofNat_of_lt (show v / 64 % 0x40 + 0x80 < 256 by omega)
    have hb₃ := toNat_ofNat_of_lt (show v % 0x40 + 0x80 < 256 by omega)
    have hbounds : (if v / 4096 % 0x10 + 0xE0 = 0xE0 then 0xA0 else 0x80) ≤ v / 64 % 0x40 + 0x80 ∧
        v / 64 % 0x40 + 0x80 ≤ (if v / 4096 % 0x10 + 0xE0 = 0xED then 0x9F else 0xBF) := by
      split <;> split <;> omega
    rw [if_pos h₃, List.cons_append, List.cons_append, List.singleton_append, decodeFrom_none_cons,
      hb, lead_three (by omega), List.nil_append, decodeFrom_middle (by rw [hb₂]; exact hbounds)
      (by simp), decodeFrom_last (by rw [hb₃]; simp only; omega) rfl, hb₂, hb₃]
    have hvalue : 64 * (64 * (v / 4096 % 0x10 + 0xE0 - 0xE0) + (v / 64 % 0x40 + 0x80 - 0x80)) +
        (v % 0x40 + 0x80 - 0x80) = v := by omega
    rw [hvalue, hchar]
  · -- four bytes
    have hb := toNat_ofNat_of_lt (show v / 262144 % 0x08 + 0xF0 < 256 by omega)
    have hb₂ := toNat_ofNat_of_lt (show v / 4096 % 0x40 + 0x80 < 256 by omega)
    have hb₃ := toNat_ofNat_of_lt (show v / 64 % 0x40 + 0x80 < 256 by omega)
    have hb₄ := toNat_ofNat_of_lt (show v % 0x40 + 0x80 < 256 by omega)
    have hbounds : (if v / 262144 % 0x08 + 0xF0 = 0xF0 then 0x90 else 0x80) ≤
          v / 4096 % 0x40 + 0x80 ∧
        v / 4096 % 0x40 + 0x80 ≤ (if v / 262144 % 0x08 + 0xF0 = 0xF4 then 0x8F else 0xBF) := by
      split <;> split <;> omega
    rw [if_neg h₃, List.cons_append, List.cons_append, List.cons_append, List.singleton_append,
      decodeFrom_none_cons, hb, lead_four (by omega), List.nil_append,
      decodeFrom_middle (by rw [hb₂]; exact hbounds) (by simp),
      decodeFrom_middle (by rw [hb₃]; simp only; omega) (by simp),
      decodeFrom_last (by rw [hb₄]; simp only; omega) rfl, hb₂, hb₃, hb₄]
    have hvalue : 64 * (64 * (64 * (v / 262144 % 0x08 + 0xF0 - 0xF0) +
        (v / 4096 % 0x40 + 0x80 - 0x80)) + (v / 64 % 0x40 + 0x80 - 0x80)) +
          (v % 0x40 + 0x80 - 0x80) = v := by omega
    rw [hvalue, hchar]

/-- The bytes of some characters are read as these characters. -/
theorem decode_encode (cs : List Char) : decode (encode cs) = cs := by
  rw [decode]
  induction cs with
  | nil => rfl
  | cons c cs ih => rw [encode_cons, decodeFrom_utf8EncodeChar, ih]

/-! ### Zero bytes -/

/-- Only the zero character has a zero byte. -/
theorem zero_mem_utf8EncodeChar_iff (c : Char) : 0 ∈ String.utf8EncodeChar c ↔ c = '\x00' := by
  have hchar : c.val.toNat = 0 ↔ c = '\x00' := by
    rw [Char.ext_iff, ← UInt32.toNat_inj]
    rfl
  have hzero : ∀ n : Nat, n < 256 → ((0 : UInt8) = UInt8.ofNat n ↔ n = 0) := by
    intro n hn
    rw [← UInt8.toNat_inj, toNat_ofNat_of_lt hn]
    exact eq_comm
  rw [← hchar]
  -- all bytes of a character of several have their high bit set
  unfold String.utf8EncodeChar
  generalize c.val.toNat = v
  simp only
  split
  · rw [List.mem_singleton, hzero v (by omega)]
  · split
    · simp only [List.mem_cons, List.not_mem_nil, or_false, hzero _ (show v / 64 % 0x20 + 0xC0 < 256
        by omega), hzero _ (show v % 0x40 + 0x80 < 256 by omega)]
      omega
    · split
      · simp only [List.mem_cons, List.not_mem_nil, or_false, hzero _
          (show v / 4096 % 0x10 + 0xE0 < 256 by omega), hzero _
          (show v / 64 % 0x40 + 0x80 < 256 by omega), hzero _ (show v % 0x40 + 0x80 < 256 by omega)]
        omega
      · simp only [List.mem_cons, List.not_mem_nil, or_false, hzero _
          (show v / 262144 % 0x08 + 0xF0 < 256 by omega), hzero _
          (show v / 4096 % 0x40 + 0x80 < 256 by omega), hzero _
          (show v / 64 % 0x40 + 0x80 < 256 by omega), hzero _ (show v % 0x40 + 0x80 < 256 by omega)]
        omega

/-- What is read up to the first zero byte are the bytes up to the first zero character. -/
theorem untilZero_encode_append (cs : List Char) (zeros : Nat) :
    untilZero (encode cs ++ List.replicate zeros 0) =
      encode (cs.takeWhile (· ≠ '\x00')) := by
  induction cs with
  | nil => cases zeros <;> rfl
  | cons c cs ih =>
    rw [encode_cons, untilZero, List.append_assoc]
    by_cases hc : c = '\x00'
    · subst hc
      rfl
    · -- only the zero character has a zero among its bytes
      have hbytes : ∀ b ∈ String.utf8EncodeChar c, decide (b ≠ 0) = true := by
        intro b hb
        refine decide_eq_true fun hzero => hc ((zero_mem_utf8EncodeChar_iff c).1 ?_)
        rwa [← hzero]
      rw [List.takeWhile_append_of_pos hbytes, List.takeWhile_cons_of_pos (by simpa using hc),
        encode_cons, ← ih]
      rfl

/-! ### Room -/

/-- The leading characters that there is room for. -/
def cut (room : Nat) : List Char → List Char
  | [] => []
  | c :: rest =>
    if (String.utf8EncodeChar c).length ≤ room then
      c :: cut (room - (String.utf8EncodeChar c).length) rest
    else []

/-- What is stored of a text are the bytes of the characters that there is room for. -/
theorem fitting_eq (room : Nat) (cs : List Char) : fitting room cs = encode (cut room cs) := by
  induction cs generalizing room with
  | nil => rfl
  | cons c rest ih =>
    rw [fitting, cut]
    split
    · rw [ih, encode_cons]
    · rfl

/-- The bytes of these characters do fit. -/
theorem length_encode_cut_le (room : Nat) (cs : List Char) : (encode (cut room cs)).length ≤ room := by
  induction cs generalizing room with
  | nil => exact Nat.zero_le _
  | cons c rest ih =>
    rw [cut]
    split
    next hfits =>
      have hrest := ih (room - (String.utf8EncodeChar c).length)
      rw [encode_cons, List.length_append]
      omega
    next => exact Nat.zero_le _

/-- These characters are leading ones. -/
theorem cut_prefix (room : Nat) (cs : List Char) : cut room cs <+: cs := by
  induction cs generalizing room with
  | nil => exact List.nil_prefix
  | cons c rest ih =>
    rw [cut]
    split
    · exact List.cons_prefix_cons.2 ⟨rfl, ih _⟩
    · exact List.nil_prefix

/-- No other run of leading characters that fits is longer. -/
theorem isGreatest_cut (room : Nat) (cs : List Char) :
    IsGreatest {k | ∃ run, run <+: cs ∧ (encode run).length ≤ room ∧ run.length = k}
      (cut room cs).length := by
  refine ⟨⟨_, cut_prefix room cs, length_encode_cut_le room cs, rfl⟩, ?_⟩
  rintro k ⟨run, hprefix, hroom, rfl⟩
  -- character by character: what there is room for is kept by both runs
  induction run generalizing room cs with
  | nil => exact Nat.zero_le _
  | cons c run ih =>
    cases cs with
    | nil => simp at hprefix
    | cons d rest =>
      obtain ⟨rfl, hrest⟩ := List.cons_prefix_cons.1 hprefix
      rw [encode_cons, List.length_append] at hroom
      rw [cut, if_pos (by omega), List.length_cons, List.length_cons]
      exact Nat.succ_le_succ (ih _ rest hrest (by omega))

/-- What is read of a text that was stored with zero bytes behind it. -/
theorem decode_untilZero_fitting (room zeros : Nat) (cs : List Char) :
    decode (untilZero (fitting room cs ++ List.replicate zeros 0)) =
      (cut room cs).takeWhile (· ≠ '\x00') := by
  rw [fitting_eq, untilZero_encode_append, decode_encode]

end NativeLayout.Text
