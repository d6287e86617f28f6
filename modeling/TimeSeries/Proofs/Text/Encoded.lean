import Mathlib.Data.List.Basic
import TimeSeries.Text.Blank
import TimeSeries.Text.Utf8

/-!
# The bytes of a text

A character below 128 is one byte of the same number, and all bytes of every other character are
128 or more. So a byte below 128 in the bytes of a text stands for a character, and what can be said
of such bytes can be said of the characters, as how often one occurs.
-/

namespace TimeSeries.Text

theorem utf8Bytes_eq_flatMap (s : String) :
    utf8Bytes s = s.toList.flatMap String.utf8EncodeChar := by
  rw [utf8Bytes, ← String.utf8Encode_toList, List.utf8Encode]
  exact List.toList_data_toByteArray

theorem utf8Bytes_eq_nil_iff {s : String} : utf8Bytes s = [] ↔ s = "" := by
  rw [utf8Bytes_eq_flatMap, List.flatMap_eq_nil_iff]
  constructor
  · intro h
    rw [← String.toList_eq_nil_iff, List.eq_nil_iff_forall_not_mem]
    exact fun c hc => String.utf8EncodeChar_ne_nil (h c hc)
  · rintro rfl
    simp

theorem utf8EncodeChar_of_lt {c : Char} (h : c.toNat < 128) :
    String.utf8EncodeChar c = [UInt8.ofNat c.toNat] := by
  have hle : c.val.toNat ≤ 0x7f := Nat.le_of_lt_succ h
  simp only [String.utf8EncodeChar, if_pos hle]
  rfl

theorem le_toNat_of_mem_utf8EncodeChar {c : Char} (h : 128 ≤ c.toNat) {b : UInt8}
    (hb : b ∈ String.utf8EncodeChar c) : 128 ≤ b.toNat := by
  have hgt : ¬c.val.toNat ≤ 0x7f := Nat.not_le.2 h
  -- the bits of the character are added to at most 0xF0, so no byte is cut to eight bits
  have high : ∀ m k n : Nat, 128 ≤ n → k + n ≤ 256 → 0 < k →
      128 ≤ (UInt8.ofNat (m % k + n)).toNat := by
    intro m k n hn hk hpos
    have hlt := Nat.mod_lt m hpos
    rw [UInt8.toNat_ofNat', Nat.mod_eq_of_lt (by omega)]
    omega
  simp only [String.utf8EncodeChar, if_neg hgt] at hb
  split at hb
  · simp only [List.mem_cons, List.not_mem_nil, or_false] at hb
    rcases hb with rfl | rfl <;> exact high _ _ _ (by omega) (by omega) (by omega)
  · split at hb
    · simp only [List.mem_cons, List.not_mem_nil, or_false] at hb
      rcases hb with rfl | rfl | rfl <;> exact high _ _ _ (by omega) (by omega) (by omega)
    · simp only [List.mem_cons, List.not_mem_nil, or_false] at hb
      rcases hb with rfl | rfl | rfl | rfl <;> exact high _ _ _ (by omega) (by omega) (by omega)

theorem eq_of_mem_utf8EncodeChar {c : Char} {b : UInt8} (hb : b ∈ String.utf8EncodeChar c)
    (hlt : b.toNat < 128) : b.toNat = c.toNat := by
  by_cases h : c.toNat < 128
  · rw [utf8EncodeChar_of_lt h, List.mem_singleton] at hb
    rw [hb, UInt8.toNat_ofNat', Nat.mod_eq_of_lt (by omega)]
  · have := le_toNat_of_mem_utf8EncodeChar (Nat.not_lt.1 h) hb
    omega

theorem count_lineFeed_utf8Bytes (s : String) :
    (utf8Bytes s).count 0x0A = s.toList.count '\n' := by
  rw [utf8Bytes_eq_flatMap]
  induction s.toList with
  | nil => rfl
  | cons c l ih =>
      rw [List.flatMap_cons, List.count_append, ih, List.count_cons, Nat.add_comm]
      congr 1
      by_cases h : c = '\n'
      · subst h
        rfl
      · rw [if_neg (by simpa using h), List.count_eq_zero]
        intro hmem
        refine h (Char.toNat_inj.1 ?_)
        rw [← eq_of_mem_utf8EncodeChar hmem (by decide)]
        rfl

/-- A text with no white space at its ends. -/
def Bare (s : String) : Prop :=
  (∀ c ∈ s.toList.head?, isBlank c = false) ∧ ∀ c ∈ s.toList.getLast?, isBlank c = false

instance (s : String) : Decidable (Bare s) :=
  decidable_of_iff
    (s.toList.head?.any isBlank = false ∧ s.toList.getLast?.any isBlank = false)
    (by simp only [Bare, Option.any_eq_false, Option.mem_def])

theorem trim_of_bare {s : String} (h : Bare s) : trim s = s := by
  rw [trim, trimEnds_eq_self h.1 h.2, String.ofList_toList]

end TimeSeries.Text
