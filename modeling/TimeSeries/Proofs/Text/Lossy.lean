import TimeSeries.Proofs.Text.Encoded

/-!
# Well-formed bytes are not replaced

Reading the bytes of a text with malformed places replaced gives the text. The first byte of a
character says how many bytes follow and keeps their first one within its range, and every later
byte adds six bits. So byte strings that are the bytes of texts are determined by what is read.
-/

namespace TimeSeries.Text

theorem utf8LossyChars_of_char {s : Utf8State} {b : UInt8} {c : Char} (h : s.step b = .char c)
    (rest : List UInt8) : utf8LossyChars s (b :: rest) = c :: utf8LossyChars .boundary rest := by
  cases s <;> rw [utf8LossyChars, h]

theorem utf8LossyChars_of_more {s t : Utf8State} {b : UInt8} (h : s.step b = .more t)
    (rest : List UInt8) : utf8LossyChars s (b :: rest) = utf8LossyChars t rest := by
  cases s <;> rw [utf8LossyChars, h]

theorem step_boundary {n : Nat} (hn : n < 256) : Utf8State.boundary.step (UInt8.ofNat n) =
    if n < 0x80 then .char (Char.ofNat n)
    else if n < 0xC2 then .refuse
    else if n < 0xE0 then .more (.inside 0 0x80 0xBF (n - 0xC0))
    else if n = 0xE0 then .more (.inside 1 0xA0 0xBF 0)
    else if n = 0xED then .more (.inside 1 0x80 0x9F 0xD)
    else if n < 0xF0 then .more (.inside 1 0x80 0xBF (n - 0xE0))
    else if n = 0xF0 then .more (.inside 2 0x90 0xBF 0)
    else if n < 0xF4 then .more (.inside 2 0x80 0xBF (n - 0xF0))
    else if n = 0xF4 then .more (.inside 2 0x80 0x8F 4)
    else .refuse := by
  simp [Utf8State.step, Utf8Step.first, UInt8.lt_iff_toNat_lt, ← UInt8.toNat_inj,
    Nat.mod_eq_of_lt hn]

section Inside

variable {low high : UInt8} {n : Nat} (hn : n < 64) (hlow : low.toNat ≤ n + 128)
  (hhigh : n + 128 ≤ high.toNat)

include hn hlow hhigh

theorem within_range : (low ≤ UInt8.ofNat (n + 128) ∧ UInt8.ofNat (n + 128) ≤ high) ∧
    (UInt8.ofNat (n + 128)).toNat - 0x80 = n := by
  have hbyte : (UInt8.ofNat (n + 128)).toNat = n + 128 := by
    rw [UInt8.toNat_ofNat', Nat.mod_eq_of_lt (by omega)]
  rw [UInt8.le_iff_toNat_le, UInt8.le_iff_toNat_le, hbyte]
  omega

theorem step_inside_zero (value : Nat) :
    (Utf8State.inside 0 low high value).step (UInt8.ofNat (n + 128)) =
      .char (Char.ofNat (value * 64 + n)) := by
  obtain ⟨hrange, hbits⟩ := within_range hn hlow hhigh
  rw [Utf8State.step, if_pos hrange, hbits]

theorem step_inside_succ (value more : Nat) :
    (Utf8State.inside (more + 1) low high value).step (UInt8.ofNat (n + 128)) =
      .more (.inside more 0x80 0xBF (value * 64 + n)) := by
  obtain ⟨hrange, hbits⟩ := within_range hn hlow hhigh
  rw [Utf8State.step, if_pos hrange, hbits]

end Inside

section First

variable {n : Nat}

theorem first_of_two (hlow : 0x80 ≤ n) (hhigh : n < 0x800) :
    Utf8State.boundary.step (UInt8.ofNat (n / 64 % 32 + 0xC0)) =
      .more (.inside 0 0x80 0xBF (n / 64)) := by
  have hvalue : n / 64 % 32 + 0xC0 - 0xC0 = n / 64 := by omega
  rw [step_boundary (by omega), if_neg (by omega), if_neg (by omega), if_pos (by omega), hvalue]

/-- The first of three bytes keeps the second one above the overlong forms and below the
surrogates. -/
theorem first_of_three (hlow : 0x800 ≤ n) (hhigh : n < 0x10000) (hvalid : n < 0xD800 ∨ 0xDFFF < n) :
    ∃ low high : UInt8, Utf8State.boundary.step (UInt8.ofNat (n / 4096 % 16 + 0xE0)) =
        .more (.inside 1 low high (n / 4096)) ∧
      low.toNat ≤ n / 64 % 64 + 0x80 ∧ n / 64 % 64 + 0x80 ≤ high.toNat := by
  have hvalue : n / 4096 % 16 + 0xE0 - 0xE0 = n / 4096 := by omega
  rw [step_boundary (by omega), if_neg (by omega), if_neg (by omega), if_neg (by omega)]
  split_ifs with hoverlong hsurrogate
  · have hzero : n / 4096 = 0 := by omega
    refine ⟨0xA0, 0xBF, by rw [hzero], ?_⟩
    simp only [UInt8.reduceToNat]
    omega
  · have hthirteen : n / 4096 = 0xD := by omega
    refine ⟨0x80, 0x9F, by rw [hthirteen], ?_⟩
    simp only [UInt8.reduceToNat]
    omega
  · refine ⟨0x80, 0xBF, by rw [hvalue], ?_⟩
    simp only [UInt8.reduceToNat]
    omega
  all_goals omega

/-- The first of four bytes keeps the second one above the overlong forms and below the end of the
code points. -/
theorem first_of_four (hlow : 0x10000 ≤ n) (hhigh : n < 0x110000) :
    ∃ low high : UInt8, Utf8State.boundary.step (UInt8.ofNat (n / 262144 % 8 + 0xF0)) =
        .more (.inside 2 low high (n / 262144)) ∧
      low.toNat ≤ n / 4096 % 64 + 0x80 ∧ n / 4096 % 64 + 0x80 ≤ high.toNat := by
  have hvalue : n / 262144 % 8 + 0xF0 - 0xF0 = n / 262144 := by omega
  rw [step_boundary (by omega), if_neg (by omega), if_neg (by omega), if_neg (by omega),
    if_neg (by omega), if_neg (by omega), if_neg (by omega)]
  split_ifs with hoverlong hmiddle hlast
  · have hzero : n / 262144 = 0 := by omega
    refine ⟨0x90, 0xBF, by rw [hzero], ?_⟩
    simp only [UInt8.reduceToNat]
    omega
  · refine ⟨0x80, 0xBF, by rw [hvalue], ?_⟩
    simp only [UInt8.reduceToNat]
    omega
  · have hfour : n / 262144 = 4 := by omega
    refine ⟨0x80, 0x8F, by rw [hfour], ?_⟩
    simp only [UInt8.reduceToNat]
    omega
  · omega

end First

/-- The bytes of a character are read as the character. -/
theorem utf8LossyChars_utf8EncodeChar (c : Char) (rest : List UInt8) :
    utf8LossyChars .boundary (String.utf8EncodeChar c ++ rest) =
      c :: utf8LossyChars .boundary rest := by
  have hvalid : c.toNat < 0xD800 ∨ 0xDFFF < c.toNat ∧ c.toNat < 0x110000 := c.valid
  have hchar {n : Nat} (hn : n = c.toNat) : Char.ofNat n = c := hn ▸ Char.ofNat_toNat c
  have hval : c.val.toNat = c.toNat := rfl
  have hlow (n : Nat) : (0x80 : UInt8).toNat ≤ n % 64 + 0x80 := Nat.le_add_left 0x80 _
  have hhigh (n : Nat) : n % 64 + 0x80 ≤ (0xBF : UInt8).toNat := by
    simp only [UInt8.reduceToNat]
    omega
  have hlt (n : Nat) : n % 64 < 64 := Nat.mod_lt n (by decide)
  simp only [String.utf8EncodeChar, hval]
  split_ifs with hone htwo hthree
  · have hfirst : Utf8State.boundary.step (UInt8.ofNat c.toNat) = .char c := by
      rw [step_boundary (by omega), if_pos (by omega), Char.ofNat_toNat]
    exact utf8LossyChars_of_char hfirst rest
  · have hlast := step_inside_zero (hlt _) (hlow c.toNat) (hhigh _) (c.toNat / 64)
    rw [hchar (by omega)] at hlast
    rw [List.cons_append, utf8LossyChars_of_more (first_of_two (by omega) (by omega))]
    exact utf8LossyChars_of_char hlast rest
  · obtain ⟨low, high, hfirst, hle, hge⟩ :=
      first_of_three (n := c.toNat) (by omega) (by omega) (by omega)
    have hsecond := step_inside_succ (hlt _) hle hge (c.toNat / 4096) 0
    have hlast := step_inside_zero (hlt _) (hlow c.toNat) (hhigh _)
      (c.toNat / 4096 * 64 + c.toNat / 64 % 64)
    rw [hchar (by omega)] at hlast
    rw [List.cons_append, utf8LossyChars_of_more hfirst, List.cons_append,
      utf8LossyChars_of_more hsecond]
    exact utf8LossyChars_of_char hlast rest
  · obtain ⟨low, high, hfirst, hle, hge⟩ := first_of_four (n := c.toNat) (by omega) (by omega)
    have hsecond := step_inside_succ (hlt _) hle hge (c.toNat / 262144) 1
    have hthird := step_inside_succ (hlt _) (hlow (c.toNat / 64)) (hhigh _)
      (c.toNat / 262144 * 64 + c.toNat / 4096 % 64) 0
    have hlast := step_inside_zero (hlt _) (hlow c.toNat) (hhigh _)
      ((c.toNat / 262144 * 64 + c.toNat / 4096 % 64) * 64 + c.toNat / 64 % 64)
    rw [hchar (by omega)] at hlast
    rw [List.cons_append, utf8LossyChars_of_more hfirst, List.cons_append,
      utf8LossyChars_of_more hsecond, List.cons_append, utf8LossyChars_of_more hthird]
    exact utf8LossyChars_of_char hlast rest

theorem utf8LossyChars_flatMap (l : List Char) :
    utf8LossyChars .boundary (l.flatMap String.utf8EncodeChar) = l := by
  induction l with
  | nil => rfl
  | cons c l ih => rw [List.flatMap_cons, utf8LossyChars_utf8EncodeChar, ih]

@[simp] theorem utf8Lossy_utf8Bytes (s : String) : utf8Lossy (utf8Bytes s) = s := by
  rw [utf8Lossy, utf8Bytes_eq_flatMap, utf8LossyChars_flatMap, String.ofList_toList]

end TimeSeries.Text
