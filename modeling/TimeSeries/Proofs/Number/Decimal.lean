import Mathlib.Algebra.Group.Nat.Defs
import Mathlib.Data.List.Induction
import Mathlib.Data.Nat.Basic
import TimeSeries.Number.Integer

/-!
# Decimal digits of integers

The digits that an integer is written with are read back as that integer. The reader stops as soon
as a value is out of range, so it matters that no value on the way is larger than the last one.
-/

namespace TimeSeries.Number

theorem isDigit_of_mem_toDigits {n : Nat} {c : Char} (h : c ∈ Nat.toDigits 10 n) :
    isDigit c = true := by
  have hdigit := Nat.isDigit_of_mem_toDigits (by decide) (by decide) h
  simpa [isDigit, Char.isDigit, Char.le_def, UInt32.le_iff_toNat_le] using hdigit

theorem digit?_of_isDigit {c : Char} (h : isDigit c = true) : digit? c = some (c.toNat - 48) := by
  simp only [isDigit, Bool.and_eq_true, decide_eq_true_eq] at h
  exact if_pos h

theorem le_ofDigitChars (l : List Char) (acc : Nat) : acc ≤ Nat.ofDigitChars 10 l acc := by
  rw [Nat.ofDigitChars_eq_ofDigitChars_zero]
  have := Nat.le_mul_of_pos_left acc (Nat.pow_pos (n := l.length) (show 0 < 10 by decide))
  omega

theorem valueOfDigits_lt {l : List Char} (hl : ∀ c ∈ l, isDigit c = true) :
    valueOfDigits l < 10 ^ l.length := by
  induction l using List.reverseRecOn with
  | nil => decide
  | append_singleton l c ih =>
      have hvalue := ih fun d hd => hl d (List.mem_append_left [c] hd)
      have hdigit := hl c List.mem_concat_self
      simp only [isDigit, Bool.and_eq_true, decide_eq_true_eq, Char.le_def,
        UInt32.le_iff_toNat_le] at hdigit
      have hnine : c.toNat ≤ 57 := hdigit.2
      rw [valueOfDigits, List.foldl_append, ← valueOfDigits, List.foldl_cons, List.foldl_nil,
        List.length_append, List.length_singleton, Nat.pow_succ]
      omega

/-- Digits are read to their value if that is not above the limit. -/
theorem magnitude_of_isDigit {l : List Char} (hl : ∀ c ∈ l, isDigit c = true) {limit acc : Nat}
    (hlimit : Nat.ofDigitChars 10 l acc ≤ limit) (excess : IntegerFault) :
    magnitude limit excess acc l = .ok (Nat.ofDigitChars 10 l acc) := by
  induction l generalizing acc with
  | nil => rw [magnitude, Nat.ofDigitChars_nil]
  | cons c l ih =>
      have hnext : acc * 10 + (c.toNat - 48) = 10 * acc + (c.toNat - '0'.toNat) := by
        rw [Nat.mul_comm]
        rfl
      rw [Nat.ofDigitChars_cons] at hlimit ⊢
      have hle := le_ofDigitChars l (10 * acc + (c.toNat - '0'.toNat))
      rw [magnitude, digit?_of_isDigit (hl c List.mem_cons_self)]
      simp only [hnext]
      rw [if_neg (by omega), ih (fun d hd => hl d (List.mem_cons_of_mem c hd)) hlimit]

theorem readDigits_toDigits {n limit : Nat} (h : n ≤ limit) (excess : IntegerFault) :
    readDigits limit excess (Nat.toDigits 10 n) = .ok n := by
  have hmagnitude : magnitude limit excess 0 (Nat.toDigits 10 n) =
      .ok (Nat.ofDigitChars 10 (Nat.toDigits 10 n) 0) :=
    magnitude_of_isDigit (fun _ => isDigit_of_mem_toDigits)
      (by rwa [Nat.ofDigitChars_ten_toDigits]) excess
  have hne : ¬(Nat.toDigits 10 n).isEmpty = true := by simp
  rw [readDigits, if_neg hne, hmagnitude, Nat.ofDigitChars_ten_toDigits]

theorem exists_toDigits_eq_cons (n : Nat) :
    ∃ c l, Nat.toDigits 10 n = c :: l ∧ isDigit c = true := by
  obtain ⟨c, l, hcons⟩ := List.exists_cons_of_ne_nil (Nat.toDigits_ne_nil (n := n) (b := 10))
  refine ⟨c, l, hcons, isDigit_of_mem_toDigits (n := n) ?_⟩
  rw [hcons]
  exact List.mem_cons_self

theorem readUnsigned_toDigits {n : Nat} (h : n < Nat.pow 2 64) :
    readUnsigned (Nat.toDigits 10 n) = .ok n := by
  have hdigits := readDigits_toDigits (Nat.le_sub_one_of_lt h) .tooLarge
  obtain ⟨c, l, hcons, hc⟩ := exists_toDigits_eq_cons n
  rw [hcons] at hdigits ⊢
  rw [readUnsigned.eq_def]
  split
  · next heq =>
      obtain ⟨rfl, -⟩ := List.cons.inj heq
      exact absurd hc (by decide)
  · exact hdigits

theorem readSigned_toDigits {n : Nat} (h : n < Nat.pow 2 63) :
    readSigned (Nat.toDigits 10 n) = .ok n := by
  have hdigits := readDigits_toDigits (Nat.le_sub_one_of_lt h) .tooLarge
  obtain ⟨c, l, hcons, hc⟩ := exists_toDigits_eq_cons n
  rw [hcons] at hdigits ⊢
  rw [readSigned.eq_def]
  split
  · next heq =>
      obtain ⟨rfl, -⟩ := List.cons.inj heq
      exact absurd hc (by decide)
  · next heq =>
      obtain ⟨rfl, -⟩ := List.cons.inj heq
      exact absurd hc (by decide)
  · rw [hdigits]
    rfl

theorem readSigned_neg_toDigits {n : Nat} (h : n ≤ Nat.pow 2 63) :
    readSigned ('-' :: Nat.toDigits 10 n) = .ok (-(n : Int)) := by
  rw [readSigned, readDigits_toDigits h]
  rfl

theorem toList_toString_nat (n : Nat) : (toString n).toList = Nat.toDigits 10 n := Nat.toList_repr

theorem toList_toString_ofNat (n : Nat) :
    (toString (Int.ofNat n)).toList = Nat.toDigits 10 n := Nat.toList_repr

theorem toList_toString_negSucc (n : Nat) :
    (toString (Int.negSucc n)).toList = '-' :: Nat.toDigits 10 (n + 1) := by
  rw [← Nat.toList_repr]
  exact String.toList_append

theorem toList_toString_ne_nil (i : Int) : (toString i).toList ≠ [] := by
  cases i with
  | ofNat n =>
      rw [toList_toString_ofNat]
      exact Nat.toDigits_ne_nil
  | negSucc n =>
      rw [toList_toString_negSucc]
      exact List.cons_ne_nil _ _

theorem readSigned_toString (i : Int64) : readSigned (toString i.toInt).toList = .ok i.toInt := by
  have hlow := i.le_toInt
  have hhigh := i.toInt_lt
  cases hi : i.toInt with
  | ofNat n =>
      have hn : n < Nat.pow 2 63 := by
        rw [hi, Int.ofNat_eq_natCast] at hhigh
        exact Int.ofNat_lt.1 hhigh
      rw [toList_toString_ofNat, readSigned_toDigits hn]
      rfl
  | negSucc n =>
      have hn : n + 1 ≤ Nat.pow 2 63 := by
        rw [hi] at hlow
        simp only [Nat.pow_eq]
        omega
      rw [toList_toString_negSucc, readSigned_neg_toDigits hn]
      rfl

@[simp] theorem readInt64_toString (i : Int64) : readInt64 (toString i.toInt) = .ok i := by
  rw [readInt64, readSigned_toString]
  simp [Except.map]

@[simp] theorem readUInt64_toString (u : UInt64) : readUInt64 (toString u.toNat) = .ok u := by
  rw [readUInt64, toList_toString_nat, readUnsigned_toDigits u.toNat_lt]
  simp [Except.map]

end TimeSeries.Number
