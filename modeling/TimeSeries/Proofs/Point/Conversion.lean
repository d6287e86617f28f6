import Mathlib.Algebra.Order.Group.Unbundled.Int
import Mathlib.Algebra.Order.Ring.Int
import TimeSeries.Point.Precision

/-!
# Conversion between precisions

A conversion divides one number of nanoseconds by another. The words of 128 bits on the way hold
every product and every quotient, so nothing wraps, and only the last step stops at the ends of the
64-bit range.

The units divide one another, which is why conversions compose. To a finer unit a conversion is a
product (`toInt_convert_of_ge`), so nothing is lost as long as the number fits. To a coarser unit it
is one quotient of the number itself (`toInt_convert_of_le`), and a quotient of a quotient is again
a quotient, since both truncate toward zero.
-/

namespace TimeSeries

/-- Finer precisions are smaller, as their units are. -/
instance : LE Precision := ⟨fun p q => p.nanos ≤ q.nanos⟩

instance (p q : Precision) : Decidable (p ≤ q) := inferInstanceAs (Decidable (p.nanos ≤ q.nanos))

/-- The number `m` is `n`, or nearer to zero on the side of `n`. -/
def TowardZero (m n : Int) : Prop := 0 ≤ m ∧ m ≤ n ∨ n ≤ m ∧ m ≤ 0

theorem TowardZero.abs_le {m n : Int} (h : TowardZero m n) : |m| ≤ |n| := by
  rcases h with ⟨hm, hmn⟩ | ⟨hnm, hm⟩
  · rw [abs_of_nonneg hm, abs_of_nonneg (hm.trans hmn)]
    exact hmn
  · rw [abs_of_nonpos hm, abs_of_nonpos (hnm.trans hm)]
    exact neg_le_neg hnm

theorem tmod_nonpos {n : Int} (h : n ≤ 0) (d : Int) : n.tmod d ≤ 0 := by
  have hneg := Int.tmod_nonneg d (neg_nonneg.2 h)
  rw [Int.neg_tmod] at hneg
  exact neg_nonneg.1 hneg

theorem tdiv_nonpos {n d : Int} (hn : n ≤ 0) (hd : 0 ≤ d) : n.tdiv d ≤ 0 := by
  have hneg := Int.tdiv_nonneg (neg_nonneg.2 hn) hd
  rw [Int.neg_tdiv] at hneg
  exact neg_nonneg.1 hneg

theorem tdiv_tdiv (n : Int) {c : Int} (hc : 0 ≤ c) (d : Int) :
    (n.tdiv c).tdiv d = n.tdiv (c * d) := by
  have hnonneg : ∀ a : Nat, ((a : Int).tdiv c).tdiv d = (a : Int).tdiv (c * d) := by
    intro a
    have hquotient : 0 ≤ (a : Int) / c := Int.ediv_nonneg (Int.natCast_nonneg a) hc
    rw [Int.natCast_tdiv_eq_ediv, Int.natCast_tdiv_eq_ediv, Int.tdiv_eq_ediv_of_nonneg hquotient,
      Int.ediv_ediv_of_nonneg hc]
  rcases Int.eq_nat_or_neg n with ⟨a, rfl | rfl⟩
  · exact hnonneg a
  · rw [Int.neg_tdiv, Int.neg_tdiv, Int.neg_tdiv, hnonneg]

/-- Dividing and multiplying again truncates toward zero. -/
theorem towardZero_tdiv_mul (n : Int) {d : Int} (hd : 0 < d) : TowardZero (n.tdiv d * d) n := by
  have hparts : n.tdiv d * d + n.tmod d = n := Int.tdiv_mul_add_tmod n d
  rcases le_total 0 n with hn | hn
  · have hquotient := mul_nonneg (Int.tdiv_nonneg hn hd.le) hd.le
    have hrest := Int.tmod_nonneg d hn
    exact Or.inl ⟨hquotient, by omega⟩
  · have hquotient := mul_nonpos_of_nonpos_of_nonneg (tdiv_nonpos hn hd.le) hd.le
    have hrest := tmod_nonpos hn d
    exact Or.inr ⟨by omega, hquotient⟩

theorem towardZero_tdiv (n : Int) {d : Int} (hd : 0 < d) : TowardZero (n.tdiv d) n := by
  have habs := Int.natAbs_tdiv_le_natAbs n d
  rcases le_total 0 n with hn | hn
  · have hquotient := Int.tdiv_nonneg hn hd.le
    exact Or.inl ⟨hquotient, by omega⟩
  · have hquotient := tdiv_nonpos hn hd.le
    exact Or.inr ⟨by omega, hquotient⟩

theorem toInt_clampInt64 (n : Int) :
    (clampInt64 n).toInt = max Int64.minValue.toInt (min n Int64.maxValue.toInt) := by
  have hmin := Int64.toInt_minValue
  have hmax := Int64.toInt_maxValue
  rw [clampInt64, Int64.toInt_ofInt_of_le] <;> omega

theorem clampInt64_mono {m n : Int} (h : m ≤ n) : clampInt64 m ≤ clampInt64 n := by
  rw [Int64.le_iff_toInt_le, toInt_clampInt64, toInt_clampInt64]
  exact max_le_max_left _ (min_le_min_right _ h)

namespace Timestamp

theorem fitsInt64_iff {n : Int} :
    fitsInt64 n = true ↔ Int64.minValue.toInt ≤ n ∧ n ≤ Int64.maxValue.toInt := by
  rw [fitsInt64, Bool.and_eq_true, decide_eq_true_iff, decide_eq_true_iff]

theorem fitsInt64_eq_false_iff {n : Int} :
    fitsInt64 n = false ↔ n < Int64.minValue.toInt ∨ Int64.maxValue.toInt < n := by
  rw [← Bool.not_eq_true, fitsInt64_iff, not_and_or, not_le, not_le]

theorem toInt_ofInt_of_fits {n : Int} (h : fitsInt64 n = true) : (Int64.ofInt n).toInt = n :=
  Int64.toInt_ofInt_of_le (fitsInt64_iff.1 h).1 (Int.lt_add_one_of_le (fitsInt64_iff.1 h).2)

theorem fitsInt64_toInt (v : Int64) : fitsInt64 v.toInt = true :=
  fitsInt64_iff.2 ⟨v.minValue_le_toInt, v.toInt_le⟩

theorem fitsInt64_of_towardZero {m n : Int} (h : TowardZero m n) (hn : fitsInt64 n = true) :
    fitsInt64 m = true := by
  have hmin : Int64.minValue.toInt ≤ 0 := by decide
  have hmax : 0 ≤ Int64.maxValue.toInt := by decide
  obtain ⟨hlow, hhigh⟩ := fitsInt64_iff.1 hn
  refine fitsInt64_iff.2 ?_
  rcases h with ⟨hm, hmn⟩ | ⟨hnm, hm⟩
  · exact ⟨hmin.trans hm, hmn.trans hhigh⟩
  · exact ⟨hlow.trans hnm, hm.trans hmax⟩

theorem toInt_clampInt64_of_fits {n : Int} (h : fitsInt64 n = true) :
    (clampInt64 n).toInt = n := by
  obtain ⟨hmin, hmax⟩ := fitsInt64_iff.1 h
  rw [toInt_clampInt64, min_eq_left hmax, max_eq_right hmin]

end Timestamp

namespace Precision

open Timestamp

theorem nanos_pos (p : Precision) : 0 < p.nanos := by cases p <;> decide

/-- A coarser unit is a whole number of finer ones. -/
theorem nanos_dvd {p q : Precision} (h : p ≤ q) : p.nanos ∣ q.nanos := by
  cases p <;> cases q <;> revert h <;> decide

theorem nanos_div_pos {p q : Precision} (h : p ≤ q) : 0 < q.nanos / p.nanos :=
  Int.ediv_pos_of_pos_of_dvd q.nanos_pos p.nanos_pos.le (nanos_dvd h)

theorem nanos_mul_div {p q : Precision} (h : p ≤ q) : p.nanos * (q.nanos / p.nanos) = q.nanos :=
  Int.mul_ediv_cancel' (nanos_dvd h)

theorem toInt_wide {n : Int} (hmin : -2 ^ 127 ≤ n) (hmax : n < 2 ^ 127) : (wide n).toInt = n :=
  BitVec.toInt_ofInt_eq_self (by decide) hmin hmax

theorem toInt_wide_toInt (v : Int64) : (wide v.toInt).toInt = v.toInt := by
  have hmin := v.le_toInt
  have hmax := v.toInt_lt
  exact toInt_wide (by omega) (by omega)

theorem toInt_wide_nanos (p : Precision) : (wide p.nanos).toInt = p.nanos := by
  cases p <;> decide

theorem not_smulOverflow (p : Precision) (v : Int64) :
    BitVec.smulOverflow (wide v.toInt) (wide p.nanos) = false := by
  have hmin := v.le_toInt
  have hmax := v.toInt_lt
  rw [BitVec.smulOverflow, toInt_wide_toInt, toInt_wide_nanos, Bool.or_eq_false_iff,
    decide_eq_false_iff_not, decide_eq_false_iff_not]
  cases p <;> rw [nanos] <;> omega

theorem toInt_wideNanos (p : Precision) (v : Int64) :
    (p.wideNanos v).toInt = v.toInt * p.nanos := by
  have hfits : ¬BitVec.smulOverflow (wide v.toInt) (wide p.nanos) := by
    rw [not_smulOverflow]
    decide
  rw [wideNanos, BitVec.toInt_mul_of_not_smulOverflow hfits, toInt_wide_toInt, toInt_wide_nanos]

theorem wide_nanos_ne (q : Precision) : wide q.nanos ≠ -1#128 := by cases q <;> decide

theorem not_sdivOverflow (x : BitVec 128) (q : Precision) :
    BitVec.sdivOverflow x (wide q.nanos) = false := by
  have hne : wide q.nanos ≠ BitVec.allOnes 128 := q.wide_nanos_ne
  rw [BitVec.sdivOverflow_eq, decide_eq_false hne, Bool.and_false]

theorem convert_eq (p : Precision) (v : Int64) (q : Precision) :
    p.convert v q = clampInt64 ((v.toInt * p.nanos).tdiv q.nanos) := by
  rw [convert, BitVec.toInt_sdiv_of_ne_or_ne _ _ (Or.inr q.wide_nanos_ne), toInt_wideNanos,
    toInt_wide_nanos]

theorem convert_mono (p q : Precision) {v w : Int64} (h : v ≤ w) :
    p.convert v q ≤ p.convert w q := by
  have hproduct : v.toInt * p.nanos ≤ w.toInt * p.nanos :=
    mul_le_mul_of_nonneg_right (Int64.le_iff_toInt_le.1 h) p.nanos_pos.le
  rw [convert_eq, convert_eq]
  exact clampInt64_mono (Int.tdiv_le_tdiv q.nanos_pos hproduct)

/-- To a coarser unit. -/
theorem toInt_convert_of_le {p q : Precision} (h : p ≤ q) (v : Int64) :
    (p.convert v q).toInt = v.toInt.tdiv (q.nanos / p.nanos) := by
  have hquotient : (v.toInt * p.nanos).tdiv q.nanos = v.toInt.tdiv (q.nanos / p.nanos) := by
    rw [← nanos_mul_div h, mul_comm v.toInt, Int.mul_tdiv_mul_of_pos _ _ p.nanos_pos,
      nanos_mul_div h]
  have hfits := fitsInt64_of_towardZero (towardZero_tdiv v.toInt (nanos_div_pos h))
    (fitsInt64_toInt v)
  rw [convert_eq, hquotient, toInt_clampInt64_of_fits hfits]

/-- To a finer unit. -/
theorem toInt_convert_of_ge {p q : Precision} (h : q ≤ p) {v : Int64}
    (hfits : fitsInt64 (v.toInt * (p.nanos / q.nanos)) = true) :
    (p.convert v q).toInt = v.toInt * (p.nanos / q.nanos) := by
  have hquotient : (v.toInt * p.nanos).tdiv q.nanos = v.toInt * (p.nanos / q.nanos) := by
    rw [← Int.mul_tdiv_cancel (v.toInt * (p.nanos / q.nanos)) q.nanos_pos.ne', mul_assoc,
      mul_comm (p.nanos / q.nanos), nanos_mul_div h]
  rw [convert_eq, hquotient, toInt_clampInt64_of_fits hfits]

theorem convert_convert_of_ge {p q : Precision} (h : q ≤ p) {v : Int64}
    (hfits : fitsInt64 (v.toInt * (p.nanos / q.nanos)) = true) (r : Precision) :
    q.convert (p.convert v q) r = p.convert v r := by
  rw [convert_eq q, toInt_convert_of_ge h hfits, mul_assoc, mul_comm (p.nanos / q.nanos),
    nanos_mul_div h, ← convert_eq]

theorem convert_self (p : Precision) (v : Int64) : p.convert v p = v := by
  refine Int64.toInt_inj.1 ?_
  rw [toInt_convert_of_le (le_refl p.nanos), Int.ediv_self p.nanos_pos.ne', Int.tdiv_one]

theorem convert_convert_of_le {p q r : Precision} (hpq : p ≤ q) (hqr : q ≤ r) (v : Int64) :
    q.convert (p.convert v q) r = p.convert v r := by
  have hpr : p ≤ r := le_trans (α := Int) hpq hqr
  have hunits : q.nanos / p.nanos * (r.nanos / q.nanos) = r.nanos / p.nanos := by
    refine mul_left_cancel₀ p.nanos_pos.ne' ?_
    rw [← mul_assoc, nanos_mul_div hpq, nanos_mul_div hqr, nanos_mul_div hpr]
  refine Int64.toInt_inj.1 ?_
  rw [toInt_convert_of_le hqr, toInt_convert_of_le hpq, toInt_convert_of_le hpr,
    tdiv_tdiv _ (nanos_div_pos hpq).le, hunits]

/-- Conversion to a coarser unit and back. -/
theorem toInt_convert_back {p q : Precision} (h : p ≤ q) (v : Int64) :
    (q.convert (p.convert v q) p).toInt =
      v.toInt.tdiv (q.nanos / p.nanos) * (q.nanos / p.nanos) := by
  have hfits := fitsInt64_of_towardZero (towardZero_tdiv_mul v.toInt (nanos_div_pos h))
    (fitsInt64_toInt v)
  rw [← toInt_convert_of_le h] at hfits ⊢
  exact toInt_convert_of_ge h hfits

/-- The words on the way of a conversion hold its numbers, so that it is the quotient truncated
toward zero and stopped at the ends of the 64-bit range, and it respects the order. Through finer
units that still hold the number, or through coarser ones on the way to units coarser still, it is
the direct conversion. To coarser units and back less than one of them is lost, toward zero. -/
theorem conversions_truncate_and_compose (p q r : Precision) (v : Int64) :
    (BitVec.smulOverflow (wide v.toInt) (wide p.nanos) = false ∧
      BitVec.sdivOverflow (p.wideNanos v) (wide q.nanos) = false) ∧
    (p.convert v q).toInt = max Int64.minValue.toInt
      (min ((v.toInt * p.nanos).tdiv q.nanos) Int64.maxValue.toInt) ∧
    (∀ w, v ≤ w → p.convert v q ≤ p.convert w q) ∧
    (q ≤ p → fitsInt64 (v.toInt * (p.nanos / q.nanos)) = true →
      q.convert (p.convert v q) r = p.convert v r ∧ q.convert (p.convert v q) p = v) ∧
    (p ≤ q → q ≤ r → q.convert (p.convert v q) r = p.convert v r) ∧
    (p ≤ q →
      (q.convert (p.convert v q) p).toInt =
        (p.convert v q).toInt * (q.nanos / p.nanos) ∧
      |v.toInt - (q.convert (p.convert v q) p).toInt| < q.nanos / p.nanos ∧
      |(q.convert (p.convert v q) p).toInt| ≤ |v.toInt|) := by
  refine ⟨⟨p.not_smulOverflow v, not_sdivOverflow _ q⟩, ?_, fun w => convert_mono p q, ?_, ?_, ?_⟩
  · rw [convert_eq, toInt_clampInt64]
  · intro hqp hfits
    refine ⟨convert_convert_of_ge hqp hfits r, ?_⟩
    rw [convert_convert_of_ge hqp hfits, convert_self]
  · exact fun hpq hqr => convert_convert_of_le hpq hqr v
  · intro hpq
    have hunit := nanos_div_pos hpq
    rw [toInt_convert_back hpq, toInt_convert_of_le hpq]
    refine ⟨rfl, ?_, (towardZero_tdiv_mul v.toInt hunit).abs_le⟩
    rw [Int.tdiv_mul_self, sub_sub_cancel]
    exact abs_lt.2 ⟨Int.lt_tmod_of_pos _ hunit, Int.tmod_lt_of_pos _ hunit⟩

theorem conversions_truncate_and_compose_of_negative_times :
    (seconds.convert (minutes.convert (-3) seconds) hours = minutes.convert (-3) hours ∧
      seconds.convert (minutes.convert (-3) seconds) minutes = -3) ∧
      milliseconds.convert (nanoseconds.convert (-1999999999) milliseconds) seconds =
        nanoseconds.convert (-1999999999) seconds ∧
      nanoseconds.convert (-1999999999) seconds ≤ nanoseconds.convert (-999999999) seconds ∧
      |(-1999999999 : Int64).toInt -
        (seconds.convert (nanoseconds.convert (-1999999999) seconds) nanoseconds).toInt| <
          1000000000 := by
  refine ⟨?_, ?_, ?_, ?_⟩
  · exact (conversions_truncate_and_compose minutes seconds hours (-3)).2.2.2.1 (by decide)
      (by decide)
  · exact (conversions_truncate_and_compose nanoseconds milliseconds seconds
      (-1999999999)).2.2.2.2.1 (by decide) (by decide)
  · exact (conversions_truncate_and_compose nanoseconds seconds seconds (-1999999999)).2.2.1 _
      (by decide)
  · exact ((conversions_truncate_and_compose nanoseconds seconds seconds
      (-1999999999)).2.2.2.2.2 (by decide)).2.1

end Precision

end TimeSeries
