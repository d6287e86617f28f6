import TimeSeries.Proofs.Point.Conversion
import TimeSeries.Time.Calendar

/-!
# Timestamps of moments

The timestamp of a moment keeps the nanoseconds since 1970 where they fit 64 bits and the
microseconds, rounded down, everywhere else. At a precision the number of it should be the exact
quotient, truncated toward zero and stopped at the ends of the range. Where microseconds are kept
this can fail in two ways.

Behind the last nanosecond that fits, in the same microsecond, the number at nanoseconds falls back
to the beginning of the microsecond (`Moment.FallsBack`), so it is smaller than those of moments
before. And before the first nanosecond that fits, rounding down goes away from zero: where it
reaches a whole unit, the number is one less than the truncated quotient (`Moment.StepsBack`).
-/

namespace TimeSeries

open Timestamp

/-- A quotient of a negative number and that of its successor, both truncated toward zero. -/
theorem tdiv_add_one {c : Int} (hc : c < 0) {k : Int} (hk : 0 < k) :
    (c + 1).tdiv k = c.tdiv k + if k ∣ c then 1 else 0 := by
  obtain ⟨a, rfl⟩ : ∃ a : Nat, c = -((a + 1 : Nat) : Int) := ⟨(-c - 1).toNat, by omega⟩
  obtain ⟨b, rfl⟩ := Int.eq_ofNat_of_zero_le hk.le
  have hnext : -((a + 1 : Nat) : Int) + 1 = -(a : Int) := by omega
  have hdvd : (b : Int) ∣ -((a + 1 : Nat) : Int) ↔ b ∣ a + 1 := by
    rw [Int.dvd_neg, Int.natCast_dvd_natCast]
  have hquotient : (a + 1) / b = a / b + if b ∣ a + 1 then 1 else 0 := Nat.succ_div
  rw [hnext, Int.neg_tdiv, Int.neg_tdiv, Int.natCast_tdiv_eq_ediv, Int.natCast_tdiv_eq_ediv,
    ← Int.natCast_ediv, ← Int.natCast_ediv, hquotient, if_congr hdvd rfl rfl]
  split <;> omega

theorem tdiv_eq_floor (n : Int) :
    n.tdiv 1000 = n / 1000 + if n < 0 ∧ ¬1000 ∣ n then 1 else 0 := by
  rw [Int.tdiv_eq_ediv]
  congr 1
  by_cases hn : 0 ≤ n ∨ 1000 ∣ n
  · rw [if_pos hn, if_neg (by omega)]
  · rw [if_neg hn, if_pos (by omega)]
    rfl

namespace Moment

/-- The moment is in the years that a calendar date can have, and its nanoseconds are those of one
second or of a leap second. -/
def Dated (m : Moment) : Prop :=
  (Date.mk (-262144) 1 1).toDays * 86400 ≤ m.second ∧
    m.second < (Date.mk 262144 1 1).toDays * 86400 ∧ m.nano < 2000000000

instance (m : Moment) : Decidable m.Dated := inferInstanceAs (Decidable (_ ∧ _ ∧ _))

/-- The nanoseconds that the timestamp of the moment keeps. -/
def keptNanos (m : Moment) : Int :=
  if fitsInt64 m.unixNanos then m.unixNanos else m.unixMicros * 1000

/-- The number of the moment at a precision, exact up to its truncation. -/
def unitsAt (m : Moment) (p : Precision) : Int64 := clampInt64 (m.unixNanos.tdiv p.nanos)

/-- The moment is behind the last nanosecond that fits 64 bits, in the same microsecond. -/
def FallsBack (m : Moment) : Prop :=
  Int64.maxValue.toInt < m.unixNanos ∧ m.unixMicros = Int64.maxValue.toInt / 1000

/-- The moment is before the first nanosecond that fits 64 bits, inside of a microsecond that begins
with a unit of the precision. -/
def StepsBack (m : Moment) (p : Precision) : Prop :=
  m.unixNanos < Int64.minValue.toInt ∧ ¬1000 ∣ m.unixNanos ∧ p.nanos ∣ m.unixMicros * 1000

/-- The number of the moment at the precision is not its exact one. -/
def Misdated (m : Moment) (p : Precision) : Prop :=
  p = .nanoseconds ∧ m.FallsBack ∨ p ≠ .nanoseconds ∧ m.StepsBack p

instance (m : Moment) : Decidable m.FallsBack := inferInstanceAs (Decidable (_ ∧ _))

instance (m : Moment) (p : Precision) : Decidable (m.StepsBack p) :=
  inferInstanceAs (Decidable (_ ∧ _ ∧ _))

instance (m : Moment) (p : Precision) : Decidable (m.Misdated p) :=
  inferInstanceAs (Decidable (_ ∧ _ ∨ _ ∧ _))

theorem unixMicros_eq (m : Moment) : m.unixMicros = m.unixNanos / 1000 := by
  rw [unixMicros, unixNanos]
  omega

theorem fitsInt64_unixMicros {m : Moment} (hm : m.Dated) : fitsInt64 m.unixMicros = true := by
  have hfirst : (Date.mk (-262144) 1 1).toDays * 86400 = -8334632851200 := by decide
  have hlast : (Date.mk 262144 1 1).toDays * 86400 = 8210298412800 := by decide
  have hmin := Int64.toInt_minValue
  have hmax := Int64.toInt_maxValue
  obtain ⟨hlow, hhigh, hnano⟩ := hm
  rw [fitsInt64_iff, unixMicros]
  omega

theorem toPrecision_ofMoment {m : Moment} (hm : m.Dated) (p : Precision) :
    (ofMoment m).toPrecision p = clampInt64 (m.keptNanos.tdiv p.nanos) := by
  rw [ofMoment, keptNanos]
  split
  · next hfits =>
      rw [toPrecision, Precision.convert_eq, toInt_ofInt_of_fits hfits, Precision.nanos, mul_one]
  · rw [toPrecision, Precision.convert_eq, toInt_ofInt_of_fits (fitsInt64_unixMicros hm),
      Precision.nanos]

theorem exists_nanos_eq {p : Precision} (hp : p ≠ .nanoseconds) :
    ∃ k, p.nanos = 1000 * k ∧ 0 < k := by
  have hle : Precision.microseconds ≤ p := by
    cases p with
    | nanoseconds => exact absurd rfl hp
    | _ => decide
  exact ⟨_, (Precision.nanos_mul_div hle).symm, Precision.nanos_div_pos hle⟩

theorem keptNanos_of_not_fits {m : Moment} (hout : fitsInt64 m.unixNanos = false) :
    m.keptNanos = 1000 * m.unixMicros := by
  rw [keptNanos, hout, if_neg Bool.false_ne_true, mul_comm]

/-- At a precision coarser than nanoseconds, kept microseconds miss nothing but the unit that
rounding down steps back by. -/
theorem tdiv_unixNanos {m : Moment} {p : Precision} (hp : p ≠ .nanoseconds)
    (hout : fitsInt64 m.unixNanos = false) :
    m.unixNanos.tdiv p.nanos = m.keptNanos.tdiv p.nanos + if m.StepsBack p then 1 else 0 := by
  obtain ⟨k, hk, hkpos⟩ := exists_nanos_eq hp
  have hkept : m.keptNanos.tdiv p.nanos = m.unixMicros.tdiv k := by
    rw [keptNanos_of_not_fits hout, hk, Int.mul_tdiv_mul_of_pos _ _ (by decide)]
  have hexact : m.unixNanos.tdiv p.nanos = (m.unixNanos.tdiv 1000).tdiv k := by
    rw [hk, tdiv_tdiv _ (by decide)]
  have hunit : p.nanos ∣ m.unixMicros * 1000 ↔ k ∣ m.unixMicros := by
    rw [hk, mul_comm m.unixMicros]
    exact Int.mul_dvd_mul_iff_left (by decide)
  have hbefore : m.unixNanos < 0 ↔ m.unixNanos < Int64.minValue.toInt := by
    have hmin := Int64.toInt_minValue
    have hmax := Int64.toInt_maxValue
    rcases fitsInt64_eq_false_iff.1 hout with h | h <;> omega
  rw [hkept, hexact, tdiv_eq_floor, ← unixMicros_eq]
  by_cases hround : m.unixNanos < 0 ∧ ¬1000 ∣ m.unixNanos
  · have hneg : m.unixMicros < 0 := by
      rw [unixMicros_eq]
      omega
    have hback : m.StepsBack p ↔ k ∣ m.unixMicros := by
      rw [StepsBack, hunit, ← hbefore, ← and_assoc, and_iff_right hround]
    rw [if_pos hround, tdiv_add_one hneg hkpos, if_congr hback rfl rfl]
  · have hback : ¬m.StepsBack p := fun h => hround ⟨hbefore.2 h.1, h.2.1⟩
    rw [if_neg hround, if_neg hback, add_zero, add_zero]

theorem not_stepsBack_of_fits {m : Moment} (h : fitsInt64 m.unixNanos = true) (p : Precision) :
    ¬m.StepsBack p :=
  fun hback => absurd (fitsInt64_iff.1 h).1 (not_le.2 hback.1)

theorem not_fallsBack_of_fits {m : Moment} (h : fitsInt64 m.unixNanos = true) : ¬m.FallsBack :=
  fun hback => absurd (fitsInt64_iff.1 h).2 (not_le.2 hback.1)

theorem toPrecision_ofMoment_of_fits {m : Moment} (hm : m.Dated)
    (h : fitsInt64 m.unixNanos = true) (p : Precision) :
    (ofMoment m).toPrecision p = m.unitsAt p := by
  rw [toPrecision_ofMoment hm, keptNanos, if_pos h, unitsAt]

theorem fitsInt64_tdiv_keptNanos {m : Moment} (hm : m.Dated) {p : Precision}
    (hp : p ≠ .nanoseconds) (hout : fitsInt64 m.unixNanos = false) :
    fitsInt64 (m.keptNanos.tdiv p.nanos) = true := by
  obtain ⟨k, hk, hkpos⟩ := exists_nanos_eq hp
  rw [keptNanos_of_not_fits hout, hk, Int.mul_tdiv_mul_of_pos _ _ (by decide)]
  exact fitsInt64_of_towardZero (towardZero_tdiv _ hkpos) (fitsInt64_unixMicros hm)

theorem fitsInt64_tdiv_unixNanos {m : Moment} (hm : m.Dated) :
    fitsInt64 (m.unixNanos.tdiv 1000) = true := by
  have hmin := Int64.toInt_minValue
  have hmax := Int64.toInt_maxValue
  have hmicros := fitsInt64_iff.1 (fitsInt64_unixMicros hm)
  rw [unixMicros_eq] at hmicros
  rw [fitsInt64_iff, tdiv_eq_floor]
  split <;> omega

/-- Coarser than nanoseconds, the number of a moment is its exact one, unless rounding down steps
back by a unit. -/
theorem toInt_unitsAt {m : Moment} (hm : m.Dated) {p : Precision} (hp : p ≠ .nanoseconds) :
    (m.unitsAt p).toInt =
      ((ofMoment m).toPrecision p).toInt + if m.StepsBack p then 1 else 0 := by
  cases hfits : fitsInt64 m.unixNanos with
  | true =>
      rw [toPrecision_ofMoment_of_fits hm hfits, if_neg (not_stepsBack_of_fits hfits p), add_zero]
  | false =>
      have hexact : fitsInt64 (m.unixNanos.tdiv p.nanos) = true := by
        obtain ⟨k, hk, hkpos⟩ := exists_nanos_eq hp
        rw [hk, ← tdiv_tdiv _ (by decide)]
        exact fitsInt64_of_towardZero (towardZero_tdiv _ hkpos) (fitsInt64_tdiv_unixNanos hm)
      rw [unitsAt, toInt_clampInt64_of_fits hexact, toPrecision_ofMoment hm,
        toInt_clampInt64_of_fits (fitsInt64_tdiv_keptNanos hm hp hfits),
        tdiv_unixNanos hp hfits]

theorem toInt_unitsAt_nanoseconds (m : Moment) :
    (m.unitsAt .nanoseconds).toInt =
      max Int64.minValue.toInt (min m.unixNanos Int64.maxValue.toInt) := by
  rw [unitsAt, toInt_clampInt64, Precision.nanos, Int.tdiv_one]

/-- At nanoseconds, the number of a moment is its exact one, unless it falls back to the beginning
of the last microsecond. -/
theorem toInt_toPrecision_nanoseconds {m : Moment} (hm : m.Dated) :
    ((ofMoment m).toPrecision .nanoseconds).toInt =
      if m.FallsBack then Int64.maxValue.toInt / 1000 * 1000
      else (m.unitsAt .nanoseconds).toInt := by
  cases hfits : fitsInt64 m.unixNanos with
  | true => rw [toPrecision_ofMoment_of_fits hm hfits, if_neg (not_fallsBack_of_fits hfits)]
  | false =>
      have hmin := Int64.toInt_minValue
      have hmax := Int64.toInt_maxValue
      have hmicros := unixMicros_eq m
      have hbounds := fitsInt64_eq_false_iff.1 hfits
      rw [toPrecision_ofMoment hm, keptNanos_of_not_fits hfits, toInt_unitsAt_nanoseconds,
        Precision.nanos, Int.tdiv_one, toInt_clampInt64]
      by_cases hback : m.FallsBack
      · have hlast := hback.1
        have hsame := hback.2
        rw [if_pos hback]
        omega
      · rw [if_neg hback]
        rw [FallsBack] at hback
        omega

theorem unixMicros_mono {m m' : Moment} (h : m.unixNanos ≤ m'.unixNanos) :
    m.unixMicros ≤ m'.unixMicros := by
  rw [unixMicros_eq, unixMicros_eq]
  exact Int.ediv_le_ediv (by decide) h

theorem unitsAt_mono {m m' : Moment} (h : m.unixNanos ≤ m'.unixNanos) (p : Precision) :
    m.unitsAt p ≤ m'.unitsAt p :=
  clampInt64_mono (Int.tdiv_le_tdiv p.nanos_pos h)

/-- Coarser than nanoseconds, numbers of moments never go back. -/
theorem toPrecision_ofMoment_mono {m m' : Moment} (hm : m.Dated) (hm' : m'.Dated)
    (h : m.unixNanos ≤ m'.unixNanos) {p : Precision} (hp : p ≠ .nanoseconds) :
    (ofMoment m).toPrecision p ≤ (ofMoment m').toPrecision p := by
  by_cases hback : m'.StepsBack p
  · have hout' := fitsInt64_eq_false_iff.2 (Or.inl hback.1)
    have hout := fitsInt64_eq_false_iff.2 (Or.inl (h.trans_lt hback.1))
    have hkept : m.keptNanos ≤ m'.keptNanos := by
      rw [keptNanos_of_not_fits hout, keptNanos_of_not_fits hout']
      exact mul_le_mul_of_nonneg_left (unixMicros_mono h) (by decide)
    rw [toPrecision_ofMoment hm, toPrecision_ofMoment hm']
    exact clampInt64_mono (Int.tdiv_le_tdiv p.nanos_pos hkept)
  · have hunits := Int64.le_iff_toInt_le.1 (unitsAt_mono h p)
    rw [toInt_unitsAt hm hp, toInt_unitsAt hm' hp, if_neg hback] at hunits
    rw [Int64.le_iff_toInt_le]
    split at hunits <;> omega

/-- At nanoseconds, numbers of moments go back from the last ones that fit to those that fall back
behind them. -/
theorem toPrecision_nanoseconds_le_iff {m m' : Moment} (hm : m.Dated) (hm' : m'.Dated)
    (h : m.unixNanos ≤ m'.unixNanos) :
    (ofMoment m).toPrecision .nanoseconds ≤ (ofMoment m').toPrecision .nanoseconds ↔
      ¬(m'.FallsBack ∧ fitsInt64 m.unixNanos = true ∧
        Int64.maxValue.toInt / 1000 * 1000 < m.unixNanos) := by
  have hmin := Int64.toInt_minValue
  have hmax := Int64.toInt_maxValue
  have hmicros := unixMicros_eq m
  rw [Int64.le_iff_toInt_le, toInt_toPrecision_nanoseconds hm, toInt_toPrecision_nanoseconds hm',
    toInt_unitsAt_nanoseconds, toInt_unitsAt_nanoseconds, fitsInt64_iff]
  simp only [FallsBack, unixMicros_eq]
  split <;> split <;> omega

theorem misdated_nanoseconds (m : Moment) : m.Misdated .nanoseconds ↔ m.FallsBack := by
  rw [Misdated, and_iff_right rfl, or_iff_left fun h => h.1 rfl]

theorem misdated_of_ne (m : Moment) {p : Precision} (hp : p ≠ .nanoseconds) :
    m.Misdated p ↔ m.StepsBack p := by
  rw [Misdated, and_iff_right hp, or_iff_right fun h => hp h.1]

end Moment

namespace Timestamp

/-- The number of a moment at a precision is the exact quotient, truncated toward zero and stopped
at the ends of the range, unless the moment is misdated. Then it is one unit less, and at
nanoseconds the beginning of the last microsecond. Only at nanoseconds, and only where a moment
falls back, can it have a smaller number than one before. -/
theorem toPrecision_ofMoment_eq_iff {m : Moment} (hm : m.Dated) (p : Precision) :
    ((ofMoment m).toPrecision p = m.unitsAt p ↔ ¬m.Misdated p) ∧
      (m.Misdated p → ((ofMoment m).toPrecision p).toInt =
        if p = .nanoseconds then Int64.maxValue.toInt / 1000 * 1000
        else (m.unitsAt p).toInt - 1) ∧
      ∀ m' : Moment, m'.Dated → m.unixNanos ≤ m'.unixNanos →
        ((ofMoment m).toPrecision p ≤ (ofMoment m').toPrecision p ↔
          ¬(p = .nanoseconds ∧ m'.FallsBack ∧ fitsInt64 m.unixNanos = true ∧
            Int64.maxValue.toInt / 1000 * 1000 < m.unixNanos)) := by
  rw [← Int64.toInt_inj]
  by_cases hp : p = .nanoseconds
  · subst hp
    have hnumber := Moment.toInt_toPrecision_nanoseconds hm
    rw [m.misdated_nanoseconds, hnumber, if_pos rfl]
    refine ⟨?_, fun hback => if_pos hback, fun m' hm' h => ?_⟩
    · by_cases hback : m.FallsBack
      · have hmax := Int64.toInt_maxValue
        have hlast := hback.1
        rw [if_pos hback, m.toInt_unitsAt_nanoseconds]
        exact iff_of_false (by omega) (not_not_intro hback)
      · rw [if_neg hback]
        exact iff_of_true rfl hback
    · rw [and_iff_right rfl]
      exact Moment.toPrecision_nanoseconds_le_iff hm hm' h
  · have hexact := Moment.toInt_unitsAt hm hp
    rw [m.misdated_of_ne hp, hexact, if_neg hp]
    refine ⟨?_, ?_, fun m' hm' h => ?_⟩
    · by_cases hback : m.StepsBack p
      · rw [if_pos hback]
        exact iff_of_false (by omega) (not_not_intro hback)
      · rw [if_neg hback, add_zero]
        exact iff_of_true rfl hback
    · intro hback
      rw [if_pos hback, add_sub_cancel_right]
    · exact iff_of_true (Moment.toPrecision_ofMoment_mono hm hm' h hp) fun hback => hp hback.1

/-- The last moment whose nanoseconds fit 64 bits, and the next one. -/
theorem toPrecision_ofMoment_of_last_nanosecond :
    (Moment.mk 9223372036 854775807 0).Dated ∧ (Moment.mk 9223372036 854775808 0).Dated ∧
      (ofMoment ⟨9223372036, 854775807, 0⟩).toPrecision .nanoseconds = 9223372036854775807 ∧
      ((ofMoment ⟨9223372036, 854775808, 0⟩).toPrecision .nanoseconds).toInt =
        9223372036854775000 ∧
      ¬(ofMoment ⟨9223372036, 854775807, 0⟩).toPrecision .nanoseconds ≤
        (ofMoment ⟨9223372036, 854775808, 0⟩).toPrecision .nanoseconds := by
  have hm : (Moment.mk 9223372036 854775807 0).Dated := by decide
  have hm' : (Moment.mk 9223372036 854775808 0).Dated := by decide
  refine ⟨hm, hm', ?_, ?_, ?_⟩
  · exact (toPrecision_ofMoment_eq_iff hm .nanoseconds).1.2 (by decide)
  · exact (toPrecision_ofMoment_eq_iff hm' .nanoseconds).2.1 (by decide)
  · intro hle
    exact ((toPrecision_ofMoment_eq_iff hm .nanoseconds).2.2 _ hm' (by decide)).1 hle (by decide)

/-- Exact numbers are missed at both ends: the nanosecond before the first that fits 64 bits lies
between two microseconds and gets the number of the earlier one, and behind the last that fits the
numbers go back. -/
theorem toPrecision_ofMoment_not_exact :
    (¬∀ (m : Moment) (p : Precision), m.Dated → (ofMoment m).toPrecision p = m.unitsAt p) ∧
      ¬∀ (m m' : Moment) (p : Precision), m.Dated → m'.Dated → m.unixNanos ≤ m'.unixNanos →
        (ofMoment m).toPrecision p ≤ (ofMoment m').toPrecision p := by
  constructor
  · intro h
    exact absurd (h ⟨-9223372037, 145224191, 0⟩ .microseconds (by decide)) (by decide)
  · intro h
    exact absurd (h ⟨9223372036, 854775807, 0⟩ ⟨9223372036, 854775808, 0⟩ .nanoseconds (by decide)
      (by decide) (by decide)) (by decide)

end Timestamp

end TimeSeries
