import Mathlib.Order.Basic
import TimeSeries.Time.Calendar

/-!
# The day of a date is the day it was made from

Counting the days of a date inverts taking the date of a day. Within an era the year of a day is
found by one division after three corrections, and what it has to be is told by the first days of
the years: a year has begun exactly when it is not after the year of the day. The division is
monotone, so it is enough to know it on the first day of every year and on the day before.
-/

namespace TimeSeries.Date

/-- The days of an era in front of its year `y`. -/
def yearStart (y : Int) : Int := 365 * y + y / 4 - y / 100

/-- The year of an era that its day `n` is in. -/
def yearOfDay (n : Int) : Int := (n - n / 1460 + n / 36524 - n / 146096) / 365

theorem yearOfDay_mono {n m : Int} (h : n ≤ m) : yearOfDay n ≤ yearOfDay m := by
  have hcycles : n - n / 1460 ≤ m - m / 1460 := by omega
  have hcenturies : n / 36524 - n / 146096 ≤ m / 36524 - m / 146096 := by omega
  exact Int.ediv_le_ediv (by decide) (by omega)

/-- The first day of a year, and the last one but for the leap day that ends the era. -/
theorem yearOfDay_yearStart :
    ∀ y : Fin 400, yearOfDay (yearStart y) = y ∧ yearOfDay (yearStart (y + 1) - 1) = y := by
  decide +kernel

theorem yearOfDay_bounds {n : Int} (hn : 0 ≤ n) (hlt : n < 146097) :
    0 ≤ yearOfDay n ∧ yearOfDay n < 400 := by
  unfold yearOfDay
  omega

theorem yearStart_le_iff {n : Int} (hn : 0 ≤ n) {y : Nat} (hy : y < 400) :
    yearStart y ≤ n ↔ y ≤ yearOfDay n := by
  constructor
  · intro h
    rw [← (yearOfDay_yearStart ⟨y, hy⟩).1]
    exact yearOfDay_mono h
  · intro h
    cases y with
    | zero => exact hn
    | succ y =>
        by_contra hgt
        have hlast := (yearOfDay_yearStart ⟨y, by omega⟩).2
        have hmono := yearOfDay_mono (Int.le_sub_one_of_lt (Int.not_le.1 hgt))
        rw [Int.natCast_succ] at hmono
        dsimp only at hlast
        omega

/-- A year of an era has no more than 366 days. -/
theorem dayOfYear_bounds {n : Int} (hn : 0 ≤ n) (hlt : n < 146097) :
    0 ≤ n - yearStart (yearOfDay n) ∧ n - yearStart (yearOfDay n) < 366 := by
  obtain ⟨hy, hy400⟩ := yearOfDay_bounds hn hlt
  obtain ⟨y, hyear⟩ := Int.eq_ofNat_of_zero_le hy
  have hbegun := (yearStart_le_iff hn (y := y) (by omega)).2 (Int.le_of_eq hyear.symm)
  rw [hyear]
  refine ⟨Int.sub_nonneg.2 hbegun, ?_⟩
  by_cases hlast : y = 399
  · rw [hlast, yearStart]
    omega
  · have hnext : n < yearStart (y + 1 : Nat) := by
      rw [← Int.not_le, yearStart_le_iff hn (by omega)]
      omega
    unfold yearStart at hnext ⊢
    omega

/-- The day with number `d` of the year that begins in the March of `year`. -/
def ofMarch (year d : Int) : Date :=
  let month := (5 * d + 2) / 153
  let day := d - (153 * month + 2) / 5 + 1
  if month < 10 then ⟨year, (month + 3).toNat, day.toNat⟩
  else ⟨year + 1, (month - 9).toNat, day.toNat⟩

theorem ofDays_eq (days : Int) :
    ∃ era y d : Int, 0 ≤ y ∧ y < 400 ∧ 0 ≤ d ∧ d < 366 ∧
      days = era * 146097 + (yearStart y + d) - 719468 ∧
        ofDays days = ofMarch (y + era * 400) d := by
  have hera : Int.fdiv (days + 719468) 146097 = (days + 719468) / 146097 :=
    Int.fdiv_eq_ediv_of_nonneg _ (by decide)
  obtain ⟨n, hn⟩ : ∃ n, n = days + 719468 - (days + 719468) / 146097 * 146097 := ⟨_, rfl⟩
  have hpos : 0 ≤ n := by omega
  have hlt : n < 146097 := by omega
  obtain ⟨hy, hy400⟩ := yearOfDay_bounds hpos hlt
  obtain ⟨hd, hd366⟩ := dayOfYear_bounds hpos hlt
  refine ⟨(days + 719468) / 146097, yearOfDay n, n - yearStart (yearOfDay n), hy, hy400, hd, hd366,
    by omega, ?_⟩
  rw [ofDays, hera, ← hn]
  rfl

theorem toDays_ofMarch {era y d : Int} (hy : 0 ≤ y) (hy400 : y < 400) (hd : 0 ≤ d)
    (hlt : d < 366) :
    (ofMarch (y + era * 400) d).toDays = era * 146097 + (yearStart y + d) - 719468 := by
  have hera : Int.fdiv (y + era * 400) 400 = era := by
    rw [Int.fdiv_eq_ediv_of_nonneg _ (by decide)]
    omega
  have hyear : y + era * 400 - era * 400 = y := by omega
  rw [ofMarch]
  split
  · next hmonth =>
      have hlate : ¬((5 * d + 2) / 153 + 3).toNat ≤ 2 := by omega
      rw [toDays]
      dsimp only
      rw [if_neg hlate, if_neg hlate, hera, hyear, yearStart]
      omega
  · next hmonth =>
      have hearly : ((5 * d + 2) / 153 - 9).toNat ≤ 2 := by omega
      rw [toDays]
      dsimp only
      rw [if_pos hearly, if_pos hearly, Int.add_sub_cancel, hera, hyear, yearStart]
      omega

theorem toDays_ofDays (days : Int) : (ofDays days).toDays = days := by
  obtain ⟨era, y, d, hy, hy400, hd, hlt, hdays, hdate⟩ := ofDays_eq days
  rw [hdate, toDays_ofMarch hy hy400 hd hlt, hdays]

end TimeSeries.Date
