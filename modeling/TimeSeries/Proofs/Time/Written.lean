import Mathlib.Data.List.TakeWhile
import TimeSeries.Proofs.Number.Decimal
import TimeSeries.Proofs.Text.Run
import TimeSeries.Proofs.Time.Calendar
import TimeSeries.Time.Rfc3339

/-!
# A moment is determined by its text

The text of a moment is a row of numbers, and each of them ends where something stands that is no
digit. So the numbers are found again one after the other: the date and with it the day, the time of
day, the fraction, of which the number of digits tells the unit, and the offset.

A second 60 is written for a leap second and for nothing else, as long as leap seconds follow second
59 of a minute. A moment that was read has them nowhere else; in another place they are written as
the second behind them.
-/

namespace TimeSeries.Moment

open Text

theorem exists_of_bind_eq_ok {ε α β : Type} {x : Except ε α} {f : α → Except ε β} {b : β}
    (h : x >>= f = .ok b) : ∃ a, x = .ok a ∧ f a = .ok b := by
  cases x with
  | error e => cases h
  | ok a => exact ⟨a, rfl, h⟩

/-- The nanoseconds stay within the second, or go on into a leap second at the end of a minute. -/
def IsProper (m : Moment) : Prop :=
  m.nano < 1000000000 ∨ m.nano < 2000000000 ∧ m.second % 60 = 59

instance (m : Moment) : Decidable m.IsProper := inferInstanceAs (Decidable (_ ∨ _))

section Read

variable {l rest : List Char}

theorem scaled_digits_lt {digits : List Char} (h : ∀ c ∈ digits, Number.isDigit c = true) :
    Number.valueOfDigits (digits.take 9) * 10 ^ (9 - (digits.take 9).length) < 1000000000 := by
  have hvalue : Number.valueOfDigits (digits.take 9) < 10 ^ (digits.take 9).length :=
    Number.valueOfDigits_lt fun c hc => h c (List.mem_of_mem_take hc)
  calc Number.valueOfDigits (digits.take 9) * 10 ^ (9 - (digits.take 9).length)
      < 10 ^ (digits.take 9).length * 10 ^ (9 - (digits.take 9).length) :=
        Nat.mul_lt_mul_of_pos_right hvalue (Nat.pow_pos (by decide))
    _ = 1000000000 := by rw [← Nat.pow_add, Nat.add_sub_cancel' (List.length_take_le 9 digits)]

theorem readFraction_lt {nano : Nat} (h : readFraction l = .ok (nano, rest)) :
    nano < 1000000000 := by
  rw [readFraction.eq_def] at h
  split at h
  · dsimp only at h
    split at h
    · cases h
    · cases h
    · obtain ⟨rfl, -⟩ := Prod.mk.inj (Except.ok.inj h)
      exact scaled_digits_lt fun c => List.mem_takeWhile_imp
  · obtain ⟨rfl, -⟩ := Prod.mk.inj (Except.ok.inj h)
    decide

theorem readClock_proper {clock nano : Nat} (h : readClock l = .ok (clock, nano, rest)) :
    nano < 1000000000 ∨ nano < 2000000000 ∧ clock % 60 = 59 := by
  rw [readClock] at h
  obtain ⟨⟨hour, l₁⟩, -, h⟩ := exists_of_bind_eq_ok h
  obtain ⟨l₂, -, h⟩ := exists_of_bind_eq_ok h
  obtain ⟨⟨minute, l₃⟩, -, h⟩ := exists_of_bind_eq_ok h
  obtain ⟨l₄, -, h⟩ := exists_of_bind_eq_ok h
  obtain ⟨⟨second, l₅⟩, -, h⟩ := exists_of_bind_eq_ok h
  obtain ⟨⟨fraction, l₆⟩, hfraction, h⟩ := exists_of_bind_eq_ok h
  have hlt := readFraction_lt hfraction
  dsimp only at h
  split_ifs at h
  · obtain ⟨rfl, hnano⟩ := Prod.mk.inj (Except.ok.inj h)
    obtain ⟨rfl, -⟩ := Prod.mk.inj hnano
    exact Or.inr (by omega)
  · obtain ⟨-, hnano⟩ := Prod.mk.inj (Except.ok.inj h)
    obtain ⟨rfl, -⟩ := Prod.mk.inj hnano
    exact Or.inl hlt

/-- A moment that was read has its leap second where it belongs. -/
theorem isProper_of_read {s : String} {m : Moment} (h : Moment.read s = .ok m) : m.IsProper := by
  rw [Moment.read] at h
  split_ifs at h
  obtain ⟨⟨date, l₁⟩, -, h⟩ := exists_of_bind_eq_ok h
  obtain ⟨l₂, -, h⟩ := exists_of_bind_eq_ok h
  obtain ⟨⟨clock, nano, l₃⟩, hclock, h⟩ := exists_of_bind_eq_ok h
  obtain ⟨⟨offset, l₄⟩, -, h⟩ := exists_of_bind_eq_ok h
  have hproper := readClock_proper hclock
  dsimp only at h
  split_ifs at h
  obtain rfl := Except.ok.inj h
  rcases hproper with hnano | ⟨hnano, hminute⟩
  · exact Or.inl hnano
  · refine Or.inr ⟨hnano, ?_⟩
    dsimp only
    omega

end Read

/-- No digit follows. -/
def EndsDigits (rest : List Char) : Prop := ∀ c ∈ rest.head?, Number.isDigit c = false

section Padded

variable {v w a b : Nat} {s t : List Char}

theorem isDigit_of_mem_padded {c : Char} (h : c ∈ (padded w a).toList) :
    Number.isDigit c = true := by
  rw [padded, String.toList_ofList] at h
  rcases List.mem_append.1 h with hzero | hdigit
  · rw [List.eq_of_mem_replicate hzero]
    decide
  · exact Number.isDigit_of_mem_toDigits hdigit

theorem ofDigitChars_padded : Nat.ofDigitChars 10 (padded w a).toList 0 = a := by
  rw [padded, String.toList_ofList, Nat.ofDigitChars_append, Nat.ofDigitChars_replicate_zero,
    Nat.mul_zero, Nat.ofDigitChars_ten_toDigits]

theorem length_padded (hw : 0 < w) (ha : a < 10 ^ w) : (padded w a).toList.length = w := by
  have hle := (Nat.length_toDigits_le_iff (by decide) hw).2 ha
  rw [padded, String.toList_ofList, List.length_append, List.length_replicate]
  omega

theorem exists_padded_eq_cons : ∃ c l, (padded w a).toList = c :: l ∧ Number.isDigit c = true := by
  have hne : (padded w a).toList ≠ [] := by simp [padded]
  obtain ⟨c, l, hcons⟩ := List.exists_cons_of_ne_nil hne
  exact ⟨c, l, hcons, isDigit_of_mem_padded (hcons ▸ List.mem_cons_self)⟩

theorem padded_append_inj (hs : EndsDigits s) (ht : EndsDigits t)
    (h : (padded v a).toList ++ s = (padded w b).toList ++ t) :
    (padded v a).toList = (padded w b).toList ∧ a = b ∧ s = t := by
  obtain ⟨hdigits, hrest⟩ := append_inj_of_stop h (fun _ => isDigit_of_mem_padded) hs
    (fun _ => isDigit_of_mem_padded) ht
  refine ⟨hdigits, ?_, hrest⟩
  rw [← ofDigitChars_padded (w := v) (a := a), hdigits, ofDigitChars_padded]

/-- A number behind a mark. -/
theorem field_append_inj {mark : Char} (hs : EndsDigits s) (ht : EndsDigits t)
    (h : mark :: ((padded v a).toList ++ s) = mark :: ((padded w b).toList ++ t)) :
    a = b ∧ s = t :=
  (padded_append_inj hs ht (List.cons.inj h).2).2

/-- A sign, or none, ends where the digits begin. -/
theorem signed_append_inj {sign sign' : List Char} (hsign : sign.all fun c => !Number.isDigit c)
    (hsign' : sign'.all fun c => !Number.isDigit c) (hs : EndsDigits s) (ht : EndsDigits t)
    (h : sign ++ ((padded v a).toList ++ s) = sign' ++ ((padded w b).toList ++ t)) :
    sign = sign' ∧ a = b ∧ s = t := by
  have hfirst (w n : Nat) (rest : List Char) :
      ∀ c ∈ ((padded w n).toList ++ rest).head?, (!Number.isDigit c) = false := by
    obtain ⟨c, l, hcons, hc⟩ := exists_padded_eq_cons (w := w) (a := n)
    simp [hcons, hc]
  obtain ⟨heq, hrest⟩ := append_inj_of_stop h (List.all_eq_true.1 hsign) (hfirst _ _ _)
    (List.all_eq_true.1 hsign') (hfirst _ _ _)
  exact ⟨heq, (padded_append_inj hs ht hrest).2⟩

end Padded

/-- The sign of a year outside of the years 0 to 9999. -/
def yearSign (year : Int) : List Char :=
  if year < 0 then ['-'] else if 9999 < year then ['+'] else []

theorem toList_yearText (year : Int) :
    (yearText year).toList = yearSign year ++ (padded 4 year.natAbs).toList := by
  rw [yearText, yearSign]
  split_ifs <;> simp

theorem yearText_append_inj {y z : Int} {s t : List Char} (hs : EndsDigits s) (ht : EndsDigits t)
    (h : (yearText y).toList ++ s = (yearText z).toList ++ t) : y = z ∧ s = t := by
  have hall (year : Int) : (yearSign year).all fun c => !Number.isDigit c := by
    rw [yearSign]
    split_ifs <;> decide
  rw [toList_yearText, toList_yearText, List.append_assoc, List.append_assoc] at h
  obtain ⟨hsign, habs, hrest⟩ := signed_append_inj (hall y) (hall z) hs ht h
  refine ⟨?_, hrest⟩
  unfold yearSign at hsign
  split_ifs at hsign <;> simp at hsign <;> omega

/-- A fraction has as many digits as its unit needs. -/
theorem fractionText_cases {nano : Nat} (h : nano < 1000000000) :
    nano = 0 ∧ fractionText nano = "" ∨
      ∃ w n, 0 < w ∧ n < 10 ^ w ∧ nano = n * 10 ^ (9 - w) ∧
        fractionText nano = "." ++ padded w n := by
  rw [fractionText]
  split_ifs with hzero hmilli hmicro
  · exact Or.inl ⟨hzero, rfl⟩
  · exact Or.inr ⟨3, nano / 1000000, by omega, by omega, by omega, rfl⟩
  · exact Or.inr ⟨6, nano / 1000, by omega, by omega, by omega, rfl⟩
  · exact Or.inr ⟨9, nano, by omega, by omega, by omega, rfl⟩

theorem fractionText_append_inj {a b : Nat} (ha : a < 1000000000) (hb : b < 1000000000)
    {s t : List Char} (hs : EndsDigits s) (ht : EndsDigits t) (hs' : '.' ∉ s) (ht' : '.' ∉ t)
    (h : (fractionText a).toList ++ s = (fractionText b).toList ++ t) : a = b ∧ s = t := by
  rcases fractionText_cases ha with ⟨hzero, hnone⟩ | ⟨v, n, hv, hn, hnano, htext⟩ <;>
    rcases fractionText_cases hb with ⟨hzero', hnone'⟩ | ⟨w, k, hw, hk, hnano', htext'⟩
  · rw [hnone, hnone'] at h
    exact ⟨hzero.trans hzero'.symm, h⟩
  · rw [hnone, htext'] at h
    have hs : s = ("." ++ padded w k).toList ++ t := h
    exact absurd (hs ▸ by simp) hs'
  · rw [htext, hnone'] at h
    have ht : ("." ++ padded v n).toList ++ s = t := h
    exact absurd (ht ▸ by simp) ht'
  · rw [htext, htext', String.toList_append, String.toList_append, List.append_assoc,
      List.append_assoc] at h
    obtain ⟨hdigits, hvalue, hrest⟩ := padded_append_inj hs ht (List.append_cancel_left h)
    have hlength := congrArg List.length hdigits
    rw [length_padded hv hn, length_padded hw hk] at hlength
    exact ⟨by rw [hnano, hnano', hvalue, hlength], hrest⟩

/-- The text of an offset behind the time. -/
def zoneText (offset : Int) : String := if offset = 0 then "Z" else offsetText offset

def offsetSign (offset : Int) : List Char := if offset < 0 then ['-'] else ['+']

theorem toList_offsetText (offset : Int) :
    (offsetText offset).toList = offsetSign offset ++ ((padded 2 (offset.natAbs / 60)).toList ++
      ':' :: ((padded 2 (offset.natAbs % 60)).toList ++ [])) := by
  rw [offsetText, offsetSign]
  split_ifs <;> simp

theorem endsDigits_zoneText (offset : Int) :
    EndsDigits (zoneText offset).toList := by
  rw [zoneText]
  split_ifs
  · simp [EndsDigits, Number.isDigit]
  · rw [toList_offsetText, offsetSign]
    split_ifs <;> simp [EndsDigits, Number.isDigit]

theorem point_not_mem_zoneText (offset : Int) : '.' ∉ (zoneText offset).toList := by
  intro hmem
  rw [zoneText] at hmem
  split_ifs at hmem
  · exact absurd hmem (by decide)
  · have hpadded (n : Nat) : '.' ∉ (padded 2 n).toList := fun h =>
      absurd (isDigit_of_mem_padded h) (by decide)
    rw [toList_offsetText, offsetSign] at hmem
    split_ifs at hmem <;> simp [hpadded] at hmem

theorem zoneText_inj {a b : Int} (h : zoneText a = zoneText b) : a = b := by
  have hall (offset : Int) : (offsetSign offset).all fun c => !Number.isDigit c := by
    rw [offsetSign]
    split_ifs <;> decide
  have hcolon (rest : List Char) : EndsDigits (':' :: rest) := by simp [EndsDigits, Number.isDigit]
  have hnil : EndsDigits [] := by simp [EndsDigits]
  have hzulu (offset : Int) : "Z" ≠ offsetText offset := by
    intro heq
    have hlist := congrArg String.toList heq
    rw [toList_offsetText, offsetSign] at hlist
    split_ifs at hlist <;> simp at hlist
  unfold zoneText at h
  split_ifs at h with ha hb hb
  · rw [ha, hb]
  · exact absurd h (hzulu b)
  · exact absurd h.symm (hzulu a)
  · have hlist := congrArg String.toList h
    rw [toList_offsetText, toList_offsetText] at hlist
    obtain ⟨hsign, hhours, hrest⟩ := signed_append_inj (hall a) (hall b) (hcolon _) (hcolon _) hlist
    obtain ⟨hminutes, -⟩ := field_append_inj hnil hnil hrest
    unfold offsetSign at hsign
    split_ifs at hsign <;> simp at hsign <;> omega

/-- The second of the local clock, counted from 1970-01-01T00:00:00. -/
def localSecond (m : Moment) : Int := m.second + m.offset * 60

def localDate (m : Moment) : Date := Date.ofDays (Int.fdiv m.localSecond 86400)

/-- The second of the local day. -/
def secondOfDay (m : Moment) : Nat := (Int.fmod m.localSecond 86400).toNat

/-- One in a leap second. -/
def leap (m : Moment) : Nat := if 1000000000 ≤ m.nano then 1 else 0

theorem toList_zuluText (m : Moment) :
    m.zuluText.toList = (yearText m.localDate.year).toList ++
      '-' :: ((padded 2 m.localDate.month).toList ++ '-' :: ((padded 2 m.localDate.day).toList ++
      'T' :: ((padded 2 (m.secondOfDay / 3600)).toList ++
      ':' :: ((padded 2 (m.secondOfDay / 60 % 60)).toList ++
      ':' :: ((padded 2 (m.secondOfDay % 60 + m.leap)).toList ++
      ((fractionText (m.nano - m.leap * 1000000000)).toList ++
        (zoneText m.offset).toList)))))) := by
  have htext : m.zuluText = yearText m.localDate.year ++ "-" ++ padded 2 m.localDate.month ++ "-" ++
      padded 2 m.localDate.day ++ "T" ++ padded 2 (m.secondOfDay / 3600) ++ ":" ++
      padded 2 (m.secondOfDay / 60 % 60) ++ ":" ++ padded 2 (m.secondOfDay % 60 + m.leap) ++
      fractionText (m.nano - m.leap * 1000000000) ++ zoneText m.offset := rfl
  simp [htext]

theorem leap_mul_le (m : Moment) : m.leap * 1000000000 ≤ m.nano := by
  rw [leap]
  split_ifs <;> omega

/-- A leap second is where second 60 is written. -/
theorem IsProper.leap_eq {m : Moment} (h : m.IsProper) :
    m.nano - m.leap * 1000000000 < 1000000000 ∧
      m.leap = (m.secondOfDay % 60 + m.leap) / 60 := by
  have hmod : Int.fmod m.localSecond 86400 = m.localSecond % 86400 :=
    Int.fmod_eq_emod_of_nonneg _ (by decide)
  rw [leap, secondOfDay, hmod, localSecond]
  rcases h with h | ⟨h, hminute⟩ <;> split_ifs <;> omega

/-- A second is determined by its day and its place in the day. -/
theorem localSecond_eq {a b : Moment} (hdate : a.localDate = b.localDate)
    (hsecond : a.secondOfDay = b.secondOfDay) : a.localSecond = b.localSecond := by
  have hday := congrArg Date.toDays hdate
  rw [localDate, localDate, Date.toDays_ofDays, Date.toDays_ofDays,
    Int.fdiv_eq_ediv_of_nonneg _ (by decide), Int.fdiv_eq_ediv_of_nonneg _ (by decide)] at hday
  rw [secondOfDay, secondOfDay, Int.fmod_eq_emod_of_nonneg _ (by decide),
    Int.fmod_eq_emod_of_nonneg _ (by decide)] at hsecond
  omega

theorem eq_of_zuluText {a b : Moment} (ha : a.IsProper) (hb : b.IsProper)
    (h : a.zuluText = b.zuluText) : a = b := by
  have hmark {c : Char} (hc : Number.isDigit c = false) (rest : List Char) :
      EndsDigits (c :: rest) := by simp [EndsDigits, hc]
  have hfraction (n : Nat) (offset : Int) :
      EndsDigits ((fractionText n).toList ++ (zoneText offset).toList) := by
    rw [fractionText]
    split_ifs
    · exact endsDigits_zoneText offset
    all_goals simp [EndsDigits, Number.isDigit]
  have hlist := congrArg String.toList h
  rw [toList_zuluText, toList_zuluText] at hlist
  obtain ⟨hyear, hlist⟩ := yearText_append_inj (hmark rfl _) (hmark rfl _) hlist
  obtain ⟨hmonth, hlist⟩ := field_append_inj (hmark rfl _) (hmark rfl _) hlist
  obtain ⟨hday, hlist⟩ := field_append_inj (hmark rfl _) (hmark rfl _) hlist
  obtain ⟨hhour, hlist⟩ := field_append_inj (hmark rfl _) (hmark rfl _) hlist
  obtain ⟨hminute, hlist⟩ := field_append_inj (hmark rfl _) (hmark rfl _) hlist
  obtain ⟨hsecond, hlist⟩ := field_append_inj (hfraction _ _) (hfraction _ _) hlist
  obtain ⟨hnano, hleap⟩ := ha.leap_eq
  obtain ⟨hnano', hleap'⟩ := hb.leap_eq
  obtain ⟨hfraction, hzone⟩ := fractionText_append_inj hnano hnano' (endsDigits_zoneText _)
    (endsDigits_zoneText _) (point_not_mem_zoneText _) (point_not_mem_zoneText _) hlist
  have hoffset := zoneText_inj (String.toList_inj.1 hzone)
  have hdate : a.localDate = b.localDate := by
    change Date.mk a.localDate.year a.localDate.month a.localDate.day =
      Date.mk b.localDate.year b.localDate.month b.localDate.day
    rw [hyear, hmonth, hday]
  have hleap_eq : a.leap = b.leap := by rw [hleap, hleap', hsecond]
  have hlocal : a.localSecond = b.localSecond := localSecond_eq hdate (by omega)
  have hinstant : a.second = b.second := by
    rw [localSecond, localSecond, hoffset] at hlocal
    exact (Int.add_left_inj _).1 hlocal
  have hnano_eq : a.nano = b.nano := by
    have hle := a.leap_mul_le
    have hle' := b.leap_mul_le
    rw [hleap_eq] at hfraction hle
    omega
  change mk a.second a.nano a.offset = mk b.second b.nano b.offset
  rw [hinstant, hnano_eq, hoffset]

/-- A leap second that is not at the end of a minute is written as the second behind it. -/
def settled (m : Moment) : Moment :=
  if 1000000000 ≤ m.nano ∧ m.second % 60 ≠ 59 then ⟨m.second + 1, m.nano - 1000000000, m.offset⟩
  else m

theorem isProper_settled {m : Moment} (h : m.nano < 2000000000) : m.settled.IsProper := by
  rw [settled, IsProper]
  split_ifs with hleap
  · exact Or.inl (Nat.sub_lt_left_of_lt_add hleap.1 h)
  · omega

theorem IsProper.settled_eq {m : Moment} (h : m.IsProper) : m.settled = m := by
  refine if_neg fun hleap => ?_
  rw [IsProper] at h
  omega

theorem zuluText_settled {m : Moment} (h : m.nano < 2000000000) :
    m.settled.zuluText = m.zuluText := by
  by_cases hleap : 1000000000 ≤ m.nano ∧ m.second % 60 ≠ 59
  · have hsettled : m.settled = ⟨m.second + 1, m.nano - 1000000000, m.offset⟩ := if_pos hleap
    have hlocal : m.settled.localSecond = m.localSecond + 1 := by
      rw [hsettled, localSecond, localSecond, Int.add_right_comm]
    have hminute : m.localSecond % 60 ≠ 59 := by
      rw [localSecond]
      omega
    have hdate : m.settled.localDate = m.localDate := by
      rw [localDate, localDate, hlocal, Int.fdiv_eq_ediv_of_nonneg _ (by decide),
        Int.fdiv_eq_ediv_of_nonneg _ (by decide)]
      congr 1
      omega
    have hsecond : m.settled.secondOfDay = m.secondOfDay + 1 ∧ m.secondOfDay % 60 < 59 := by
      rw [secondOfDay, secondOfDay, hlocal, Int.fmod_eq_emod_of_nonneg _ (by decide),
        Int.fmod_eq_emod_of_nonneg _ (by decide)]
      omega
    have hone : m.leap = 1 := if_pos hleap.1
    have hnone : m.settled.leap = 0 := by
      rw [hsettled, leap]
      exact if_neg (by dsimp only; omega)
    have hhour : (m.secondOfDay + 1) / 3600 = m.secondOfDay / 3600 := by omega
    have hmiddle : (m.secondOfDay + 1) / 60 = m.secondOfDay / 60 := by omega
    have hlast : (m.secondOfDay + 1) % 60 = m.secondOfDay % 60 + 1 := by omega
    rw [← String.toList_inj, toList_zuluText, toList_zuluText, hdate, hsecond.1, hone, hnone, hhour,
      hmiddle, hlast, hsettled]
    simp only [Nat.add_zero, Nat.zero_mul, Nat.sub_zero, Nat.one_mul]
  · rw [settled, if_neg hleap]

end TimeSeries.Moment
