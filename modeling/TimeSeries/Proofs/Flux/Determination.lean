import TimeSeries.Proofs.Flux.LiteralReader
import TimeSeries.Proofs.Flux.Phrase
import TimeSeries.Proofs.Text.Lossy

/-!
# What a literal determines

The text of a literal determines its value, with three exceptions. A length of time has 64 bits for
its nanoseconds, and what is longer is written as the longest one. Bytes are written as text, so
what was put in the place of malformed ones cannot be told apart. And a leap second that is not at
the end of a minute is written as the second behind it; no time that was read has one.

Texts of different kinds differ: the first character tells the kinds that are read back from each
other and from the call that makes bytes, and only a time has a `T` among characters of a word.
-/

namespace TimeSeries

open Text Flux Wire

namespace Value

/-- The value is of a kind with a literal other than a floating point number. A length of time is
not below 64 bits, and the nanoseconds of a time do not go beyond a leap second. -/
def IsExpressible : Value → Prop
  | .double _ => False
  | .null => False
  | .duration n => Int64.minValue.toInt ≤ n
  | .time m => m.nano < 2000000000
  | _ => True

/-- The value that the literal speaks of: the longest length of time for a longer one, bytes with
their malformed places replaced, and a leap second at the end of its minute. -/
def spoken : Value → Value
  | .duration n => .duration (min n Int64.maxValue.toInt)
  | .binary b => .binary (utf8Bytes (utf8Lossy b))
  | .time m => .time m.settled
  | v => v

/-- Two lengths of time that are not below the longest one of 64 bits. -/
def Saturate : Value → Value → Prop
  | .duration n, .duration m => Int64.maxValue.toInt ≤ n ∧ Int64.maxValue.toInt ≤ m
  | _, _ => False

/-- Bytes that are the same text once their malformed places are replaced, and not both of them are
free of such places. -/
def Blur : Value → Value → Prop
  | .binary x, .binary y =>
    utf8Lossy x = utf8Lossy y ∧ ¬((∃ s, x = utf8Bytes s) ∧ ∃ s, y = utf8Bytes s)
  | _, _ => False

/-- Times that are the same with each leap second at the end of a minute, and not both of them were
so before. -/
def Coincide : Value → Value → Prop
  | .time m, .time k => m.settled = k.settled ∧ ¬(m.IsProper ∧ k.IsProper)
  | _, _ => False

theorem nanosOr_max {n : Int} (h : Int64.minValue.toInt ≤ n) :
    nanosOr Int64.maxValue.toInt n = min n Int64.maxValue.toInt := by
  rw [nanosOr]
  split_ifs with hfits
  · exact (min_eq_left (Timestamp.fitsInt64_iff.1 hfits).2).symm
  · have hlt : Int64.maxValue.toInt < n := by
      rw [Timestamp.fitsInt64_iff, not_and, not_le] at hfits
      exact hfits h
    exact (min_eq_right hlt.le).symm

/-- The kinds whose literals are read back, bytes and times. -/
theorem IsExpressible.cases {v : Value} (h : v.IsExpressible) :
    v.spoken.isPlain = true ∨ (∃ b, v = .binary b) ∨ ∃ m, v = .time m := by
  cases v with
  | double x => exact h.elim
  | null => exact h.elim
  | binary b => exact Or.inr (Or.inl ⟨b, rfl⟩)
  | time m => exact Or.inr (Or.inr ⟨m, rfl⟩)
  | duration n =>
      refine Or.inl (Timestamp.fitsInt64_iff.2 ⟨le_min h ?_, min_le_right _ _⟩)
      decide
  | _ => exact Or.inl rfl

theorem IsExpressible.exists_literal {v : Value} (h : v.IsExpressible) :
    ∃ t, v.literal? = some t := by
  cases v with
  | null => exact h.elim
  | _ => exact ⟨_, rfl⟩

theorem literal?_spoken {v : Value} (h : v.IsExpressible) : v.spoken.literal? = v.literal? := by
  cases v with
  | duration n =>
      have hmin : Int64.minValue.toInt ≤ min n Int64.maxValue.toInt := le_min h (by decide)
      rw [spoken, literal?, literal?, nanosOr_max h, nanosOr_max hmin, min_assoc, min_self]
  | binary b => rw [spoken, literal?, literal?, utf8Lossy_utf8Bytes]
  | time m => rw [spoken, literal?, literal?, Moment.zuluText_settled h]
  | _ => rfl

theorem quote_inj {s t : String} (h : quote s = quote t) : s = t := by
  have hs := readText_quote s []
  rw [h, readText_quote t []] at hs
  exact congrArg Prod.fst (Option.some.inj hs.symm)

theorem readScalar_bytes (b : List UInt8) {t : String} (ht : (binary b).literal? = some t) :
    readScalar t.toList = none := by
  obtain rfl := Option.some.inj ht
  have htext : ("bytes(v: " ++ quote (utf8Lossy b) ++ ")").toList =
      'b' :: ("ytes(v: ".toList ++ ((quote (utf8Lossy b)).toList ++ [')'])) := by simp
  rw [htext]
  rfl

/-- Only a time has the text of a time. -/
theorem exists_time_of_literal? {v : Value} (h : v.IsExpressible) {m : Moment}
    (ht : v.literal? = some m.zuluText) : ∃ k, v = .time k := by
  have hword {c : Char} (hc : c ∈ m.zuluText.toList) : isWordChar c = true :=
    List.all_eq_true.1 (isWordText_zuluText m) c hc
  have hT : 'T' ∈ m.zuluText.toList := by simp [Moment.toList_zuluText]
  cases v with
  | double x => exact h.elim
  | null => exact h.elim
  | time k => exact ⟨k, rfl⟩
  | string s =>
      have hquote : '"' ∈ m.zuluText.toList := by
        rw [← Option.some.inj ht, toList_quote]
        exact List.mem_cons_self
      exact absurd (hword hquote) (by decide)
  | bool b =>
      rw [← Option.some.inj ht] at hT
      cases b <;> exact absurd hT (by decide)
  | long i =>
      rw [← Option.some.inj ht] at hT
      exact absurd (isNumberChar_of_mem_toString hT) (by decide)
  | unsigned u =>
      have hcall : '(' ∈ m.zuluText.toList := by
        rw [← Option.some.inj ht]
        simp
      exact absurd (hword hcall) (by decide)
  | binary b =>
      have hcall : '(' ∈ m.zuluText.toList := by
        rw [← Option.some.inj ht]
        simp
      exact absurd (hword hcall) (by decide)
  | duration n =>
      rw [← Option.some.inj ht, String.toList_append] at hT
      rcases List.mem_append.1 hT with hnumber | hunit
      · exact absurd (isNumberChar_of_mem_toString hnumber) (by decide)
      · exact absurd hunit (by decide)

/-- Values with the same literal speak of the same value. -/
theorem spoken_eq_of_literal? {a b : Value} (ha : a.IsExpressible) (hb : b.IsExpressible)
    (h : a.literal? = b.literal?) : a.spoken = b.spoken := by
  have hread {v : Value} (hv : v.IsExpressible) (hplain : v.spoken.isPlain = true) {t : String}
      (ht : v.literal? = some t) : readScalar t.toList = some (v.spoken, []) := by
    rw [← List.append_nil t.toList]
    exact readScalar_literal hplain ((literal?_spoken hv).trans ht) (by simp [Stops])
  have htime {v : Value} (hv : v.IsExpressible) {m : Moment} (hm : m.nano < 2000000000)
      (ht : v.literal? = some m.zuluText) : v.spoken = .time m.settled := by
    obtain ⟨k, rfl⟩ := exists_time_of_literal? hv ht
    have htext : k.settled.zuluText = m.settled.zuluText := by
      rw [Moment.zuluText_settled hv, Moment.zuluText_settled hm]
      exact Option.some.inj ht
    rw [spoken, Moment.eq_of_zuluText (Moment.isProper_settled hv) (Moment.isProper_settled hm) htext]
  obtain ⟨t, ht⟩ := ha.exists_literal
  have ht' : b.literal? = some t := h.symm.trans ht
  rcases ha.cases with hplain | ⟨x, rfl⟩ | ⟨m, rfl⟩
  · rcases hb.cases with hplain' | ⟨y, rfl⟩ | ⟨k, rfl⟩
    · have hsame := (hread ha hplain ht).symm.trans (hread hb hplain' ht')
      exact congrArg Prod.fst (Option.some.inj hsame)
    · cases (hread ha hplain ht).symm.trans (readScalar_bytes y ht')
    · exact htime ha hb h
  · rcases hb.cases with hplain' | ⟨y, rfl⟩ | ⟨k, rfl⟩
    · cases (hread hb hplain' ht').symm.trans (readScalar_bytes x ht)
    · have hquote : quote (utf8Lossy x) = quote (utf8Lossy y) := by
        simpa [literal?, String.append_assoc] using h
      rw [spoken, spoken, quote_inj hquote]
    · exact htime ha hb h
  · exact (htime hb ha h.symm).symm

/-- A function that is injective where a property holds takes the same value twice only on equal
arguments and where the property fails. -/
theorem apply_eq_iff {α β : Type} {f : α → β} {p : α → Prop}
    (hf : ∀ x y, p x → p y → f x = f y → x = y) (x y : α) :
    f x = f y ↔ x = y ∨ f x = f y ∧ ¬(p x ∧ p y) := by
  constructor
  · exact fun h => or_iff_not_imp_left.2 fun hne => ⟨h, fun hp => hne (hf x y hp.1 hp.2 h)⟩
  · rintro (rfl | ⟨h, -⟩)
    · rfl
    · exact h

theorem spoken_eq_iff (a b : Value) :
    a.spoken = b.spoken ↔ a = b ∨ a.Saturate b ∨ a.Blur b ∨ a.Coincide b := by
  cases a with
  | duration n =>
      cases b with
      | duration m =>
          simp only [spoken, Saturate, Blur, Coincide, duration.injEq, or_false]
          omega
      | _ => simp [spoken, Saturate, Blur, Coincide]
  | binary x =>
      cases b with
      | binary y =>
          have hbytes : Function.Injective utf8Bytes :=
            Function.LeftInverse.injective utf8Lossy_utf8Bytes
          simp only [spoken, Saturate, Blur, Coincide, binary.injEq, false_or, or_false,
            hbytes.eq_iff]
          refine apply_eq_iff (p := fun x => ∃ s, x = utf8Bytes s) ?_ x y
          rintro _ _ ⟨s, rfl⟩ ⟨t, rfl⟩ h
          rw [utf8Lossy_utf8Bytes, utf8Lossy_utf8Bytes] at h
          rw [h]
      | _ => simp [spoken, Saturate, Blur, Coincide]
  | time m =>
      cases b with
      | time k =>
          simp only [spoken, Saturate, Blur, Coincide, time.injEq, false_or]
          refine apply_eq_iff (fun m k hm hk h => ?_) m k
          rwa [hm.settled_eq, hk.settled_eq] at h
      | _ => simp [spoken, Saturate, Blur, Coincide]
  | _ => cases b <;> simp [spoken, Saturate, Blur, Coincide]

theorem IsExpressible.same_self {v : Value} (h : v.IsExpressible) : v.same v = true := by
  cases v with
  | double x => exact h.elim
  | null => exact h.elim
  | time m =>
      change m.sameInstant m = true
      simp [Moment.sameInstant]
  | _ => exact beq_self_eq_true _

theorem write_eq_write_iff {a b : Value} (ha : a.IsExpressible) (hb : b.IsExpressible)
    (buffer : LineBuffer) : a.write buffer = b.write buffer ↔ a.spoken = b.spoken := by
  obtain ⟨s, hs⟩ := ha.exists_literal
  obtain ⟨t, ht⟩ := hb.exists_literal
  constructor
  · intro h
    refine spoken_eq_of_literal? ha hb ?_
    have htext : buffer.append s = buffer.append t := by
      simpa [write_eq, hs, ht] using h
    have happend : buffer.text ++ s = buffer.text ++ t := congrArg LineBuffer.text htext
    rw [hs, ht, (String.append_right_inj buffer.text).1 happend]
  · intro h
    rw [write_eq, write_eq, ← literal?_spoken ha, ← literal?_spoken hb, h]

theorem write_duration {n : Int} (h : Int64.minValue.toInt ≤ n) (buffer : LineBuffer) :
    (duration n).write buffer =
      (buffer.append (toString (min n Int64.maxValue.toInt) ++ "ns"), true) := by
  rw [write, literal?, nanosOr_max h]

/-- Two values are written alike when they are the same, and else only if both are lengths of time
that are not below the longest one of 64 bits, if both are bytes that are the same text, or if both
are times of which one has a leap second inside of a minute, which no time that was read has. What
is written for a length of time grows with it, and is negative where it is. -/
theorem write_determines_value {a b : Value} (ha : a.IsExpressible) (hb : b.IsExpressible)
    (buffer : LineBuffer) :
    (a.write buffer = b.write buffer ↔ a = b ∨ a.Saturate b ∨ a.Blur b ∨ a.Coincide b) ∧
      (∀ (s : String) (m : Moment), Moment.read s = .ok m → m.IsProper) ∧
      (a = b → a.same b = true) ∧
      ∀ n m : Int, Int64.minValue.toInt ≤ n → n ≤ m → ∃ k l : Int,
        (duration n).write buffer = (buffer.append (toString k ++ "ns"), true) ∧
        (duration m).write buffer = (buffer.append (toString l ++ "ns"), true) ∧
        k ≤ l ∧ (n < 0 → k < 0) ∧
        (k = n ∨ Int64.maxValue.toInt < n ∧ k = Int64.maxValue.toInt) := by
  refine ⟨(write_eq_write_iff ha hb buffer).trans (spoken_eq_iff a b),
    fun s m => Moment.isProper_of_read, ?_, fun n m hn hnm => ?_⟩
  · rintro rfl
    exact ha.same_self
  · exact ⟨_, _, write_duration hn buffer, write_duration (hn.trans hnm) buffer, by omega, by omega,
      by omega⟩

/-- Half a second into the leap second at the end of 2016, which was read, and one second later. -/
theorem write_determines_value_of_leap_second :
    IsExpressible (.time ⟨1483228799, 1500000000, 0⟩) ∧
      IsExpressible (.time ⟨1483228800, 500000000, 0⟩) ∧
      (time ⟨1483228799, 1500000000, 0⟩).write ⟨"now: "⟩ ≠
        (time ⟨1483228800, 500000000, 0⟩).write ⟨"now: "⟩ ∧
      Moment.read "2016-12-31T23:59:60.5Z" = .ok ⟨1483228799, 1500000000, 0⟩ ∧
      Moment.IsProper ⟨1483228799, 1500000000, 0⟩ ∧
      Int64.minValue.toInt ≤ -5 ∧ (-5 : Int) ≤ 2 ^ 64 ∧
      ∃ k l : Int, (duration (-5)).write ⟨"now: "⟩ = (⟨"now: " ++ (toString k ++ "ns")⟩, true) ∧
        (duration (2 ^ 64)).write ⟨"now: "⟩ = (⟨"now: " ++ (toString l ++ "ns")⟩, true) ∧
        k ≤ l ∧ k < 0 := by
  have hleap : IsExpressible (.time ⟨1483228799, 1500000000, 0⟩) := by
    change 1500000000 < 2000000000
    decide
  have hnext : IsExpressible (.time ⟨1483228800, 500000000, 0⟩) := by
    change 500000000 < 2000000000
    decide
  have hread : Moment.read "2016-12-31T23:59:60.5Z" = .ok ⟨1483228799, 1500000000, 0⟩ := by decide
  have hmin : Int64.minValue.toInt ≤ -5 := by decide
  obtain ⟨hwrite, hproper, -, hduration⟩ := write_determines_value hleap hnext ⟨"now: "⟩
  refine ⟨hleap, hnext, fun h => ?_, hread, hproper _ _ hread, hmin, by decide, ?_⟩
  · rcases hwrite.1 h with heq | hboth | hboth | ⟨-, himproper⟩
    · cases heq
    · exact hboth
    · exact hboth
    · exact himproper ⟨hproper _ _ hread, by decide⟩
  · obtain ⟨k, l, hk, hl, hle, hneg, -⟩ := hduration (-5) (2 ^ 64) hmin (by decide)
    exact ⟨k, l, hk, hl, hle, hneg (by decide)⟩

example : (time ⟨1483228799, 1500000000, 60⟩).literal? = some "2017-01-01T00:59:60.500+01:00" := by
  decide

/-- Bytes that are no text are written alike without being the same, and so are lengths of time
above 64 bits, and a leap second inside of a minute and the second behind it. -/
theorem write_not_injective :
    (¬∀ a b : Value, a.isNull = false → b.isNull = false → a.asDouble? = none →
      b.asDouble? = none → a.write ⟨""⟩ = b.write ⟨""⟩ → a.same b = true) ∧
      (duration (2 ^ 63)).write ⟨""⟩ = (duration (2 ^ 64)).write ⟨""⟩ ∧
      (duration (2 ^ 63)).same (duration (2 ^ 64)) = false ∧
      (time ⟨58, 1500000000, 0⟩).write ⟨""⟩ = (time ⟨59, 500000000, 0⟩).write ⟨""⟩ ∧
      (time ⟨58, 1500000000, 0⟩).same (time ⟨59, 500000000, 0⟩) = false := by
  refine ⟨fun h => ?_, by decide, by decide, by decide, by decide⟩
  have hsame := h (.binary [0xFF]) (.binary [0xFE]) rfl rfl rfl rfl (by decide)
  exact absurd hsame (by decide)

end Value

end TimeSeries
