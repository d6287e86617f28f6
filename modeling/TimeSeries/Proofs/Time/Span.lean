import Mathlib.Algebra.Group.Nat.Defs
import Mathlib.Data.List.TakeWhile
import TimeSeries.Proofs.Number.Decimal
import TimeSeries.Time.Span

/-!
# Lengths of time that are cut

The end of a unit is counted in characters and taken as a number of bytes. For units of ASCII
characters that is the same, so a text is cut only if it holds a foreign character
(`exists_foreign_of_read`). A unit at the end of a text is cut whenever it holds one and the number
in front of it can be read (`read_of_foreign_unit`): `1é` is, and so is `5µs`.
-/

namespace TimeSeries

namespace Span

/-- The character takes more than one byte. -/
def Foreign (c : Char) : Prop := c.utf8Size ≠ 1

instance : DecidablePred Foreign := fun c => inferInstanceAs (Decidable (c.utf8Size ≠ 1))

/-- The digits behind the point, if there is one, and what follows them. -/
def fraction : List Char → List Char × List Char
  | '.' :: more => (more.takeWhile Number.isDigit, more.dropWhile Number.isDigit)
  | rest => ([], rest)

variable {acc n total : Nat} {l rest unit : List Char}

theorem suffix_fraction (l : List Char) : (fraction l).2 <:+ l := by
  fun_cases fraction l with
  | case1 more => exact (List.dropWhile_suffix _).trans (List.suffix_cons _ _)
  | case2 => exact List.suffix_rfl

theorem suffix_of_readInteger (h : readInteger acc l = .ok (n, rest)) : rest <:+ l := by
  induction l generalizing acc with
  | nil =>
      obtain ⟨-, rfl⟩ := Prod.mk.inj (Except.ok.inj h)
      exact List.suffix_rfl
  | cons c l ih =>
      rw [readInteger] at h
      split at h
      · obtain ⟨-, rfl⟩ := Prod.mk.inj (Except.ok.inj h)
        exact List.suffix_rfl
      · split at h
        · cases h
        · exact (ih h).trans (List.suffix_cons c l)

theorem readInteger_ne_cut : readInteger acc l ≠ .error .cut := by
  induction l generalizing acc with
  | nil => nofun
  | cons c l ih =>
      rw [readInteger]
      split
      · nofun
      · split
        · nofun
        · exact ih

theorem readUnit_eq_cut_iff : readUnit unit rest = .error .cut ↔
    (∃ c ∈ unit, Foreign c) ∧ (rest = [] ∨ onBoundary unit.length unit = false) := by
  have hall : (unit.all fun c => decide (c.utf8Size = 1)) = true ↔ ¬∃ c ∈ unit, Foreign c := by
    simp [Foreign]
  rw [readUnit]
  by_cases hforeign : ∃ c ∈ unit, Foreign c
  · rw [if_neg fun h => hall.1 h hforeign, and_iff_right hforeign]
    split <;> simp_all
  · rw [if_pos (hall.2 hforeign)]
    refine iff_of_false ?_ fun h => hforeign h.1
    split <;> nofun

/-- A part is a number and a unit behind it. -/
theorem readPart_of_integer (hinteger : readInteger 0 l = .ok (n, rest)) :
    readPart l =
      if !(l.head?.any Number.isDigit) && (fraction rest).1.isEmpty then .error .invalid
      else if ((fraction rest).2.takeWhile isUnitChar).isEmpty then .error .invalid
      else
        (readUnit ((fraction rest).2.takeWhile isUnitChar)
            ((fraction rest).2.dropWhile isUnitChar)).bind fun nanos =>
          if limit / nanos < n then .error .invalid
          else
            .ok (n * nanos + fractionNanos (fractionValue 0 0 (fraction rest).1).1
              (fractionValue 0 0 (fraction rest).1).2 nanos,
              (fraction rest).2.dropWhile isUnitChar) := by
  rw [readPart, hinteger]
  -- the value of the limit is nothing to be computed here
  generalize limit = limit
  rfl

/-- A part is cut where its unit is, and what it leaves is what stands behind the unit. -/
theorem of_readPart (hinteger : readInteger 0 l = .ok (n, rest)) :
    let behind := (fraction rest).2
    (readPart l = .error .cut ↔ (l.head?.any Number.isDigit = true ∨ (fraction rest).1 ≠ []) ∧
      readUnit (behind.takeWhile isUnitChar) (behind.dropWhile isUnitChar) = .error .cut) ∧
    ∀ nanos left, readPart l = .ok (nanos, left) → left = behind.dropWhile isUnitChar := by
  intro behind
  have hempty : (behind.takeWhile isUnitChar).isEmpty = true →
      readUnit (behind.takeWhile isUnitChar) (behind.dropWhile isUnitChar) ≠ .error .cut := by
    intro hunit hcut
    obtain ⟨⟨c, hc, -⟩, -⟩ := readUnit_eq_cut_iff.1 hcut
    rw [List.isEmpty_iff.1 hunit] at hc
    cases hc
  rw [readPart_of_integer hinteger]
  split
  · next hnone =>
      refine ⟨iff_of_false nofun ?_, nofun⟩
      simp_all
  · next hsome =>
      have hnumber : l.head?.any Number.isDigit = true ∨ (fraction rest).1 ≠ [] := by
        by_contra hno
        simp_all
      rw [and_iff_right hnumber]
      split
      · next hunit => exact ⟨iff_of_false nofun (hempty hunit), nofun⟩
      · cases hread : readUnit (behind.takeWhile isUnitChar) (behind.dropWhile isUnitChar) with
        | error fault =>
            rw [Except.bind]
            simp
        | ok nanos =>
            rw [Except.bind]
            split
            · exact ⟨iff_of_false nofun nofun, nofun⟩
            · refine ⟨iff_of_false nofun nofun, fun _ left heq => ?_⟩
              exact (Prod.mk.inj (Except.ok.inj heq)).2.symm

/-- Only foreign characters are cut. -/
theorem exists_foreign_of_readPart (h : readPart l = .error .cut) : ∃ c ∈ l, Foreign c := by
  cases hinteger : readInteger 0 l with
  | error fault =>
      rw [readPart, hinteger] at h
      obtain rfl := Except.error.inj h
      exact absurd hinteger readInteger_ne_cut
  | ok x =>
      obtain ⟨⟨c, hc, hforeign⟩, -⟩ :=
        readUnit_eq_cut_iff.1 ((of_readPart hinteger).1.1 h).2
      refine ⟨c, ?_, hforeign⟩
      exact (suffix_of_readInteger hinteger).subset
        ((suffix_fraction _).subset (List.takeWhile_subset _ hc))

theorem suffix_of_readPart {nanos : Nat} {left : List Char} (h : readPart l = .ok (nanos, left)) :
    left <:+ l := by
  cases hinteger : readInteger 0 l with
  | error fault =>
      rw [readPart, hinteger] at h
      cases h
  | ok x =>
      obtain rfl := (of_readPart hinteger).2 _ _ h
      exact ((List.dropWhile_suffix _).trans (suffix_fraction _)).trans
        (suffix_of_readInteger hinteger)

theorem exists_foreign_of_readParts {bound : Nat} (h : readParts bound total l = .error .cut) :
    ∃ c ∈ l, Foreign c := by
  induction bound generalizing total l with
  | zero => cases l <;> cases h
  | succ bound ih =>
      cases l with
      | nil => cases h
      | cons c l =>
          rw [readParts.eq_3 _ _ _ (List.cons_ne_nil c l)] at h
          cases hpart : readPart (c :: l) with
          | error fault =>
              rw [hpart] at h
              obtain rfl := Except.error.inj h
              exact exists_foreign_of_readPart hpart
          | ok x =>
              rw [hpart] at h
              simp only [bind, Except.bind] at h
              split at h
              · cases h
              · obtain ⟨c', hc', hforeign⟩ := ih h
                exact ⟨c', (suffix_of_readPart hpart).subset hc', hforeign⟩

theorem exists_foreign_of_readMagnitude (h : readMagnitude l = .error .cut) :
    ∃ c ∈ l, Foreign c := by
  rw [readMagnitude] at h
  split at h
  · cases h
  · split at h
    · cases h
    · exact exists_foreign_of_readParts h

/-- The text behind its sign. -/
def unsigned : List Char → List Char
  | '-' :: l => l
  | '+' :: l => l
  | l => l

theorem unsigned_subset (l : List Char) : unsigned l ⊆ l := by
  fun_cases unsigned l with
  | case1 l => exact List.subset_cons_self _ _
  | case2 l => exact List.subset_cons_self _ _
  | case3 => exact List.Subset.refl _

theorem read_eq_cut_iff {s : String} :
    read s = .error .cut ↔ readMagnitude (unsigned s.toList) = .error .cut := by
  have hsign : ∀ (l : List Char) (f : Int → Int),
      Except.map f (do let n ← readMagnitude l; pure (n : Int)) = .error SpanFault.cut ↔
        readMagnitude l = .error .cut := by
    intro l f
    cases readMagnitude l with
    | ok n => exact iff_of_false nofun nofun
    | error fault =>
        exact ⟨fun h => congrArg _ (Except.error.inj h), fun h => congrArg _ (Except.error.inj h)⟩
  rw [read]
  split
  · next l hl => rw [hl, hsign]; rfl
  · next l hl => rw [hl, hsign]; rfl
  · next hminus hplus =>
      rw [hsign, unsigned.eq_3 _ hminus hplus]

/-- A text without foreign characters is never cut. -/
theorem exists_foreign_of_read {s : String} (h : read s = .error .cut) :
    ∃ c ∈ s.toList, Foreign c := by
  obtain ⟨c, hc, hforeign⟩ := exists_foreign_of_readMagnitude (read_eq_cut_iff.1 h)
  exact ⟨c, unsigned_subset _ hc, hforeign⟩

theorem isDigit_of_isUnitChar {c : Char} (h : isUnitChar c = true) :
    Number.isDigit c = false ∧ c ≠ '.' := by
  simpa [isUnitChar] using h

/-- Up to eighteen digits are always read. -/
theorem exists_readInteger {digits : List Char} (hdigits : ∀ c ∈ digits, Number.isDigit c = true)
    (hunit : ∀ c ∈ unit, isUnitChar c = true) {k : Nat} (hacc : acc < 10 ^ k)
    (hlength : k + digits.length ≤ 18) :
    ∃ n, readInteger acc (digits ++ unit) = .ok (n, unit) := by
  induction digits generalizing acc k with
  | nil =>
      refine ⟨acc, ?_⟩
      cases unit with
      | nil => rfl
      | cons c unit =>
          have hdigit := (isDigit_of_isUnitChar (hunit c List.mem_cons_self)).1
          have hnone : Number.digit? c = none := by
            rw [Number.digit?, if_neg]
            rintro ⟨hzero, hnine⟩
            simp [Number.isDigit, hzero, hnine] at hdigit
          rw [List.nil_append, readInteger, hnone]
  | cons c digits ih =>
      have hdigit := Number.digit?_of_isDigit (hdigits c List.mem_cons_self)
      rw [List.length_cons] at hlength
      have hpow : 10 ^ k ≤ 10 ^ 17 := Nat.pow_le_pow_right (by decide) (by omega)
      have hlimit : ¬limit / 10 < acc := by
        have : 10 ^ 17 ≤ limit / 10 := by decide
        omega
      have hvalue : c.toNat - 48 < 10 := by
        have hc := hdigits c List.mem_cons_self
        simp only [Number.isDigit, Bool.and_eq_true, decide_eq_true_eq, Char.le_def,
          UInt32.le_iff_toNat_le] at hc
        have hnine : c.toNat ≤ 57 := hc.2
        omega
      rw [List.cons_append, readInteger, hdigit]
      simp only [if_neg hlimit]
      refine ih (fun c hc => hdigits c (List.mem_cons_of_mem _ hc)) (k := k + 1) ?_ (by omega)
      rw [Nat.pow_succ]
      omega

/-- Up to eighteen digits and a unit with a foreign character at the end of a text are cut. -/
theorem read_of_foreign_unit {digits : List Char} (hdigits : ∀ c ∈ digits, Number.isDigit c = true)
    (hne : digits ≠ []) (hlength : digits.length ≤ 18) (hunit : ∀ c ∈ unit, isUnitChar c = true)
    (hforeign : ∃ c ∈ unit, Foreign c) : read (String.ofList (digits ++ unit)) = .error .cut := by
  obtain ⟨first, more, rfl⟩ := List.exists_cons_of_ne_nil hne
  have hfirst := hdigits first List.mem_cons_self
  have hzero : 0 < 10 ^ 0 := by decide
  obtain ⟨n, hinteger⟩ := exists_readInteger hdigits hunit hzero (by omega)
  have hfraction : fraction unit = ([], unit) := by
    fun_cases fraction unit with
    | case1 more => exact absurd rfl (isDigit_of_isUnitChar (hunit '.' List.mem_cons_self)).2
    | case2 => rfl
  have htake : unit.takeWhile isUnitChar = unit := List.takeWhile_eq_self_iff.2 hunit
  have hdrop : unit.dropWhile isUnitChar = [] := List.dropWhile_eq_nil_iff.2 hunit
  have hpart : readPart (first :: more ++ unit) = .error .cut := by
    rw [(of_readPart hinteger).1, hfraction, htake, hdrop]
    exact ⟨.inl hfirst, readUnit_eq_cut_iff.2 ⟨hforeign, .inl rfl⟩⟩
  have hmagnitude : readMagnitude (first :: more ++ unit) = .error .cut := by
    obtain ⟨c, hc, -⟩ := hforeign
    have hzero : first :: more ++ unit ≠ ['0'] := by
      intro heq
      have hnil := (List.append_eq_nil_iff.1 (List.cons.inj heq).2).2
      rw [hnil] at hc
      cases hc
    rw [readMagnitude, if_neg hzero, if_neg (by simp), List.cons_append, List.length_cons,
      readParts.eq_3 _ _ _ (List.cons_ne_nil _ _), ← List.cons_append, hpart]
    rfl
  have hunsigned : unsigned (first :: more ++ unit) = first :: more ++ unit := by
    have hsign : ∀ sign l, first :: more ++ unit = sign :: l → Number.isDigit sign = true := by
      intro sign l heq
      rwa [← (List.cons.inj heq).1]
    refine unsigned.eq_3 _ (fun l heq => ?_) fun l heq => ?_
    · exact absurd (hsign _ l heq) (by decide)
    · exact absurd (hsign _ l heq) (by decide)
  rwa [read_eq_cut_iff, String.toList_ofList, hunsigned]

example : read "5µs" = .error .cut := by decide

end Span

end TimeSeries
