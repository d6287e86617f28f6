import TimeSeries.Number.Shortest
import TimeSeries.Proofs.Number.Decimal
import TimeSeries.Proofs.Text.Run

/-!
# The form of float literals

A finite float is written as digits with a point among them, behind a minus sign if it is negative.
Nothing else occurs in the text, whatever the float is, so it needs no escape in a line and is not
taken for a number of another kind.
-/

namespace TimeSeries.Number

/-- Digits, with more digits behind a point if there is one. -/
def isUnsignedDecimal (l : List Char) : Bool :=
  !(l.takeWhile isDigit).isEmpty &&
    match l.dropWhile isDigit with
    | [] => true
    | '.' :: places => !places.isEmpty && places.all isDigit
    | _ => false

/-- A decimal number, which may have a minus sign. -/
def isDecimal : List Char → Bool
  | '-' :: l => isUnsignedDecimal l
  | l => isUnsignedDecimal l

theorem not_isDigit_point : ¬isDigit '.' = true := by decide

theorem isUnsignedDecimal_append {whole places : List Char} (hwhole : ∀ c ∈ whole, isDigit c = true)
    (hwhole_ne : whole ≠ []) (hplaces : ∀ c ∈ places, isDigit c = true) (hplaces_ne : places ≠ []) :
    isUnsignedDecimal (whole ++ '.' :: places) = true := by
  have hpoint : ∀ c ∈ ('.' :: places).head?, isDigit c = false := by
    simpa using not_isDigit_point
  have htake := Text.takeWhile_append_stop hwhole hpoint
  have hdrop := Text.dropWhile_append_stop hwhole hpoint
  simp only [isUnsignedDecimal, htake, hdrop, Bool.and_eq_true, Bool.not_eq_true',
    List.isEmpty_eq_false_iff, List.all_eq_true]
  exact ⟨hwhole_ne, hplaces_ne, hplaces⟩

theorem of_mem_of_isDecimal {l : List Char} (h : isDecimal l = true) {c : Char} (hc : c ∈ l) :
    isDigit c = true ∨ c = '.' ∨ c = '-' := by
  have hunsigned : ∀ m, isUnsignedDecimal m = true → c ∈ m → isDigit c = true ∨ c = '.' := by
    intro m hm hmem
    rw [isUnsignedDecimal, Bool.and_eq_true] at hm
    rw [← List.takeWhile_append_dropWhile (p := isDigit) (l := m), List.mem_append] at hmem
    rcases hmem with hmem | hmem
    · exact Or.inl (List.mem_takeWhile_imp hmem)
    · have hm := hm.2
      split at hm
      · next hnil =>
          rw [hnil] at hmem
          cases hmem
      · next places hcons =>
          rw [hcons] at hmem
          rcases List.mem_cons.1 hmem with rfl | hmem
          · exact Or.inr rfl
          · exact Or.inl (List.all_eq_true.1 (Bool.and_eq_true_iff.1 hm).2 c hmem)
      · cases hm
  rw [isDecimal.eq_def] at h
  split at h
  · rcases List.mem_cons.1 hc with rfl | hc
    · exact Or.inr (Or.inr rfl)
    · rcases hunsigned _ h hc with hdigit | hpoint
      · exact Or.inl hdigit
      · exact Or.inr (Or.inl hpoint)
  · rcases hunsigned _ h hc with hdigit | hpoint
    · exact Or.inl hdigit
    · exact Or.inr (Or.inl hpoint)

/-- Digits, or digits on both sides of a point. -/
inductive Plain : List Char → Prop where
  | whole {l : List Char} : (∀ c ∈ l, isDigit c = true) → l ≠ [] → Plain l
  | point {l places : List Char} :
    (∀ c ∈ l, isDigit c = true) → l ≠ [] → (∀ c ∈ places, isDigit c = true) → places ≠ [] →
      Plain (l ++ '.' :: places)

theorem plain_positional (digits : Nat) (exponent : Int) :
    Plain (positional digits exponent).toList := by
  have hdigits : ∀ c ∈ Nat.toDigits 10 digits, isDigit c = true := fun _ => isDigit_of_mem_toDigits
  have hzeros : ∀ n, ∀ c ∈ List.replicate n '0', isDigit c = true := by
    intro n c hc
    rw [List.eq_of_mem_replicate hc]
    decide
  have hne := Nat.toDigits_ne_nil (n := digits) (b := 10)
  rw [positional]
  split
  · rw [String.toList_ofList]
    apply Plain.whole
    · intro c hc
      exact (List.mem_append.1 hc).elim (hdigits c) (hzeros _ c)
    · exact List.append_ne_nil_of_left_ne_nil hne _
  · next hneg =>
      have hplaces : 0 < (-exponent).toNat := by omega
      dsimp only
      split
      · rw [String.toList_ofList]
        refine Plain.point (l := ['0']) (hzeros 1) (List.cons_ne_nil _ _) ?_ ?_
        · intro c hc
          exact (List.mem_append.1 hc).elim (hzeros _ c) (hdigits c)
        · exact List.append_ne_nil_of_right_ne_nil _ hne
      · next hlong =>
          rw [String.toList_ofList]
          apply Plain.point
          · exact fun c hc => hdigits c (List.mem_of_mem_take hc)
          · rw [← List.length_pos_iff, List.length_take]
            omega
          · exact fun c hc => hdigits c (List.mem_of_mem_drop hc)
          · rw [← List.length_pos_iff, List.length_drop]
            omega

theorem isNaN_of_isFinite {x : Float} (h : x.isFinite = true) : x.isNaN = false := by
  have hfinite : x.toModel.unpack.isFinite = true := h
  have hnan : x.isNaN = x.toModel.unpack.isNaN := rfl
  rw [hnan]
  cases hunpack : x.toModel.unpack with
  | notANumber =>
      rw [hunpack] at hfinite
      cases hfinite
  | _ => rfl

/-- The exponent field of a finite float is not the one of infinity. -/
theorem magnitudeBits_ne_infinity {x : Float} (h : x.isFinite = true) :
    magnitudeBits x ≠ binary64.infinity := by
  intro hinfinity
  have hbits : x.toBits.toNat % 9223372036854775808 = 9218868437227405312 := hinfinity
  have hexponent : x.toBits.toNat / 4503599627370496 % 2048 = 2047 := by omega
  have hfield : @Float.Model.UnpackedFloat.unpackExponent Float.Model.Format.binary64
      x.toModel.toBits.toBitVec = -1#_ := by
    refine BitVec.eq_of_toNat_eq ?_
    rw [Float.Model.UnpackedFloat.unpackExponent, BitVec.toNat_cast, BitVec.extractLsb_toNat,
      Nat.shiftRight_eq_div_pow]
    exact hexponent
  have hunpack : x.toModel.unpack = if _ then .infinity _ else .notANumber := if_pos hfield
  have hfinite : x.toModel.unpack.isFinite = true := h
  rw [hunpack] at hfinite
  split at hfinite <;> cases hfinite

theorem plain_magnitudeText {bits : Nat} (h : bits ≠ binary64.infinity) :
    Plain (magnitudeText bits).toList := by
  by_cases hzero : bits = 0
  · subst hzero
    exact Plain.whole (List.forall_mem_singleton.2 rfl) (List.cons_ne_nil '0' [])
  · rw [magnitudeText, if_neg hzero, if_neg h]
    exact plain_positional _ _

/-- A sign in front of digits is the sign of the number. -/
theorem isDecimal_sign_append {sign l rest : List Char} (hsign : sign = [] ∨ sign = ['-'])
    (hl : ∀ c ∈ l, isDigit c = true) (hne : l ≠ []) :
    isDecimal (sign ++ (l ++ rest)) = isUnsignedDecimal (l ++ rest) := by
  rcases hsign with rfl | rfl
  · obtain ⟨c, m, rfl⟩ := List.exists_cons_of_ne_nil hne
    have hc : c ≠ '-' := by
      rintro rfl
      exact absurd (hl '-' List.mem_cons_self) (by decide)
    rw [List.nil_append, List.cons_append, isDecimal.eq_def]
    split
    · next heq => exact absurd (List.head_eq_of_cons_eq heq) hc
    · rfl
  · rfl

theorem floatText_of_isFinite {x : Float} (h : x.isFinite = true) :
    ∃ sign, (sign = [] ∨ sign = ['-']) ∧
      (floatText x).toList = sign ++ (magnitudeText (magnitudeBits x)).toList := by
  rw [floatText, isNaN_of_isFinite h]
  by_cases hneg : isNegative x = true
  · exact ⟨['-'], Or.inr rfl, by simp [hneg]⟩
  · exact ⟨[], Or.inl rfl, by simp [hneg]⟩

/-- A float that the wire can carry is written as a decimal number with a point. -/
theorem isDecimal_floatLiteral {x : Float} (h : x.isFinite = true) :
    isDecimal (floatLiteral x).toList = true := by
  obtain ⟨sign, hsign, htext⟩ := floatText_of_isFinite h
  have hpoint : '.' ∉ sign := by
    rcases hsign with rfl | rfl <;> decide
  have hplain := plain_magnitudeText (magnitudeBits_ne_infinity h)
  generalize (magnitudeText (magnitudeBits x)).toList = text at htext hplain
  rw [floatLiteral, h, htext]
  cases hplain with
  | whole hdigits hne =>
      have hno : '.' ∉ text := fun hmem => not_isDigit_point (hdigits '.' hmem)
      have hzero : ∀ c ∈ ['0'], isDigit c = true := List.forall_mem_singleton.2 rfl
      have hliteral : (floatText x ++ ".0").toList = sign ++ (text ++ '.' :: ['0']) := by
        rw [String.toList_append, htext, List.append_assoc]
        rfl
      rw [if_pos (by simp [hpoint, hno]), hliteral, isDecimal_sign_append hsign hdigits hne]
      exact isUnsignedDecimal_append hdigits hne hzero (List.cons_ne_nil _ _)
  | point hdigits hne hplaces hplaces_ne =>
      rw [if_neg (by simp), htext, isDecimal_sign_append hsign hdigits hne]
      exact isUnsignedDecimal_append hdigits hne hplaces hplaces_ne

end TimeSeries.Number
