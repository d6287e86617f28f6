import TimeSeries.Proofs.Flux.Condition
import TimeSeries.Proofs.Time.Written

/-!
# Tokens in front of other text

The literal of every value is one token: a text in quotes, a call of a function with a text in
quotes or a number, or a word. A word ends in front of a space, a closing parenthesis and the end of
the text, so each of them is read back in front of what can follow it in a condition.
-/

namespace TimeSeries.Flux

open Text Wire

/-- All characters of the text can stand in a word. -/
def isWordText (s : String) : Bool := s.toList.all isWordChar

@[simp] theorem isWordText_append (s t : String) :
    isWordText (s ++ t) = (isWordText s && isWordText t) := by
  simp [isWordText]

theorem isWordChar_of_isDigit {c : Char} (h : Number.isDigit c = true) : isWordChar c = true := by
  have hdigit : c.isDigit = true := by
    simpa [Number.isDigit, Char.isDigit, Char.le_def, UInt32.le_iff_toNat_le] using h
  simp [isWordChar, Char.isAlphanum, hdigit]

theorem isWordChar_of_isNumberChar {c : Char} (h : isNumberChar c = true) :
    isWordChar c = true := by
  simp only [isNumberChar, Bool.or_eq_true, beq_iff_eq] at h
  rcases h with (hdigit | rfl) | rfl
  · exact isWordChar_of_isDigit hdigit
  · decide
  · decide

@[simp] theorem isWordText_toString_nat (n : Nat) : isWordText (toString n) = true := by
  rw [isWordText, List.all_eq_true, Number.toList_toString_nat]
  exact fun c hc => isWordChar_of_isDigit (Number.isDigit_of_mem_toDigits hc)

@[simp] theorem isWordText_toString_int (i : Int) : isWordText (toString i) = true := by
  rw [isWordText, List.all_eq_true]
  exact fun c hc => isWordChar_of_isNumberChar (isNumberChar_of_mem_toString hc)

@[simp] theorem isWordText_padded (width n : Nat) : isWordText (Moment.padded width n) = true := by
  rw [isWordText, List.all_eq_true]
  exact fun c hc => isWordChar_of_isDigit (Moment.isDigit_of_mem_padded hc)

theorem isWordText_zuluText (m : Moment) : isWordText m.zuluText = true := by
  have hyear (year : Int) : isWordText (Moment.yearText year) = true := by
    rw [Moment.yearText]
    split_ifs <;> simp <;> decide
  have hfraction (nano : Nat) : isWordText (Moment.fractionText nano) = true := by
    rw [Moment.fractionText]
    split_ifs
    · decide
    all_goals
      simp
      decide
  have hoffset (offset : Int) : isWordText (Moment.offsetText offset) = true := by
    rw [Moment.offsetText]
    split_ifs <;> simp <;> decide
  have hlocal : isWordText m.localText = true := by
    simp [Moment.localText, hyear, hfraction]
    decide
  rw [Moment.zuluText, isWordText_append, hlocal]
  split_ifs
  · decide
  · rw [hoffset]
    rfl

theorem isWordText_floatLiteral (x : Float) : isWordText (Number.floatLiteral x) = true := by
  have hplain {l : List Char} (h : Number.Plain l) : l.all isWordChar = true := by
    rw [List.all_eq_true]
    intro c hc
    cases h with
    | whole hdigits _ => exact isWordChar_of_isDigit (hdigits c hc)
    | point hdigits _ hplaces _ =>
        rcases List.mem_append.1 hc with hc | hc
        · exact isWordChar_of_isDigit (hdigits c hc)
        · rcases List.mem_cons.1 hc with rfl | hc
          · decide
          · exact isWordChar_of_isDigit (hplaces c hc)
  have hmagnitude (bits : Nat) : isWordText (Number.magnitudeText bits) = true := by
    rw [Number.magnitudeText]
    split_ifs
    · decide
    · decide
    · exact hplain (Number.plain_positional _ _)
  have htext : isWordText (Number.floatText x) = true := by
    rw [Number.floatText]
    split_ifs
    · decide
    · simp [hmagnitude]
      decide
    · simp [hmagnitude]
  rw [Number.floatLiteral]
  split_ifs
  · rw [isWordText_append, htext]
    decide
  · exact htext

theorem floatLiteral_ne_empty (x : Float) : Number.floatLiteral x ≠ "" := by
  have hmagnitude (bits : Nat) : Number.magnitudeText bits ≠ "" := by
    rw [Number.magnitudeText]
    split_ifs
    · decide
    · decide
    · intro hempty
      have hplain := Number.plain_positional (Number.binary64.shortest bits).1
        (Number.binary64.shortest bits).2
      rw [hempty] at hplain
      generalize hnil : "".toList = l at hplain
      cases hplain with
      | whole _ hne => exact hne hnil.symm
      | point _ hne _ _ => exact hne (List.append_eq_nil_iff.1 hnil.symm).1
  have htext : Number.floatText x ≠ "" := by
    rw [Number.floatText]
    split_ifs
    · decide
    · simp
    · simp [hmagnitude]
  rw [Number.floatLiteral]
  split_ifs
  · simp [htext]
  · exact htext

/-- What ends a word in a condition, or the end of the text. -/
def Ends (rest : List Char) : Prop := ∀ c ∈ rest.head?, c = ' ' ∨ c = ')'

theorem ends_nil : Ends [] := by simp [Ends]

theorem ends_space (l : List Char) : Ends (' ' :: l) := by simp [Ends]

theorem ends_closing (l : List Char) : Ends (')' :: l) := by simp [Ends]

theorem consumed_append (s : String) (rest : List Char) : consumed (s.toList ++ rest) rest = s := by
  rw [consumed, List.length_append, Nat.add_sub_cancel, List.take_left, String.ofList_toList]

section Words

variable {w : String} {rest : List Char}

theorem takeWhile_word (hw : isWordText w = true) (hrest : ∀ c ∈ rest.head?, isWordChar c = false) :
    (w.toList ++ rest).takeWhile isWordChar = w.toList :=
  takeWhile_append_stop (List.all_eq_true.1 hw) hrest

theorem dropWhile_word (hw : isWordText w = true) (hrest : ∀ c ∈ rest.head?, isWordChar c = false) :
    (w.toList ++ rest).dropWhile isWordChar = rest :=
  dropWhile_append_stop (List.all_eq_true.1 hw) hrest

/-- A token that begins with a character of words begins with a word. -/
theorem readToken_of_isWordText (hw : isWordText w = true) (hne : w ≠ "") (l : List Char) :
    readToken (w.toList ++ l) = readWordToken (w.toList ++ l) := by
  obtain ⟨c, m, hcons⟩ := List.exists_cons_of_ne_nil (mt String.toList_eq_nil_iff.1 hne)
  have hc : isWordChar c = true := by
    rw [isWordText, hcons, List.all_cons, Bool.and_eq_true] at hw
    exact hw.1
  have hother {d : Char} (hd : isWordChar d = false) : c ≠ d := by
    rintro rfl
    rw [hc] at hd
    cases hd
  have hsign : isSignChar c = false := by
    simp [isSignChar, hother (d := '=') rfl, hother (d := '!') rfl, hother (d := '<') rfl,
      hother (d := '>') rfl]
  rw [hcons, List.cons_append, readToken, hsign]
  · rfl
  · exact fun heq => hother rfl heq
  · exact fun heq => hother rfl heq
  · exact fun heq => hother rfl heq

theorem readToken_word (hw : isWordText w = true) (hne : w ≠ "") (hrest : Ends rest) :
    readToken (w.toList ++ rest) = some (.phrase w, rest) := by
  have hends : ∀ c ∈ rest.head?, isWordChar c = false := by
    intro c hc
    rcases hrest c hc with rfl | rfl <;> decide
  rw [readToken_of_isWordText hw hne, readWordToken, takeWhile_word hw hends,
    dropWhile_word hw hends]
  split
  · exact absurd (hrest '[' rfl) (by decide)
  · exact absurd (hrest '(' rfl) (by decide)
  · rw [if_neg (mt String.toList_eq_nil_iff.1 hne), String.ofList_toList]

end Words

theorem readToken_quote (s : String) (rest : List Char) :
    readToken ((quote s).toList ++ rest) = some (.phrase (quote s), rest) := by
  have htext : (quote s).toList ++ rest =
      '"' :: (escapeChars isQuoteSpecial s.toList ++ '"' :: rest) := by
    simp [toList_quote]
  rw [htext, readToken, readQuoted_escapeChars, Option.map_some, ← htext, consumed_append]

theorem readToken_column (name : String) (rest : List Char) :
    readToken ((Restriction.columnText name).toList ++ rest) = some (.column name, rest) := by
  have htext : (Restriction.columnText name).toList ++ rest =
      "r".toList ++
        '[' :: '"' :: (escapeChars isQuoteSpecial name.toList ++ '"' :: ']' :: rest) := by
    simp [Restriction.columnText, toList_quote]
  have hword : isWordText "r" = true := by decide
  have hends : ∀ c ∈ (['['] : List Char).head?, isWordChar c = false := by simp [isWordChar]
  rw [htext, readToken_of_isWordText hword (by decide), readWordToken,
    takeWhile_word hword (by simpa using hends), dropWhile_word hword (by simpa using hends)]
  simp only [readName, readQuoted_escapeChars]
  simp [after?]

/-- A call is one token if its argument is. -/
theorem readToken_call {f argument : String} (hf : isWordText f = true) (hne : f ≠ "")
    {rest : List Char}
    (hargument : skipArgument (("v: " ++ argument ++ ")").toList ++ rest) = some rest) :
    readToken ((f ++ "(v: " ++ argument ++ ")").toList ++ rest) =
      some (.phrase (f ++ "(v: " ++ argument ++ ")"), rest) := by
  have htext : (f ++ "(v: " ++ argument ++ ")").toList ++ rest =
      f.toList ++ '(' :: (("v: " ++ argument ++ ")").toList ++ rest) := by
    simp
  have hends : ∀ c ∈ (['('] : List Char).head?, isWordChar c = false := by simp [isWordChar]
  rw [htext, readToken_of_isWordText hf hne, readWordToken,
    takeWhile_word hf (by simpa using hends), dropWhile_word hf (by simpa using hends)]
  simp only [hargument, Option.map_some]
  rw [← htext, consumed_append]

theorem skipArgument_quote (s : String) (rest : List Char) :
    skipArgument (("v: " ++ quote s ++ ")").toList ++ rest) = some rest := by
  have htext : ("v: " ++ quote s ++ ")").toList ++ rest =
      'v' :: ':' :: ' ' :: '"' :: (escapeChars isQuoteSpecial s.toList ++ '"' :: ')' :: rest) := by
    simp [toList_quote]
  rw [htext, skipArgument, readQuoted_escapeChars]
  simp [after?]

theorem skipArgument_word {w : String} (hw : isWordText w = true) (rest : List Char) :
    skipArgument (("v: " ++ w ++ ")").toList ++ rest) = some rest := by
  have htext : ("v: " ++ w ++ ")").toList ++ rest =
      'v' :: ':' :: ' ' :: (w.toList ++ ')' :: rest) := by
    simp
  have hends : ∀ c ∈ ([')'] : List Char).head?, isWordChar c = false := by simp [isWordChar]
  rw [htext, skipArgument, dropWhile_word hw (by simpa using hends)]
  · simp [after?]
  · intro l heq
    have hquote : '"' ∈ w.toList ∨ ')' = '"' := by
      cases hlist : w.toList with
      | nil =>
          rw [hlist, List.nil_append] at heq
          exact Or.inr (List.head_eq_of_cons_eq heq)
      | cons c m =>
          rw [hlist, List.cons_append] at heq
          exact Or.inl (List.head_eq_of_cons_eq heq ▸ List.mem_cons_self)
    rcases hquote with hquote | hquote
    · exact absurd (List.all_eq_true.1 hw _ hquote) (by decide)
    · exact absurd hquote (by decide)

/-- The literal of a value is one token. -/
theorem readToken_literal (v : Value) {rest : List Char} (hrest : Ends rest) :
    readToken ((v.literal?.getD "null").toList ++ rest) =
      some (.phrase (v.literal?.getD "null"), rest) := by
  cases v with
  | string s => exact readToken_quote s rest
  | double x => exact readToken_word (isWordText_floatLiteral x) (floatLiteral_ne_empty x) hrest
  | bool b => cases b <;> exact readToken_word (by decide) (by decide) hrest
  | long i =>
      have hne : toString i.toInt ≠ "" := fun h =>
        Number.toList_toString_ne_nil i.toInt (String.toList_eq_nil_iff.2 h)
      exact readToken_word (isWordText_toString_int _) hne hrest
  | unsigned u =>
      have hname : "uint(v: " = "uint" ++ "(v: " := by decide
      rw [Value.literal?, Option.getD_some, hname]
      exact readToken_call (by decide) (by decide)
        (skipArgument_word (isWordText_toString_nat _) rest)
  | duration n =>
      rw [Value.literal?, Option.getD_some]
      refine readToken_word ?_ (by simp) hrest
      rw [isWordText_append, isWordText_toString_int]
      decide
  | binary b =>
      have hname : "bytes(v: " = "bytes" ++ "(v: " := by decide
      rw [Value.literal?, Option.getD_some, hname]
      exact readToken_call (by decide) (by decide) (skipArgument_quote _ rest)
  | time m =>
      rw [Value.literal?, Option.getD_some]
      exact readToken_word (isWordText_zuluText m)
        (by simp [Moment.zuluText, Moment.localText]) hrest
  | null => exact readToken_word (by decide) (by decide) hrest

end TimeSeries.Flux
