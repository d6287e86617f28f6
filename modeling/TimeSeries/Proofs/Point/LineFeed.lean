import TimeSeries.Proofs.Point.LineReader
import TimeSeries.Proofs.Text.Lines

/-!
# Line feeds in lines of points

The encoder writes no line feed of its own, and no escape touches one. So the line of a point has a
line feed exactly when one of the texts that it shows has one: the measurement, the key or the value
of a tag, the key of a field, or a field that is a string. Such a line is more than one line for
everybody who splits it.

The end of a line is always that of a value or of a timestamp: a digit, a letter or a quote.
-/

namespace TimeSeries

open Text

/-- The text of a value that is a text. -/
def FieldValue.texts : FieldValue → List String
  | .string s => [s]
  | _ => []

/-- The texts that the line of a point shows. -/
def Point.shownTexts (x : Point) : List String :=
  x.measurement :: (Wire.tagTokens (writtenTags x.tags) ++
    (writableFields x.fields).flatMap fun e => e.1 :: e.2.texts)

/-- The line of a point shows no text that has a line feed. -/
def Point.SingleLine (x : Point) : Prop := ∀ s ∈ x.shownTexts, hasLineFeed s = false

instance (x : Point) : Decidable x.SingleLine := List.decidableBAll _ _

namespace Wire

theorem mem_escapeChars_iff {special : Char → Bool} {c : Char} (hc : c ≠ '\\') (l : List Char) :
    c ∈ escapeChars special l ↔ c ∈ l := by
  induction l with
  | nil => rfl
  | cons d l ih =>
      rw [escapeChars_cons, List.mem_append, ih, List.mem_cons]
      split <;> simp [hc]

theorem hasLineFeed_escape (special : Char → Bool) (s : String) :
    hasLineFeed (escape special s) = hasLineFeed s := by
  simp [hasLineFeed, mem_escapeChars_iff]

theorem hasLineFeed_quote (s : String) : hasLineFeed (quote s) = hasLineFeed s := by
  rw [quote, hasLineFeed_append, hasLineFeed_append, hasLineFeed_escape]
  exact Bool.or_false _

theorem hasLineFeed_seriesKey (measurement : String) (tags : KeyMap String) :
    hasLineFeed (seriesKey measurement tags) =
      (measurement :: tagTokens (writtenTags tags)).any hasLineFeed := by
  have hcomma : hasLineFeed "," = false := rfl
  have hequals : hasLineFeed "=" = false := rfl
  rw [seriesKey, hasLineFeed_append, hasLineFeed_join, ← writtenTags, List.any_cons, tagTokens,
    List.any_map, List.any_flatMap, escapeKey, hasLineFeed_escape]
  congr 2
  funext e
  simp [hasLineFeed_append, escapeKey, hasLineFeed_escape, hcomma, hequals]

section Number

variable {s : String} (h : ∀ c ∈ s.toList, isNumberChar c = true)

include h in
theorem endsInLine_of_number (hne : s.toList ≠ []) : EndsInLine s := by
  have hlast := List.getLast?_eq_some_getLast hne
  have hc := h _ (List.getLast_mem hne)
  refine ⟨_, hlast, ?_, ?_⟩ <;>
  · intro heq
    rw [heq] at hc
    exact absurd hc (by decide)

include h in
theorem hasLineFeed_of_number : hasLineFeed s = false := by
  rw [hasLineFeed, Bool.eq_false_iff]
  intro hmem
  exact absurd (h _ (List.contains_iff_mem.1 hmem)) (by decide)

end Number

theorem endsInLine_toString (i : Int) : EndsInLine (toString i) :=
  endsInLine_of_number (fun _ hc => isNumberChar_of_mem_toString hc)
    (Number.toList_toString_ne_nil i)

theorem hasLineFeed_toString (i : Int) : hasLineFeed (toString i) = false :=
  hasLineFeed_of_number fun _ hc => isNumberChar_of_mem_toString hc

theorem endsInLine_lineText {v : FieldValue} (hv : v.isWritable = true) :
    EndsInLine v.lineText := by
  cases v with
  | bool b =>
      cases b
      · exact ⟨'e', rfl, by decide⟩
      · exact ⟨'e', rfl, by decide⟩
  | integer i => exact EndsInLine.append _ ⟨'i', rfl, by decide⟩
  | unsigned u => exact EndsInLine.append _ ⟨'u', rfl, by decide⟩
  | float x =>
      have hdecimal := Number.isDecimal_floatLiteral hv
      refine endsInLine_of_number (fun c hc => isNumberChar_of_isDecimal hdecimal hc) ?_
      intro hnil
      rw [FieldValue.lineText] at hnil
      rw [hnil] at hdecimal
      cases hdecimal
  | string s => exact EndsInLine.append _ ⟨'"', rfl, by decide⟩

theorem hasLineFeed_lineText {v : FieldValue} (hv : v.isWritable = true) :
    hasLineFeed v.lineText = v.texts.any hasLineFeed := by
  cases v with
  | bool b => cases b <;> rfl
  | integer i =>
      rw [FieldValue.lineText, hasLineFeed_append, hasLineFeed_toString]
      rfl
  | unsigned u =>
      have hnumber : hasLineFeed (toString u.toNat) = false := hasLineFeed_of_number fun c hc =>
        isNumberChar_of_mem_toDigits (Number.toList_toString_nat u.toNat ▸ hc)
      rw [FieldValue.lineText, hasLineFeed_append, hnumber]
      rfl
  | float x =>
      exact hasLineFeed_of_number fun c hc =>
        isNumberChar_of_isDecimal (Number.isDecimal_floatLiteral hv) hc
  | string s =>
      rw [FieldValue.lineText, hasLineFeed_quote, FieldValue.texts, List.any_cons, List.any_nil,
        Bool.or_false]

theorem isWritable_of_mem {fields : KeyMap FieldValue} {e : String × FieldValue}
    (he : e ∈ writableFields fields) : e.2.isWritable = true := (List.mem_filter.1 he).2

theorem endsInLine_fieldTexts {fields : List (String × FieldValue)} (hne : fields ≠ [])
    (hvalue : ∀ e ∈ fields, e.2.isWritable = true) :
    EndsInLine (",".intercalate (fields.map fieldText)) := by
  induction fields with
  | nil => exact absurd rfl hne
  | cons e fields ih =>
      by_cases hnil : fields = []
      · subst hnil
        rw [List.map_singleton, String.intercalate_singleton]
        exact (endsInLine_lineText (hvalue e List.mem_cons_self)).append _
      · rw [List.map_cons, String.intercalate_cons_of_ne_nil (by simpa using hnil)]
        exact (ih hnil fun d hd => hvalue d (List.mem_cons_of_mem e hd)).append _

theorem hasLineFeed_fieldTexts {fields : List (String × FieldValue)}
    (hvalue : ∀ e ∈ fields, e.2.isWritable = true) :
    hasLineFeed (",".intercalate (fields.map fieldText)) =
      (fields.flatMap fun e => e.1 :: e.2.texts).any hasLineFeed := by
  have hequals : hasLineFeed "=" = false := rfl
  have heach : ∀ e ∈ fields,
      hasLineFeed (fieldText e) = (e.1 :: e.2.texts).any hasLineFeed := by
    intro e he
    rw [fieldText, hasLineFeed_append, hasLineFeed_append, escapeKey, hasLineFeed_escape, hequals,
      hasLineFeed_lineText (hvalue e he), Bool.or_false, List.any_cons]
  rw [hasLineFeed_intercalate rfl, List.any_map, List.any_flatMap, Bool.eq_iff_iff,
    List.any_eq_true, List.any_eq_true]
  exact exists_congr fun e => and_congr_right fun he => by rw [Function.comp_apply, heach e he]

end Wire

namespace Point

open Wire

variable {x : Point} {p : Precision} {line : String}

theorem eq_append_of_line (h : x.line p = .ok line) :
    writableFields x.fields ≠ [] ∧
      line = seriesKey x.measurement x.tags ++ " " ++
        ",".intercalate ((writableFields x.fields).map fieldText) ++ timeText x.timestamp p := by
  rw [Point.line, fieldSet, if_neg x.fieldKeys_ne] at h
  cases hwritten : writableFields x.fields with
  | nil =>
      rw [hwritten] at h
      cases h
  | cons e l =>
      rw [hwritten] at h
      exact ⟨List.cons_ne_nil e l, (Except.ok.inj h).symm⟩

theorem hasLineFeed_timeText (t : Option Timestamp) (p : Precision) :
    hasLineFeed (timeText t p) = false := by
  cases t with
  | none => rfl
  | some t =>
      rw [timeText, hasLineFeed_append, hasLineFeed_toString]
      rfl

theorem endsInLine_line (h : x.line p = .ok line) : EndsInLine line := by
  obtain ⟨hne, rfl⟩ := eq_append_of_line h
  cases x.timestamp with
  | none =>
      have hfields := endsInLine_fieldTexts hne fun _ => isWritable_of_mem
      rw [timeText, String.append_empty]
      exact hfields.append _
  | some t => exact ((endsInLine_toString _).append _).append _

/-- A line has a line feed exactly when one of the texts that it shows has one. -/
theorem hasLineFeed_line (h : x.line p = .ok line) :
    hasLineFeed line = x.shownTexts.any hasLineFeed := by
  obtain ⟨-, rfl⟩ := eq_append_of_line h
  have hspace : hasLineFeed " " = false := rfl
  rw [hasLineFeed_append, hasLineFeed_append, hasLineFeed_append, hasLineFeed_seriesKey, hspace,
    hasLineFeed_fieldTexts fun _ => isWritable_of_mem, hasLineFeed_timeText, shownTexts,
    Bool.or_false, Bool.or_false, ← List.any_append, List.cons_append]

theorem hasLineFeed_line_eq_false_iff (h : x.line p = .ok line) :
    hasLineFeed line = false ↔ x.SingleLine := by
  rw [hasLineFeed_line h, List.any_eq_false, SingleLine]
  simp

end Point

end TimeSeries
