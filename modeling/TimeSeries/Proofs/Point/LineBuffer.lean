import Mathlib.Data.List.Basic
import TimeSeries.Point.LineBuffer

/-!
# Lines behind what was written

The pieces that a buffer is given one by one make up the line of the point. Every step only appends,
so on a fault the text in front is still there and cutting back to its length restores the buffer:
`push` has written the whole line or nothing (`push_of_line_eq_ok`, `push_of_line_eq_error`).

The comma in front of a field depends on how many were written before it. Behind the first one every
field brings its comma along (`writeFields_succ`); up to it nothing is written.
-/

namespace TimeSeries

open Text

/-- The value is an infinity or no number. -/
def FieldValue.IsNonFinite (v : FieldValue) : Prop := ∃ y : Float, v = .float y ∧ y.isFinite = false

theorem FieldValue.isWritable_eq_false_iff {v : FieldValue} :
    v.isWritable = false ↔ v.IsNonFinite := by
  cases v <;> simp [isWritable, IsNonFinite]

theorem writableFields_eq_nil_iff {fields : KeyMap FieldValue} :
    writableFields fields = [] ↔ ∀ e ∈ fields.toList, e.2.IsNonFinite := by
  rw [writableFields, List.filter_eq_nil_iff]
  refine forall₂_congr fun e _ => ?_
  rw [Bool.not_eq_true, FieldValue.isWritable_eq_false_iff]

namespace LineBuffer

theorem append_append (b : LineBuffer) (s t : String) :
    (b.append s).append t = b.append (s ++ t) := by
  rw [append, append, append, String.append_assoc]

theorem append_empty (b : LineBuffer) : b.append "" = b := by
  rw [append, String.append_empty]

/-- Cutting back takes away what was appended. -/
theorem truncate_append (b : LineBuffer) (s : String) : (b.append s).truncate b.length = b := by
  rw [truncate, append, length, String.toList_append, ← String.length_toList,
    List.take_left, String.ofList_toList]

theorem writeTags_eq (b : LineBuffer) (tags : List (String × String)) :
    b.writeTags tags = b.append (String.join ((tags.filter fun e => e.2 ≠ "").map fun e =>
      "," ++ escapeKey e.1 ++ "=" ++ escapeKey e.2)) := by
  induction tags generalizing b with
  | nil => exact (append_empty b).symm
  | cons e tags ih =>
      obtain ⟨key, value⟩ := e
      rw [writeTags]
      by_cases hvalue : value = ""
      · rw [if_pos hvalue, ih, List.filter_cons_of_neg (by simpa using hvalue)]
      · rw [if_neg hvalue, ih, append_append, List.filter_cons_of_pos (by simpa using hvalue),
          List.map_cons, String.join_cons]

theorem writeSeriesKey_eq (b : LineBuffer) (measurement : String) (tags : KeyMap String) :
    b.writeSeriesKey measurement tags = b.append (seriesKey measurement tags) := by
  rw [writeSeriesKey, writeTags_eq, append_append, seriesKey]

section Fields

variable (b : LineBuffer) (n : Nat) {e : String × FieldValue} {fields : List (String × FieldValue)}

theorem writeFields_of_unnamed (he : e.1 = "") :
    b.writeFields n (e :: fields) = (b, .error .unnamed) := by
  rw [writeFields, if_pos he]

theorem writeFields_of_not_writable (he : e.1 ≠ "") (hvalue : ¬e.2.isWritable = true) :
    b.writeFields n (e :: fields) = b.writeFields n fields := by
  rw [writeFields, if_neg he, if_neg hvalue]

theorem writeFields_of_writable (he : e.1 ≠ "") (hvalue : e.2.isWritable = true) :
    b.writeFields n (e :: fields) =
      ((if 0 < n then b.append "," else b).append (fieldText e)).writeFields (n + 1) fields := by
  rw [writeFields, if_neg he, if_pos hvalue]

/-- Fields that the wire cannot carry leave no trace. -/
theorem writeFields_filter (hnamed : ∀ e ∈ fields, e.1 ≠ "") :
    b.writeFields n fields = b.writeFields n (fields.filter fun e => e.2.isWritable) := by
  induction fields generalizing b n with
  | nil => rfl
  | cons e fields ih =>
      have he := hnamed e List.mem_cons_self
      have hrest := fun b n => ih b n fun d hd => hnamed d (List.mem_cons_of_mem e hd)
      rw [List.filter_cons]
      split
      · next hvalue =>
          rw [writeFields_of_writable b n he hvalue, writeFields_of_writable b n he hvalue, hrest]
      · next hvalue => rw [writeFields_of_not_writable b n he hvalue, hrest]

/-- Behind a field, each of the next ones has a comma in front. -/
theorem writeFields_succ (hshown : ∀ e ∈ fields, e.1 ≠ "" ∧ e.2.isWritable = true) :
    b.writeFields (n + 1) fields =
      (b.append (String.join (fields.map fun e => "," ++ fieldText e)),
        .ok (n + 1 + fields.length)) := by
  induction fields generalizing b n with
  | nil =>
      rw [List.map_nil, String.join_nil, append_empty]
      rfl
  | cons e fields ih =>
      obtain ⟨he, hvalue⟩ := hshown e List.mem_cons_self
      have hcount : n + 1 + 1 + fields.length = n + 1 + (e :: fields).length := by
        rw [List.length_cons]
        omega
      rw [writeFields_of_writable b _ he hvalue, if_pos n.succ_pos,
        ih _ _ fun d hd => hshown d (List.mem_cons_of_mem e hd), append_append, append_append,
        List.map_cons, String.join_cons, hcount, String.append_assoc]

theorem intercalate_cons_eq (separator s : String) (l : List String) :
    separator.intercalate (s :: l) = s ++ String.join (l.map fun t => separator ++ t) := by
  induction l generalizing s with
  | nil => rw [String.intercalate_singleton, List.map_nil, String.join_nil, String.append_empty]
  | cons t l ih =>
      rw [String.intercalate_cons_of_ne_nil (List.cons_ne_nil t l), ih, List.map_cons,
        String.join_cons, String.append_assoc, String.append_assoc]

theorem writeFields_zero (hshown : ∀ e ∈ fields, e.1 ≠ "" ∧ e.2.isWritable = true) :
    b.writeFields 0 fields =
      (b.append (",".intercalate (fields.map fieldText)), .ok fields.length) := by
  cases fields with
  | nil =>
      rw [List.map_nil, String.intercalate_nil, append_empty]
      rfl
  | cons e fields =>
      obtain ⟨he, hvalue⟩ := hshown e List.mem_cons_self
      rw [writeFields_of_writable b _ he hvalue, if_neg (Nat.lt_irrefl 0),
        writeFields_succ _ _ fun d hd => hshown d (List.mem_cons_of_mem e hd), append_append,
        List.map_cons, intercalate_cons_eq, List.map_map, List.length_cons, Nat.zero_add,
        Nat.add_comm]
      rfl

/-- An empty key is found wherever it stands, behind some fields that were written. -/
theorem writeFields_of_empty_key (h : "" ∈ fields.map Prod.fst) :
    ∃ more, b.writeFields n fields = (b.append more, .error .unnamed) := by
  induction fields generalizing b n with
  | nil => cases h
  | cons e fields ih =>
      by_cases he : e.1 = ""
      · exact ⟨"", by rw [writeFields_of_unnamed b n he, append_empty]⟩
      have hrest : "" ∈ fields.map Prod.fst :=
        (List.mem_cons.1 h).resolve_left fun heq => he heq.symm
      by_cases hvalue : e.2.isWritable = true
      · obtain ⟨more, hmore⟩ :=
          ih ((if 0 < n then b.append "," else b).append (fieldText e)) (n + 1) hrest
        rw [writeFields_of_writable b n he hvalue, hmore]
        split
        · exact ⟨"," ++ (fieldText e ++ more), by rw [append_append, append_append]⟩
        · exact ⟨fieldText e ++ more, by rw [append_append]⟩
      · rw [writeFields_of_not_writable b n he hvalue]
        exact ih b n hrest

end Fields

theorem writeFields_toList (b : LineBuffer) {fields : KeyMap FieldValue} (h : "" ∉ fields.keys) :
    b.writeFields 0 fields.toList =
      (b.append (",".intercalate ((writableFields fields).map fieldText)),
        .ok (writableFields fields).length) := by
  have hnamed : ∀ e ∈ fields.toList, e.1 ≠ "" := by
    intro e he hempty
    exact h (hempty ▸ List.mem_map_of_mem he)
  rw [writeFields_filter b 0 hnamed]
  refine writeFields_zero b fun e he => ?_
  obtain ⟨hmem, hvalue⟩ := List.mem_filter.1 he
  exact ⟨hnamed e hmem, hvalue⟩

/-- Fields and timestamp are appended, as far as they were written: all of them, if they make up a
set of fields. -/
theorem exists_writeFieldsAndTime (b : LineBuffer) (fields : KeyMap FieldValue)
    (t : Option Timestamp) (p : Precision) :
    ∃ more, b.writeFieldsAndTime fields t p = (b.append more, (fieldSet fields).map fun _ => ()) ∧
      ∀ set, fieldSet fields = .ok set → more = " " ++ set ++ timeText t p := by
  rw [writeFieldsAndTime, fieldSet]
  by_cases hkeys : "" ∈ fields.keys
  · have hfound : "" ∈ fields.toList.map Prod.fst := hkeys
    obtain ⟨more, hmore⟩ := writeFields_of_empty_key (b.append " ") 0 hfound
    rw [if_pos hkeys, hmore]
    exact ⟨" " ++ more, by rw [append_append]; rfl, fun set h => by cases h⟩
  rw [if_neg hkeys, writeFields_toList _ hkeys]
  cases hwritten : writableFields fields with
  | nil => exact ⟨" ", by rw [List.map_nil, String.intercalate_nil, append_empty]; rfl,
      fun set h => by cases h⟩
  | cons e written =>
      refine ⟨" " ++ ",".intercalate ((e :: written).map fieldText) ++ timeText t p, ?_, ?_⟩
      · dsimp only
        rw [List.length_cons, if_neg (Nat.succ_ne_zero _), append_append, append_append]
        rfl
      · rintro set ⟨⟩
        rfl

/-- A point with a line is appended as that line. -/
theorem push_of_line_eq_ok (b : LineBuffer) {x : Point} {p : Precision} {line : String}
    (h : x.line p = .ok line) : b.push x p = (b.append line, .ok ()) := by
  obtain ⟨more, hwrite, hmore⟩ :=
    (b.append (seriesKey x.measurement x.tags)).exists_writeFieldsAndTime x.fields x.timestamp p
  rw [Point.line] at h
  cases hset : fieldSet x.fields with
  | error fault =>
      rw [hset] at h
      cases h
  | ok set =>
      rw [hset] at h hwrite
      obtain rfl := Except.ok.inj h
      rw [push, writeSeriesKey_eq, hwrite, hmore set hset, append_append]
      simp only [Except.map, String.append_assoc]

/-- A point without a line leaves the buffer as it was. -/
theorem push_of_line_eq_error (b : LineBuffer) {x : Point} {p : Precision} {e : PointError}
    (h : x.line p = .error e) : b.push x p = (b, .error e) := by
  obtain ⟨more, hwrite, -⟩ :=
    (b.append (seriesKey x.measurement x.tags)).exists_writeFieldsAndTime x.fields x.timestamp p
  rw [Point.line] at h
  cases hset : fieldSet x.fields with
  | ok set =>
      rw [hset] at h
      cases h
  | error fault =>
      rw [hset] at h hwrite
      obtain rfl := Except.error.inj h
      rw [push, writeSeriesKey_eq, hwrite, append_append]
      exact Prod.ext (truncate_append b _) rfl

theorem encode_snd (b : LineBuffer) (x : Point) (p : Precision) :
    (b.encode x p).2 = x.line p := by
  rw [encode]
  cases hline : x.line p with
  | ok line =>
      rw [push_of_line_eq_ok b.clear hline]
      exact congrArg Except.ok String.empty_append
  | error e =>
      rw [push_of_line_eq_error b.clear hline]
      rfl

/-- The results of one call after the other on the same buffer. -/
def encodeAll (b : LineBuffer) : List (Point × Precision) → List (Except PointError String)
  | [] => []
  | (x, p) :: calls => (b.encode x p).2 :: (b.encode x p).1.encodeAll calls

theorem encodeAll_eq (b : LineBuffer) (calls : List (Point × Precision)) :
    b.encodeAll calls = calls.map fun call => call.1.line call.2 := by
  induction calls generalizing b with
  | nil => rfl
  | cons call calls ih => rw [encodeAll, encode_snd, ih, List.map_cons]

theorem line_eq_error_iff {x : Point} {p : Precision} {e : PointError} :
    x.line p = .error e ↔
      writableFields x.fields = [] ∧ e = .fieldSet .noneWritable (some x.measurement) := by
  rw [Point.line, fieldSet, if_neg x.fieldKeys_ne]
  cases writableFields x.fields with
  | nil => simp [eq_comm]
  | cons d l => simp

/-- Appending a point fails exactly when no field is finite, and then the buffer is as before.
Otherwise the line of the point stands behind what was written. Used for one point after the other,
a buffer gives each of them the line it has alone. -/
theorem push_is_all_or_nothing (b : LineBuffer) (x : Point) (p : Precision) :
    ((∃ e, (b.push x p).2 = .error e) ↔ ∀ e ∈ x.fields.toList, e.2.IsNonFinite) ∧
      (∀ e, (b.push x p).2 = .error e →
        e = .fieldSet .noneWritable (some x.measurement) ∧ (b.push x p).1 = b) ∧
      ((b.push x p).2 = .ok () →
        ∃ line, x.line p = .ok line ∧ (b.push x p).1.text = b.text ++ line) ∧
      ∀ calls, b.encodeAll calls = calls.map fun call => call.1.line call.2 := by
  rw [← writableFields_eq_nil_iff]
  cases hline : x.line p with
  | ok line =>
      have hwritten : writableFields x.fields ≠ [] := by
        intro hnil
        rw [line_eq_error_iff.2 ⟨hnil, rfl⟩] at hline
        cases hline
      rw [push_of_line_eq_ok b hline]
      refine ⟨iff_of_false ?_ hwritten, ?_, fun _ => ⟨line, rfl, rfl⟩, b.encodeAll_eq⟩
      · rintro ⟨e, he⟩
        cases he
      · intro e he
        cases he
  | error fault =>
      obtain ⟨hnil, hfault⟩ := line_eq_error_iff.1 hline
      rw [push_of_line_eq_error b hline]
      refine ⟨iff_of_true ⟨fault, rfl⟩ hnil, ?_, ?_, b.encodeAll_eq⟩
      · rintro e ⟨⟩
        exact ⟨hfault, rfl⟩
      · intro hok
        cases hok

/-- A point with a single field. -/
def samplePoint (value : FieldValue) : Point where
  measurement := "air"
  tags := KeyMap.ofList [("k", "v"), ("none", "")]
  fields := KeyMap.ofList [("t", value)]
  timestamp := some ⟨-1500, .milliseconds⟩
  measurement_ne := by decide
  fields_ne := rfl
  tagKeys_ne := by decide
  fieldKeys_ne := (by decide : "" ∉ ["t"])

theorem push_is_all_or_nothing_of_nan :
    (∃ e, ((LineBuffer.mk "n c=1i|").push (samplePoint (.float (Float.ofBits 0x7FF8000000000000)))
        .seconds).2 = .error e) ∧
      ((LineBuffer.mk "n c=1i|").push (samplePoint (.float (Float.ofBits 0x7FF8000000000000)))
        .seconds).1 = ⟨"n c=1i|"⟩ ∧
      ∃ line, (samplePoint (.bool true)).line .seconds = .ok line ∧
        ((LineBuffer.mk "n c=1i|").push (samplePoint (.bool true)) .seconds).1.text =
          "n c=1i|" ++ line := by
  have hlaw := fun value =>
    push_is_all_or_nothing ⟨"n c=1i|"⟩ (samplePoint value) .seconds
  have hnan : ∀ e ∈ (samplePoint (.float (Float.ofBits 0x7FF8000000000000))).fields.toList,
      e.2.IsNonFinite := by
    intro e he
    obtain rfl : e = ("t", .float (Float.ofBits 0x7FF8000000000000)) := List.mem_singleton.1 he
    exact ⟨_, rfl, by decide⟩
  obtain ⟨e, he⟩ := (hlaw _).1.2 hnan
  exact ⟨⟨e, he⟩, ((hlaw _).2.1 e he).2, (hlaw (.bool true)).2.2.1 rfl⟩

end LineBuffer

end TimeSeries
