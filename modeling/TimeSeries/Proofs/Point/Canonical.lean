import TimeSeries.Proofs.KeyMap
import TimeSeries.Proofs.Point.LineFeed
import TimeSeries.Proofs.Point.SeriesEncoding
import TimeSeries.Proofs.Text.ByteOrder

/-!
# Lines of points are canonical

A draft is put together by calls. However they are ordered and repeated, the draft is the one with
the last tag and the last field of every key and the last timestamp (`ofCalls_eq`), so calls that
agree in these make the same point or the same fault. The line of the point then shows every last
tag that has a value and every last field that the wire can carry, once and in the order of the
bytes of their keys.
-/

namespace TimeSeries

open Text

namespace PointDraft

/-- One step of putting a point together. -/
inductive Call where
  | tag (key value : String)
  | tags (entries : List (String × String))
  | field (key : String) (value : FieldValue)
  | timestamp (t : Timestamp)
  | time (m : Moment)

namespace Call

def apply (d : PointDraft) : Call → PointDraft
  | .tag key value => d.tag key value
  | .tags entries => d.addTags entries
  | .field key value => d.field key value
  | .timestamp t => d.timestamped t
  | .time m => d.atMoment m

def tagEntries : Call → List (String × String)
  | .tag key value => [(key, value)]
  | .tags entries => entries
  | _ => []

def fieldEntries : Call → List (String × FieldValue)
  | .field key value => [(key, value)]
  | _ => []

def timestamp? : Call → Option Timestamp
  | .timestamp t => some t
  | .time m => some (Timestamp.ofMoment m)
  | _ => none

end Call

/-- The draft of a measurement behind some calls. -/
def ofCalls (measurement : String) (calls : List Call) : PointDraft :=
  calls.foldl Call.apply { measurement }

section Calls

variable (measurement : String) (calls : List Call)

/-- The value of the last tag with a key. -/
def lastTag? (key : String) : Option String :=
  ((calls.flatMap Call.tagEntries).reverse.find? fun e => e.1 = key).map Prod.snd

/-- The value of the last field with a key. -/
def lastField? (key : String) : Option FieldValue :=
  ((calls.flatMap Call.fieldEntries).reverse.find? fun e => e.1 = key).map Prod.snd

def lastTimestamp? : Option Timestamp := (calls.filterMap Call.timestamp?).getLast?

theorem ofCalls_concat (c : Call) :
    ofCalls measurement (calls ++ [c]) = c.apply (ofCalls measurement calls) := by
  rw [ofCalls, List.foldl_append]
  rfl

theorem ofCalls_eq :
    ofCalls measurement calls =
      { measurement
        tags := KeyMap.ofList (calls.flatMap Call.tagEntries)
        fields := KeyMap.ofList (calls.flatMap Call.fieldEntries)
        timestamp := lastTimestamp? calls } := by
  induction calls using List.reverseRecOn with
  | nil => rfl
  | append_singleton calls c ih =>
      rw [ofCalls_concat, ih]
      simp only [lastTimestamp?, List.flatMap_append, List.filterMap_append, KeyMap.ofList,
        KeyMap.insertList_append]
      cases c <;> simp [Call.apply, tag, addTags, field, timestamped, atMoment, Call.tagEntries,
        Call.fieldEntries, Call.timestamp?, KeyMap.insertList]

theorem get?_tags_ofCalls (key : String) :
    (ofCalls measurement calls).tags.get? key = lastTag? calls key := by
  rw [ofCalls_eq]
  exact KeyMap.get?_ofList _ key

theorem get?_fields_ofCalls (key : String) :
    (ofCalls measurement calls).fields.get? key = lastField? calls key := by
  rw [ofCalls_eq]
  exact KeyMap.get?_ofList _ key

/-- Calls that agree in the last values make the same draft. -/
theorem ofCalls_congr {calls calls' : List Call}
    (htags : ∀ key, lastTag? calls key = lastTag? calls' key)
    (hfields : ∀ key, lastField? calls key = lastField? calls' key)
    (htime : lastTimestamp? calls = lastTimestamp? calls') :
    ofCalls measurement calls = ofCalls measurement calls' := by
  have htags' : (ofCalls measurement calls).tags = (ofCalls measurement calls').tags := by
    refine KeyMap.ext_get? fun key => ?_
    rw [get?_tags_ofCalls, get?_tags_ofCalls, htags]
  have hfields' : (ofCalls measurement calls).fields = (ofCalls measurement calls').fields := by
    refine KeyMap.ext_get? fun key => ?_
    rw [get?_fields_ofCalls, get?_fields_ofCalls, hfields]
  rw [ofCalls_eq, ofCalls_eq] at htags' hfields' ⊢
  rw [PointDraft.mk.injEq]
  exact ⟨rfl, htags', hfields', htime⟩

end Calls

/-- Calls that agree in the last tag and the last field of every key and in the last timestamp make
the same point, with the same line or the same fault at every precision, or the same fault. A line
made of calls shows each last tag with a value and each last field that is no infinity and not NaN
exactly once, the tags and the fields with keys in strictly ascending order of their bytes. -/
theorem line_is_canonical (measurement : String) :
    (∀ calls calls' : List Call, (∀ key, lastTag? calls key = lastTag? calls' key) →
      (∀ key, lastField? calls key = lastField? calls' key) →
      lastTimestamp? calls = lastTimestamp? calls' →
        (∃ e, (ofCalls measurement calls).build = .error e ∧
          (ofCalls measurement calls').build = .error e) ∨
        ∃ x y, (ofCalls measurement calls).build = .ok x ∧
          (ofCalls measurement calls').build = .ok y ∧ x.measurement = y.measurement ∧
          x.tags = y.tags ∧ x.fields = y.fields ∧ x.timestamp = y.timestamp ∧
          ∀ p, x.line p = y.line p) ∧
    ∀ (calls : List Call) (x : Point) (p : Precision) (line : String),
      (ofCalls measurement calls).build = .ok x → x.line p = .ok line →
        ∃ (tags : List (String × String)) (fields : List (String × FieldValue)),
          line = escapeKey measurement ++
              String.join (tags.map fun e => "," ++ escapeKey e.1 ++ "=" ++ escapeKey e.2) ++ " " ++
            ",".intercalate (fields.map fun e => escapeKey e.1 ++ "=" ++ e.2.lineText) ++
              timeText (lastTimestamp? calls) p ∧
          Ascending (tags.map Prod.fst) ∧ Ascending (fields.map Prod.fst) ∧
          (∀ key value, (key, value) ∈ tags ↔ lastTag? calls key = some value ∧ value ≠ "") ∧
          ∀ key value, (key, value) ∈ fields ↔
            lastField? calls key = some value ∧ ¬value.IsNonFinite := by
  refine ⟨fun calls calls' htags hfields htime => ?_, fun calls x p line hbuild hline => ?_⟩
  · rw [ofCalls_congr measurement htags hfields htime]
    cases hbuild : (ofCalls measurement calls').build with
    | error e => exact Or.inl ⟨e, rfl, rfl⟩
    | ok x => exact Or.inr ⟨x, x, rfl, rfl, rfl, rfl, rfl, rfl, fun _ => rfl⟩
  · obtain ⟨hmeasurement, htags, hfields, htime⟩ := of_build_eq_ok hbuild
    obtain ⟨-, htext⟩ := Point.eq_append_of_line hline
    refine ⟨writtenTags x.tags, writableFields x.fields, ?_, x.tags.ascending_filter _,
      x.fields.ascending_filter _, fun key value => ?_, fun key value => ?_⟩
    · rw [htext, hmeasurement, htime, ofCalls_eq]
      rfl
    · rw [writtenTags, List.mem_filter, ← KeyMap.get?_eq_some_iff, htags, get?_tags_ofCalls,
        decide_eq_true_eq]
    · rw [writableFields, List.mem_filter, ← KeyMap.get?_eq_some_iff, hfields,
        get?_fields_ofCalls, ← FieldValue.isWritable_eq_false_iff, Bool.not_eq_false]

/-- Calls with a tag, a field and the timestamp set twice, a tag without a value and a NaN. -/
def repeatedCalls : List Call :=
  [.field "é" (.integer 1), .tag "b" "1", .timestamp ⟨7, .seconds⟩,
    .tags [("b", "2"), ("a", ""), ("B", "3")],
    .field "n" (.float (Float.ofBits 0x7FF8000000000000)), .field "z" (.bool true),
    .field "é" (.integer 2), .timestamp ⟨-1, .seconds⟩]

/-- The same last values, each set once and in another order. -/
def singleCalls : List Call :=
  [.timestamp ⟨-1, .seconds⟩, .field "z" (.bool true), .tag "B" "3", .tag "a" "",
    .field "é" (.integer 2), .tag "b" "2",
    .field "n" (.float (Float.ofBits 0x7FF8000000000000))]

theorem line_is_canonical_of_repeated_keys :
    (∀ key, lastTag? repeatedCalls key = lastTag? singleCalls key) ∧
      (∀ key, lastField? repeatedCalls key = lastField? singleCalls key) ∧
      lastTimestamp? repeatedCalls = lastTimestamp? singleCalls ∧
      ∃ x y, (ofCalls "m" repeatedCalls).build = .ok x ∧ (ofCalls "m" singleCalls).build = .ok y ∧
        (∀ p, x.line p = y.line p) ∧
        x.line .milliseconds = .ok "m,B=3,b=2 z=true,é=2i -1000" ∧
        ∃ (tags : List (String × String)) (fields : List (String × FieldValue)),
          Ascending (tags.map Prod.fst) ∧ Ascending (fields.map Prod.fst) ∧ ("b", "2") ∈ tags ∧
            ("b", "1") ∉ tags ∧ ("a", "") ∉ tags ∧ ("é", .integer 2) ∈ fields := by
  have hsame : (ofCalls "m" repeatedCalls).tags = (ofCalls "m" singleCalls).tags ∧
      (ofCalls "m" repeatedCalls).fields = (ofCalls "m" singleCalls).fields := by decide
  have htags (key : String) : lastTag? repeatedCalls key = lastTag? singleCalls key := by
    rw [← get?_tags_ofCalls "m", ← get?_tags_ofCalls "m", hsame.1]
  have hfields (key : String) : lastField? repeatedCalls key = lastField? singleCalls key := by
    rw [← get?_fields_ofCalls "m", ← get?_fields_ofCalls "m", hsame.2]
  refine ⟨htags, hfields, rfl, ?_⟩
  rcases (line_is_canonical "m").1 repeatedCalls singleCalls htags hfields rfl with
    ⟨e, he, -⟩ | ⟨x, y, hx, hy, -, -, -, -, hlines⟩
  · cases he
  · have hline : x.line .milliseconds = .ok "m,B=3,b=2 z=true,é=2i -1000" := by
      cases hx
      decide
    obtain ⟨tags, fields, -, hascending, hascending', hmem, hmem'⟩ :=
      (line_is_canonical "m").2 repeatedCalls x .milliseconds _ hx hline
    refine ⟨x, y, hx, hy, hlines, hline, tags, fields, hascending, hascending', ?_⟩
    rw [hmem, hmem, hmem, hmem']
    refine ⟨by decide, by decide, by decide, rfl, ?_⟩
    rintro ⟨z, hz, -⟩
    cases hz

end PointDraft

end TimeSeries
