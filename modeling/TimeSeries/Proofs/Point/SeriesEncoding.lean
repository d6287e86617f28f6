import TimeSeries.Point.Series
import TimeSeries.Proofs.Point.LineBuffer

/-!
# Series and points give the same lines

A series checks measurement and tags when it is made and the fields when it encodes them; a draft
checks everything when it is built, and the fields once more when the point is encoded. The checks
are the same (`Series.new_eq_error_iff`, `PointDraft.build_eq_error_iff`), and what is written is
the same: the key that a series keeps is that of its points.

A series goes on with the buffer of the call before. `Series.Sound` is what a series keeps through
every call; nothing else of it matters for the next line.
-/

namespace TimeSeries

theorem of_fieldSet_eq_ok {fields : KeyMap FieldValue} {set : String}
    (h : fieldSet fields = .ok set) : "" ∉ fields.keys ∧ writableFields fields ≠ [] := by
  rw [fieldSet] at h
  split at h
  · cases h
  next hkeys =>
  refine ⟨hkeys, ?_⟩
  intro hnil
  rw [hnil] at h
  cases h

namespace PointDraft

theorem of_build_eq_ok {d : PointDraft} {x : Point} (h : d.build = .ok x) :
    x.measurement = d.measurement ∧ x.tags = d.tags ∧ x.fields = d.fields ∧
      x.timestamp = d.timestamp := by
  rw [build] at h
  split at h
  · cases h
  split at h
  · cases h
  split at h
  · cases h
  split at h
  · cases h
  cases h
  exact ⟨rfl, rfl, rfl, rfl⟩

theorem build_eq_error_iff {d : PointDraft} :
    (∃ e, d.build = .error e) ↔
      d.measurement = "" ∨ d.fields.isEmpty = true ∨ "" ∈ d.tags.keys ∨ "" ∈ d.fields.keys := by
  rw [build]
  split
  · next hm => exact iff_of_true ⟨_, rfl⟩ (Or.inl hm)
  next hm =>
  split
  · next hf => exact iff_of_true ⟨_, rfl⟩ (Or.inr (Or.inl hf))
  next hf =>
  split
  · next ht => exact iff_of_true ⟨_, rfl⟩ (Or.inr (Or.inr (Or.inl ht)))
  next ht =>
  split
  · next hk => exact iff_of_true ⟨_, rfl⟩ (Or.inr (Or.inr (Or.inr hk)))
  next hk =>
  refine iff_of_false ?_ ?_
  · rintro ⟨e, he⟩
    cases he
  · rintro (h | h | h | h)
    · exact hm h
    · exact hf h
    · exact ht h
    · exact hk h

end PointDraft

/-- One call for the line of a set of fields. -/
structure EncodeCall where
  fields : List (String × FieldValue)
  time : Option Int64
  precision : Precision

namespace EncodeCall

def timestamp (c : EncodeCall) : Option Timestamp := c.time.map fun value => ⟨value, c.precision⟩

/-- A draft extended with what the call gives. -/
def extend (c : EncodeCall) (d : PointDraft) : PointDraft :=
  match c.timestamp with
  | none => d.addFields c.fields
  | some t => (d.addFields c.fields).timestamped t

end EncodeCall

namespace Series

def call (s : Series) (c : EncodeCall) : Series × Except PointError String :=
  s.encode c.fields c.time c.precision

/-- The series behind some calls. -/
def after (s : Series) (history : List EncodeCall) : Series :=
  history.foldl (fun s c => (s.call c).1) s

/-- What the series keeps is that of valid points. -/
structure Sound (s : Series) : Prop where
  measurement_ne : s.measurement ≠ ""
  tagKeys_ne : "" ∉ s.tags.keys
  key_eq : s.key = seriesKey s.measurement s.tags

theorem new_eq_error_iff {measurement : String} {tags : List (String × String)} :
    (∃ e, new measurement tags = .error e) ↔
      measurement = "" ∨ "" ∈ (KeyMap.ofList tags).keys := by
  rw [new]
  split
  · next hm => exact iff_of_true ⟨_, rfl⟩ (Or.inl hm)
  next hm =>
  dsimp only
  split
  · next ht => exact iff_of_true ⟨_, rfl⟩ (Or.inr ht)
  next ht =>
  refine iff_of_false ?_ (not_or.2 ⟨hm, ht⟩)
  rintro ⟨e, he⟩
  cases he

theorem sound_of_new {measurement : String} {tags : List (String × String)} {s : Series}
    (h : new measurement tags = .ok s) : s.Sound := by
  rw [new] at h
  split at h
  · cases h
  next hm =>
  dsimp only at h
  split at h
  · cases h
  next ht =>
  cases h
  exact ⟨hm, ht, rfl⟩

/-- A call writes onto the buffer and changes nothing else. -/
theorem call_fst (s : Series) (c : EncodeCall) : ∃ b, (s.call c).1 = { s with buffer := b } := by
  rw [call, encode]
  split
  · exact ⟨_, rfl⟩
  · exact ⟨_, rfl⟩

theorem Sound.call {s : Series} (h : s.Sound) (c : EncodeCall) : (s.call c).1.Sound := by
  obtain ⟨b, hb⟩ := s.call_fst c
  rw [hb]
  exact ⟨h.measurement_ne, h.tagKeys_ne, h.key_eq⟩

theorem Sound.after {s : Series} (h : s.Sound) (history : List EncodeCall) :
    (s.after history).Sound := by
  induction history generalizing s with
  | nil => exact h
  | cons c history ih => exact ih (h.call c)

theorem call_snd (s : Series) (c : EncodeCall) :
    (s.call c).2 =
      match fieldSet (KeyMap.ofList c.fields) with
      | .ok set => .ok (s.key ++ " " ++ set ++ timeText c.timestamp c.precision)
      | .error fault => .error (.fieldSet fault none) := by
  obtain ⟨more, hwrite, hmore⟩ := (s.buffer.clear.append s.key).exists_writeFieldsAndTime
    (KeyMap.ofList c.fields) c.timestamp c.precision
  rw [EncodeCall.timestamp] at hwrite
  rw [call, encode, hwrite]
  cases hset : fieldSet (KeyMap.ofList c.fields) with
  | error fault => rfl
  | ok set =>
      rw [hmore set hset]
      refine congrArg Except.ok ?_
      simp only [LineBuffer.append, LineBuffer.clear, String.empty_append, String.append_assoc]

theorem extend_draft (s : Series) (c : EncodeCall) :
    c.extend s.draft = ⟨s.measurement, s.tags, KeyMap.ofList c.fields, c.timestamp⟩ := by
  rw [EncodeCall.extend]
  cases c.timestamp <;> rfl

theorem line_of_build {s : Series} {c : EncodeCall} {x : Point}
    (h : (c.extend s.draft).build = .ok x) :
    x.line c.precision =
      match fieldSet (KeyMap.ofList c.fields) with
      | .ok set =>
        .ok (seriesKey s.measurement s.tags ++ " " ++ set ++ timeText c.timestamp c.precision)
      | .error fault => .error (.fieldSet fault (some s.measurement)) := by
  rw [extend_draft] at h
  obtain ⟨hm, ht, hf, htime⟩ := PointDraft.of_build_eq_ok h
  cases hset : fieldSet (KeyMap.ofList c.fields) with
  | ok set => simp only [Point.line, hm, ht, hf, htime, hset]
  | error fault => simp only [Point.line, hm, hf, hset]

/-- A set of fields that can be written makes a point of the series. -/
theorem Sound.exists_build {s : Series} (h : s.Sound) {c : EncodeCall} {set : String}
    (hset : fieldSet (KeyMap.ofList c.fields) = .ok set) :
    ∃ x, (c.extend s.draft).build = .ok x := by
  obtain ⟨hkeys, hwritten⟩ := of_fieldSet_eq_ok hset
  cases hbuild : (c.extend s.draft).build with
  | ok x => exact ⟨x, rfl⟩
  | error e =>
      exfalso
      have hfault := PointDraft.build_eq_error_iff.1 ⟨e, hbuild⟩
      rw [extend_draft] at hfault
      rcases hfault with hm | hempty | ht | hk
      · exact h.measurement_ne hm
      · have hnil : (KeyMap.ofList c.fields).toList = [] := List.isEmpty_iff.1 hempty
        rw [writableFields, hnil] at hwritten
        exact hwritten rfl
      · exact h.tagKeys_ne ht
      · exact hkeys hk

/-- The line of a series is that of the point. -/
theorem Sound.call_eq_ok_iff {s : Series} (h : s.Sound) (c : EncodeCall) (line : String) :
    (s.call c).2 = .ok line ↔
      ∃ x, (c.extend s.draft).build = .ok x ∧ x.line c.precision = .ok line := by
  rw [call_snd, h.key_eq]
  cases hset : fieldSet (KeyMap.ofList c.fields) with
  | ok set =>
      constructor
      · intro hline
        obtain ⟨x, hx⟩ := h.exists_build hset
        refine ⟨x, hx, ?_⟩
        rw [line_of_build hx, hset]
        exact hline
      · rintro ⟨x, hx, hline⟩
        rw [line_of_build hx, hset] at hline
        exact hline
  | error fault =>
      refine iff_of_false (fun hline => by cases hline) ?_
      rintro ⟨x, hx, hline⟩
      rw [line_of_build hx, hset] at hline
      cases hline

/-- A series is refused exactly when points with its measurement and tags are, whatever their field.
Behind any calls, those that failed included, it gives a line exactly when the point with the same
fields and time does, and then the same one. -/
theorem encode_agrees_with_point (measurement : String) (tags : List (String × String)) :
    (∀ (key : String) (value : FieldValue), key ≠ "" →
      ((∃ e, new measurement tags = .error e) ↔
        ∃ e, ((PointDraft.addTags { measurement } tags).field key value).build = .error e)) ∧
      ∀ s, new measurement tags = .ok s →
        ∀ (history : List EncodeCall) (c : EncodeCall) (line : String),
          ((s.after history).encode c.fields c.time c.precision).2 = .ok line ↔
            ∃ x, (c.extend (s.after history).draft).build = .ok x ∧
              x.line c.precision = .ok line := by
  constructor
  · intro key value hkey
    have hkeys : "" ∉ (KeyMap.empty.insert key value).keys := by
      rw [KeyMap.mem_keys_insert, not_or]
      exact ⟨hkey.symm, List.not_mem_nil⟩
    have hbuild := @PointDraft.build_eq_error_iff
      ((PointDraft.addTags { measurement } tags).field key value)
    rw [new_eq_error_iff, hbuild]
    refine or_congr_right ⟨fun ht => Or.inr (Or.inl ht), ?_⟩
    rintro (hempty | ht | hk)
    · cases hempty
    · exact ht
    · exact absurd hk hkeys
  · intro s hs history c line
    exact ((sound_of_new hs).after history).call_eq_ok_iff c line

/-- A series behind a call without a field that can be written, one with an empty key and one that
succeeded. -/
theorem encode_agrees_with_point_of_failures :
    "f" ≠ "" ∧ (∃ e, new "m" [("", "v")] = .error e) ∧
      ∃ s, new "m" [("k", "v"), ("k", "w")] = .ok s ∧
        ((s.after [⟨[("x", .float (Float.ofBits 0x7FF8000000000000))], none, .seconds⟩,
            ⟨[("", .integer 1)], none, .seconds⟩, ⟨[("y", .bool true)], some 7, .hours⟩]).encode
          [("f", .integer 1), ("f", .integer 2)] (some (-5)) .milliseconds).2 =
            .ok "m,k=w f=2i -5" := by
  refine ⟨by decide, ?_, _, rfl, ?_⟩
  · exact ((encode_agrees_with_point "m" [("", "v")]).1 "f" (.integer 1) (by decide)).2
      ⟨.emptyTagKey "m", rfl⟩
  · refine ((encode_agrees_with_point "m" [("k", "v"), ("k", "w")]).2 _ rfl _
      ⟨[("f", .integer 1), ("f", .integer 2)], some (-5), .milliseconds⟩ _).2 ⟨_, rfl, ?_⟩
    decide

end Series

end TimeSeries
