import TimeSeries.Http.Complaint
import TimeSeries.Proofs.Pipeline.Order
import TimeSeries.Proofs.Point.LineFeed

/-!
# Bodies of requests and their records

The pipeline counts the records of a request from zero, and a server speaks of the lines of its
body. Both mean the same as long as every record is one line. A record that comes encoded is one
line, since others are refused, but nobody looks at the line of a point: a text with a line feed in
a point makes it two. `body_splits_into_records` says that this is the only exception, and
`rejected_record_reported_stored` what comes of it.
-/

namespace TimeSeries

open Text

/-- How the line of an item comes about. -/
inductive Item.Made (precision : Precision) : Item → Prop where
  | point {x : Point} {line : String} :
    x.line precision = .ok line → Made precision ⟨line, some x⟩
  | record {text : String} :
    trim text ≠ "" → hasLineFeed (trim text) = false → Made precision ⟨trim text, none⟩

/-- The item came encoded, or its point is one line. -/
def Item.SingleLine (item : Item) : Prop := ∀ x ∈ item.point, x.SingleLine

instance (item : Item) : Decidable item.SingleLine :=
  inferInstanceAs (Decidable (∀ x ∈ item.point, x.SingleLine))

theorem Item.made_of_ofRecord {precision : Precision} {text : String} {item : Item}
    (h : Item.ofRecord text = .ok item) : item.Made precision := by
  simp only [Item.ofRecord] at h
  split at h
  · cases h
  · next hne =>
      split at h
      · cases h
      · next hfeed =>
          obtain rfl := Except.ok.inj h
          exact .record hne (by simpa using hfeed)

theorem Item.made_of_ofPoint {precision : Precision} {x : Point} {item : Item}
    (h : Item.ofPoint precision x = .ok item) : item.Made precision := by
  rw [Item.ofPoint] at h
  cases hline : x.line precision with
  | error e =>
      rw [hline] at h
      cases h
  | ok line =>
      rw [hline] at h
      obtain rfl := Except.ok.inj h
      exact .point hline

namespace Item.Made

variable {precision : Precision} {item : Item}

theorem endsInLine (h : item.Made precision) : EndsInLine item.line := by
  cases h with
  | point hline => exact Point.endsInLine_line hline
  | record hne _ => exact endsInLine_trim hne

theorem hasLineFeed_eq_false_iff (h : item.Made precision) :
    hasLineFeed item.line = false ↔ item.SingleLine := by
  cases h with
  | point hline => simp [SingleLine, Point.hasLineFeed_line_eq_false_iff hline]
  | record _ hfeed => simp [SingleLine, hfeed]

end Item.Made

namespace Pipeline

/-- The places of the elements that a test picks are the places of those elements. -/
theorem splitPlaces_filterMap_zipIdx {α : Type} (f : α → Bool) (l : List α) :
    splitPlaces (l.zipIdx.filterMap fun e => if f e.1 then some e.2 else none) 0 l =
      (l.filter f, l.filter fun a => !f a) := by
  have hplace : ∀ e ∈ l.zipIdx,
      (l.zipIdx.filterMap fun e => if f e.1 then some e.2 else none).contains e.2 = f e.1 := by
    rintro ⟨a, i⟩ he
    rw [Bool.eq_iff_iff, List.contains_iff_mem, List.mem_filterMap]
    constructor
    · rintro ⟨⟨b, j⟩, hd, hj⟩
      split at hj
      · next hb =>
          obtain rfl : j = i := by simpa using hj
          have hget : l[j]? = some b := List.mem_zipIdx_iff_getElem?.1 hd
          rw [List.mem_zipIdx_iff_getElem?.1 he] at hget
          obtain rfl : a = b := by simpa using hget
          exact hb
      · cases hj
    · intro ha
      exact ⟨(a, i), he, if_pos ha⟩
  rw [splitPlaces_zero, atPlaces, offPlaces, List.filter_congr hplace,
    List.filter_congr fun e he => congrArg not (hplace e he)]
  have hfilter : ∀ g : α → Bool, (l.zipIdx.filter fun e => g e.1).map Prod.fst = l.filter g := by
    intro g
    conv_rhs => rw [← List.zipIdx_map_fst 0 l, List.filter_map]
    rfl
  rw [hfilter f, hfilter fun a => !f a]

/-- The request that is sent with these records. -/
def requestOf (options : WriteOptions) (batch : List Pending) : WriteRequest :=
  WriteRequest.ofLines options (batch.map fun r => r.item.line)

section Body

variable {options : WriteOptions} {batch : List Pending}
  (hmade : ∀ r ∈ batch, r.item.Made options.precision)

theorem body_requestOf (options : WriteOptions) (batch : List Pending) :
    (requestOf options batch).body = "\n".intercalate (batch.map fun r => r.item.line) := rfl

theorem lines_requestOf (options : WriteOptions) (batch : List Pending) :
    (requestOf options batch).lines = batch.length := List.length_map _

include hmade

theorem endsInLine_of_mem_map : ∀ s ∈ batch.map (fun r => r.item.line), EndsInLine s := by
  intro s hs
  obtain ⟨r, hr, rfl⟩ := List.mem_map.1 hs
  exact (hmade r hr).endsInLine

theorem lines_body :
    Text.lines (requestOf options batch).body = batch.flatMap fun r => Text.lines r.item.line := by
  rw [body_requestOf, lines_intercalate (endsInLine_of_mem_map hmade), List.flatMap_map]

theorem length_lines_body_iff :
    (Text.lines (requestOf options batch).body).length = (requestOf options batch).lines ↔
      ∀ r ∈ batch, r.item.SingleLine := by
  have hends := endsInLine_of_mem_map hmade
  rw [body_requestOf, lines_intercalate hends, lines_requestOf,
    ← List.length_map (fun r : Pending => r.item.line), length_flatMap_lines_eq_iff hends,
    List.forall_mem_map]
  exact forall₂_congr fun r hr => (hmade r hr).hasLineFeed_eq_false_iff

theorem lines_body_of_singleLine (hsingle : ∀ r ∈ batch, r.item.SingleLine) :
    Text.lines (requestOf options batch).body = batch.map fun r => r.item.line := by
  have hline : ∀ r ∈ batch, Text.lines r.item.line = [r.item.line] := fun r hr =>
    (hmade r hr).endsInLine.lines_eq_singleton
      ((hmade r hr).hasLineFeed_eq_false_iff.2 (hsingle r hr))
  rw [lines_body hmade, List.flatMap_congr hline, List.map_eq_flatMap]

/-- The places of quoted lines are the places of the records with these lines. -/
theorem splitPlaces_rejectedLines (hsingle : ∀ r ∈ batch, r.item.SingleLine) (message : String) :
    splitPlaces (Http.rejectedLines message (requestOf options batch).body) 0 batch =
      (batch.filter fun r => (Http.quotedLines message.toList).contains r.item.line.toList,
        batch.filter fun r => !(Http.quotedLines message.toList).contains r.item.line.toList) := by
  have hplaces : Http.rejectedLines message (requestOf options batch).body =
      batch.zipIdx.filterMap fun e =>
        if (Http.quotedLines message.toList).contains e.1.item.line.toList then some e.2
        else none := by
    rw [Http.rejectedLines, lines_body_of_singleLine hmade hsingle, List.zipIdx_map,
      List.filterMap_map]
    rfl
  rw [hplaces]
  exact splitPlaces_filterMap_zipIdx
    (fun r => (Http.quotedLines message.toList).contains r.item.line.toList) batch

end Body

theorem made_of_encode {p : Pipeline} {s : Submission} {item : Item} (h : p.encode s = .ok item) :
    item.Made p.options.precision := by
  cases s with
  | point x => exact Item.made_of_ofPoint h
  | measurement x =>
      cases x with
      | error e => cases h
      | ok x => exact Item.made_of_ofPoint h
  | record text => exact Item.made_of_ofRecord h

section Runs

variable {options : WriteOptions} {policy : BatchOptions} {history : List Transition}
  {p : Pipeline}

theorem made_of_mem_intake (run : Run options policy history p) {item : Item}
    (h : item ∈ intake history) : item.Made options.precision := by
  obtain ⟨t, ht, hitem⟩ := List.mem_flatMap.1 h
  obtain ⟨earlier, later, rfl⟩ := List.append_of_mem ht
  rw [← options_of_run (run_of_append_cons run).1]
  cases haction : t.action with
  | submit s =>
      rw [haction, admitted, Option.mem_toList, admits?] at hitem
      split at hitem
      · cases hitem
      · cases hencode : t.before.encode s with
        | error e =>
            rw [hencode] at hitem
            cases hitem
        | ok made =>
            rw [hencode] at hitem
            obtain rfl : made = item := by simpa [Except.toOption] using hitem
            exact made_of_encode hencode
  | _ => simp [admitted, haction] at hitem

theorem made_of_mem_request (run : Run options policy history p) {t : Transition}
    (ht : t ∈ history) {batch : List Pending} (hbatch : batch ∈ Effect.requests t.effects)
    {r : Pending} (hr : r ∈ batch) : r.item.Made options.precision := by
  obtain ⟨earlier, later, rfl⟩ := List.append_of_mem ht
  exact made_of_mem_intake run
    (List.mem_of_getElem? (getElem?_intake_of_mem_request run hbatch hr))

/-- The body of a request has the lines of its records, one record behind the other. It has as many
lines as the request has records only if each of these came encoded or from a point that is one
line. Then the lines are those of the records in their order, and the records at the places of the
lines that a complaint quotes are the records with these lines. -/
theorem body_splits_into_records (run : Run options policy history p) {t : Transition}
    (ht : t ∈ history) {batch : List Pending} (hbatch : batch ∈ Effect.requests t.effects) :
    Text.lines (requestOf options batch).body = batch.flatMap (fun r => Text.lines r.item.line) ∧
      ((Text.lines (requestOf options batch).body).length = (requestOf options batch).lines ↔
        ∀ r ∈ batch, r.item.SingleLine) ∧
      ((∀ r ∈ batch, r.item.SingleLine) →
        Text.lines (requestOf options batch).body = batch.map (fun r => r.item.line) ∧
          ∀ message,
            splitPlaces (Http.rejectedLines message (requestOf options batch).body) 0 batch =
              (batch.filter fun r =>
                  (Http.quotedLines message.toList).contains r.item.line.toList,
                batch.filter fun r =>
                  !(Http.quotedLines message.toList).contains r.item.line.toList)) := by
  have hmade : ∀ r ∈ batch, r.item.Made options.precision := fun _ =>
    made_of_mem_request run ht hbatch
  exact ⟨lines_body hmade, length_lines_body_iff hmade, fun hsingle =>
    ⟨lines_body_of_singleLine hmade hsingle, splitPlaces_rejectedLines hmade hsingle⟩⟩

/-- A point whose only field is this string. -/
def remark (s : String) : Point where
  measurement := "m"
  tags := KeyMap.empty
  fields := KeyMap.ofList [("f", .string s)]
  timestamp := none
  measurement_ne := by decide
  fields_ne := by rfl
  tagKeys_ne := by decide
  fieldKeys_ne := by
    change "" ∉ ["f"]
    decide

/-- A point of one line stands in front of an encoded record. -/
theorem body_splits_into_records_of_remark :
    ∃ history p,
      Run ⟨"db", none, .one, .nanoseconds, by decide, by decide⟩
          ⟨2, 1000, 0, 3, 2, 5, by decide, by decide, by decide⟩ history p ∧
        ∃ t ∈ history, ∃ batch ∈ Effect.requests t.effects,
          batch.map (fun r => r.item.line) = ["m f=\"a b\"", "bad"] ∧
            Text.lines (requestOf p.options batch).body = batch.map (fun r => r.item.line) ∧
            ∀ message,
              splitPlaces (Http.rejectedLines message (requestOf p.options batch).body) 0 batch =
                (batch.filter fun r =>
                    (Http.quotedLines message.toList).contains r.item.line.toList,
                  batch.filter fun r =>
                    !(Http.quotedLines message.toList).contains r.item.line.toList) := by
  have run := @run_of_trace? ⟨"db", none, .one, .nanoseconds, by decide, by decide⟩
    ⟨2, 1000, 0, 3, 2, 5, by decide, by decide, by decide⟩ _ _
    [.submit (.point (remark "a b")), .submit (.record "bad"), .work 0, .work 0, .work 0,
      .work 0] rfl
  have hsplit := @body_splits_into_records _ _ _ _ run _ (List.mem_of_getElem? (i := 5) rfl) _
    (List.mem_singleton_self _)
  refine ⟨_, _, run, _, List.mem_of_getElem? (i := 5) rfl, _, List.mem_singleton_self _, rfl, ?_⟩
  exact hsplit.2.2 (by decide)

/-- A string with a line feed makes two lines of the first record. The complaint quotes the second
record, which is the third line, and no record is taken to be rejected. -/
theorem rejected_record_reported_stored :
    ∃ history p,
      Run ⟨"db", none, .one, .nanoseconds, by decide, by decide⟩
          ⟨2, 1000, 0, 3, 2, 5, by decide, by decide, by decide⟩ history p ∧
        ∃ t ∈ history, ∃ batch ∈ Effect.requests t.effects,
          batch.map (fun r => r.item.line) = ["m f=\"a\nb\"", "bad"] ∧
            Text.lines (requestOf p.options batch).body = ["m f=\"a", "b\"", "bad"] ∧
            splitPlaces
                (Http.rejectedLines "unable to parse 'bad': no" (requestOf p.options batch).body) 0
                batch =
              ([], batch) := by
  have run := @run_of_trace? ⟨"db", none, .one, .nanoseconds, by decide, by decide⟩
    ⟨2, 1000, 0, 3, 2, 5, by decide, by decide, by decide⟩ _ _
    [.submit (.point (remark "a\nb")), .submit (.record "bad"), .work 0, .work 0, .work 0,
      .work 0] rfl
  refine ⟨_, _, run, _, List.mem_of_getElem? (i := 5) rfl, _, List.mem_singleton_self _, ?_, ?_, ?_⟩
  · rfl
  · decide +kernel
  · decide +kernel

end Runs

end Pipeline

end TimeSeries
