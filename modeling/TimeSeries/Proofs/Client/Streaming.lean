import TimeSeries.Client.Query
import TimeSeries.Proofs.Table.Decoding

/-!
# Records one by one and in tables

A response can be read record by record, and it can be decoded into tables. Both go through the same
events, so the records are the same in the same order, and both end in the same way: the calls for
records return those of the tables one after the other, and the next call returns the fault that
stopped decoding, or the end if there was none.

So it makes no difference whether a client asks for the records of a query or for its tables.
-/

namespace TimeSeries

/-- The records of all tables, from the first table on. -/
def Decoded.records (x : Decoded) : List Record := x.tables.flatMap Table.records

/-- What a call for a record returns behind the last one: the fault, or the end. -/
def Decoded.farewell (x : Decoded) : Except TableError (Option Record) :=
  match x.failure with
  | some e => .error e
  | none => .ok none

def Event.record? : Event → Option Record
  | .record r => some r
  | .table _ => none

theorem records_gather (events : List Event) :
    (gather events).1 ++ (gather events).2.flatMap Table.records =
      events.filterMap Event.record? := by
  induction events with
  | nil => rfl
  | cons e events ih =>
      cases e with
      | record r => exact congrArg (r :: ·) ih
      | table head => exact ih

namespace Scan

theorem call_nextRecord_table (head : TableHead) (rest : List (Except TableError Event))
    (ending : Option TableError) :
    call nextRecord ⟨.ok (.table head) :: rest, ending⟩ = call nextRecord ⟨rest, ending⟩ :=
  call_congr rfl

/-- The calls for records return those in front of the first fault, and then the fault or the
end. -/
theorem calls_nextRecord (results : List (Except TableError Event)) (ending : Option TableError) :
    (List.range (((untilFault ending results).1.filterMap Event.record?).length + 1)).map
        (call nextRecord ⟨results, ending⟩) =
      ((untilFault ending results).1.filterMap Event.record?).map (fun r => .ok (some r)) ++
        [Decoded.farewell ⟨[], (untilFault ending results).2⟩] := by
  induction results with
  | nil => cases ending <;> rfl
  | cons result rest ih =>
      match result with
      | .error e => rfl
      | .ok (.table head) =>
          rw [call_nextRecord_table]
          exact ih
      | .ok (.record r) =>
          -- the first call returns the record, and the others are made on the rest
          have hlater : call nextRecord ⟨.ok (.record r) :: rest, ending⟩ ∘ Nat.succ =
              call nextRecord ⟨rest, ending⟩ := rfl
          have hrecords : (untilFault ending (.ok (.record r) :: rest)).1.filterMap Event.record? =
              r :: (untilFault ending rest).1.filterMap Event.record? := rfl
          rw [hrecords, List.range_succ_eq_map, List.map_cons, List.map_map, hlater]
          exact congrArg (Except.ok (some r) :: ·) ih

end Scan

theorem records_decodeRows (destinations : List String)
    (rows : List (Except Csv.RowFault Csv.Row)) :
    let front := (({} : ScanState).scan (Destinations.ofList destinations) rows).front
    (decodeRows destinations rows).records = front.1.filterMap Event.record? := by
  intro front
  rw [decodeRows_eq, ← records_gather, ScanState.gather_front_scan]
  rfl

namespace Client

/-- The records that a client reads one by one are those of the tables, up to the same fault. -/
theorem recordsOf_eq (input : Csv.Input) :
    recordsOf input = ((decodeTables [] input).records, (decodeTables [] input).failure) := by
  have hfront : recordsOf input =
      ((({} : ScanState).scan {} input.rows).front.1.filterMap Event.record?,
        (({} : ScanState).scan {} input.rows).front.2) := by
    refine Prod.ext (List.filterMap_congr fun e _ => ?_) rfl
    cases e <;> rfl
  rw [hfront, decodeTables_eq_decodeRows, records_decodeRows, decodeRows_eq]
  rfl

theorem stream_eq (c : Client) (server : Http.Server) (text : String) :
    (c.stream server text).1 =
      (c.send server text).1.map fun input =>
        ((decodeTables [] input).records, (decodeTables [] input).failure) := by
  have hrecords : recordsOf = fun input =>
      ((decodeTables [] input).records, (decodeTables [] input).failure) := funext recordsOf_eq
  rw [stream, ← hrecords]

theorem query_eq_queryTables (c : Client) (server : Http.Server) (text : String) :
    (c.query server text).1 =
      (c.queryTables server text).1.map fun tables => tables.flatMap Table.records := by
  simp only [query, queryTables]
  rw [stream_eq]
  cases (c.send server text).1 with
  | error e => rfl
  | ok input =>
      simp only [Except.map, Except.bind]
      obtain ⟨tables, failure⟩ := decodeTables [] input
      cases failure <;> rfl

end Client

theorem calls_eq_records (destinations : List String) (input : Csv.Input) :
    let s := Scan.ofInput (Destinations.ofList destinations) input
    let decoded := decodeTables destinations input
    (List.range (decoded.records.length + 1)).map (s.call Scan.nextRecord) =
      decoded.records.map (fun r => .ok (some r)) ++ [decoded.farewell] := by
  intro s decoded
  have hrecords : decoded.records = s.front.1.filterMap Event.record? :=
    records_decodeRows destinations input.rows
  have hfarewell : decoded.farewell = Decoded.farewell ⟨[], s.front.2⟩ := by
    have hdecoded : decoded = ⟨(gather s.front.1).2, s.front.2⟩ :=
      decodeRows_eq destinations input.rows
    rw [hdecoded]
    rfl
  rw [hrecords, hfarewell]
  exact Scan.calls_nextRecord s.results s.ending

/-- Reading record by record agrees with decoding into tables, for any destinations. The calls for
records return the records of the tables, one table after the other, and behind them the fault that
stopped decoding, or the end if nothing did. So a client that asks for the records of a query, in a
stream or all at once, gets those of its tables, or the same fault. -/
theorem records_agree_with_tables :
    (∀ (destinations : List String) (input : Csv.Input),
      let s := Scan.ofInput (Destinations.ofList destinations) input
      let decoded := decodeTables destinations input
      (List.range (decoded.records.length + 1)).map (s.call Scan.nextRecord) =
        decoded.records.map (fun r => .ok (some r)) ++ [decoded.farewell]) ∧
    ∀ (c : Client) (server : Http.Server) (text : String),
      (c.stream server text).1 =
          (c.send server text).1.map (fun input =>
            ((decodeTables [] input).records, (decodeTables [] input).failure)) ∧
        (c.query server text).1 =
          (c.queryTables server text).1.map fun tables => tables.flatMap Table.records :=
  ⟨calls_eq_records, fun c server text =>
    ⟨c.stream_eq server text, c.query_eq_queryTables server text⟩⟩

end TimeSeries
