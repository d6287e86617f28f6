import TimeSeries.Proofs.Table.Numbering

/-!
# Decoding row by row

A response is decoded as its rows are: `decodeRows` is what any rows decode to, as if there were no
others, and `decodeTables` is that of all rows of an input. No record ever stands in front of the
first table, so whatever is read up to the first fault is kept, and `decodeRows_eq` says what is
decoded without a case for it.

Rows that decode without a fault may be followed by any others. `decodeRows_append` says what comes
of all of them: the events of the first rows, gathered together with what the others bring up to
their first fault.
-/

namespace TimeSeries

/-- The scan of some rows, as if they were the rest of a response. -/
def ScanState.scan (d : Destinations) (s : ScanState)
    (rows : List (Except Csv.RowFault Csv.Row)) : Scan :=
  ⟨(s.run d rows).2, if (s.run d rows).1.mode = .failed then some unknownFailure else none⟩

/-- The events in front of the first fault, and that fault. -/
def Scan.front (s : Scan) : List Event × Option TableError := untilFault s.ending s.results

/-- The tables of some rows, with the named destinations. -/
def decodeRows (destinations : List String) (rows : List (Except Csv.RowFault Csv.Row)) : Decoded :=
  (({} : ScanState).scan (Destinations.ofList destinations) rows).decode

theorem decodeTables_eq_decodeRows (destinations : List String) (input : Csv.Input) :
    decodeTables destinations input = decodeRows destinations input.rows := rfl

namespace ScanState

variable {d : Destinations} {s : ScanState} {rows : List (Except Csv.RowFault Csv.Row)}
  {events : List Event}

/-- There is no record in front of the first table. -/
theorem gather_front_scan (d : Destinations) (rows : List (Except Csv.RowFault Csv.Row)) :
    (gather (({} : ScanState).scan d rows).front.1).1 = [] := by
  have hfollows : Follows 0 0 (({} : ScanState).marked d rows) := placed_start.follows_marked rows
  have hresults : (({} : ScanState).scan d rows).results =
      (({} : ScanState).marked d rows).map Prod.fst := (map_fst_marked d {} rows).symm
  rw [Scan.front, hresults]
  cases hmarks : ({} : ScanState).marked d rows with
  | nil => rfl
  | cons m marks =>
      rw [hmarks] at hfollows
      match m with
      | (.error _, _) => rfl
      | (.ok (.table _), _) => rfl
      | (.ok (.record _), _) => exact absurd rfl hfollows.1.1

theorem front_scan_nil (hmode : s.mode ≠ .failed) : (s.scan d []).front = ([], none) := by
  simp [Scan.front, scan, run, hmode, Scan.untilFault]

theorem front_scan_nil_of_failed (hs : s.mode = .failed) :
    (s.scan d []).front = ([], some unknownFailure) := by
  simp [Scan.front, scan, run, hs, Scan.untilFault]

theorem front_scan_append (hevents : (s.run d rows).2 = events.map .ok)
    (more : List (Except Csv.RowFault Csv.Row)) :
    (s.scan d (rows ++ more)).front =
      (events ++ ((s.run d rows).1.scan d more).front.1,
        ((s.run d rows).1.scan d more).front.2) := by
  simp only [Scan.front, scan, run_append, hevents, Scan.untilFault_append]

theorem front_scan_cons_of_ok {row : Csv.Row} (hout : (s.step d row).2 = events.map .ok)
    (rows : List (Except Csv.RowFault Csv.Row)) :
    (s.scan d (.ok row :: rows)).front =
      (events ++ ((s.step d row).1.scan d rows).front.1,
        ((s.step d row).1.scan d rows).front.2) := by
  simp only [Scan.front, scan, run, next, hout, Scan.untilFault_append]

theorem front_scan_cons_of_error {row : Csv.Row} {e : TableError}
    (hout : (s.step d row).2 = [.error e]) (rows : List (Except Csv.RowFault Csv.Row)) :
    (s.scan d (.ok row :: rows)).front = ([], some e) := by
  simp only [Scan.front, scan, run, next, hout, List.singleton_append, Scan.untilFault]

end ScanState

open ScanState

variable {destinations : List String} {rows : List (Except Csv.RowFault Csv.Row)}
  {events : List Event}

theorem decodeRows_eq (destinations : List String) (rows : List (Except Csv.RowFault Csv.Row)) :
    let front := (({} : ScanState).scan (Destinations.ofList destinations) rows).front
    decodeRows destinations rows = ⟨(gather front.1).2, front.2⟩ :=
  Scan.decode_eq rfl (gather_front_scan _ rows)

theorem decodeRows_append
    (hevents : (({} : ScanState).run (Destinations.ofList destinations) rows).2 = events.map .ok)
    (more : List (Except Csv.RowFault Csv.Row)) :
    let d := Destinations.ofList destinations
    let later := ((({} : ScanState).run d rows).1.scan d more).front
    decodeRows destinations (rows ++ more) = ⟨(gather (events ++ later.1)).2, later.2⟩ := by
  intro d later
  rw [decodeRows_eq]
  simp only [front_scan_append hevents]
  rfl

theorem decodeRows_of_run
    (hevents : (({} : ScanState).run (Destinations.ofList destinations) rows).2 = events.map .ok)
    (hmode : (({} : ScanState).run (Destinations.ofList destinations) rows).1.mode ≠ .failed) :
    decodeRows destinations rows = ⟨(gather events).2, none⟩ := by
  have happend := decodeRows_append hevents []
  simpa only [front_scan_nil hmode, List.append_nil] using happend

/-- Rows that decode without a fault bring none and do not end in a failed query. -/
theorem faultless_of_decodeRows (h : (decodeRows destinations rows).failure = none) :
    Faultless (({} : ScanState).run (Destinations.ofList destinations) rows) := by
  obtain ⟨hending, events, hresults, -⟩ := Scan.of_failure_eq_none h
  refine ⟨⟨events, hresults⟩, fun hfailed => ?_⟩
  rw [scan, if_pos hfailed] at hending
  cases hending

end TimeSeries
