import TimeSeries.Proofs.Table.Calls
import TimeSeries.Proofs.Table.Turn

/-!
# Reading to the end

Every row takes a byte at least and brings two results at most, and every call uses up a result. So
a reader that goes on behind every fault comes to the end within twice as many calls as there are
bytes, and what it is told there it is told again and again.

That need not be the end. The report of a failed query is a block of which nothing leads out, and a
response that stops inside of it has the failure itself for an end: the reader is told of a fault
that never goes away. So reading ends if and only if no row opens a report.
-/

namespace TimeSeries

namespace Csv

/-- Every row takes a byte at least. -/
theorem length_rowsFrom_le (p : Position) (lead bytes : List UInt8) :
    (rowsFrom .complete p lead bytes).length ≤ bytes.length := by
  fun_induction rowsFrom .complete p lead bytes with
  | case1 => exact Nat.zero_le _
  | case2 => exact Nat.zero_le _
  | case3 =>
    rw [List.length_cons]
    omega

theorem Input.length_rows_le {i : Input} (hcomplete : i.ending = .complete) :
    i.rows.length ≤ i.bytes.length := by
  rw [rows, hcomplete]
  split
  · exact (length_rowsFrom_le _ _ _).trans (List.length_drop ▸ Nat.sub_le _ _)
  · exact length_rowsFrom_le _ _ _

end Csv

namespace ScanState

variable {d : Destinations} {s s' : ScanState} {row : Csv.Row}
  {out : List (Except TableError Event)}

theorem length_run_le (s : ScanState) (rows : List (Except Csv.RowFault Csv.Row)) :
    (s.run d rows).2.length ≤ 2 * rows.length := by
  induction rows generalizing s with
  | nil => exact Nat.zero_le _
  | cons row rows ih =>
      have hrow : (s.next d row).2.length ≤ 2 := by
        cases row with
        | ok row => exact (turn_step d s row).length_le
        | error fault => exact Nat.le_succ 1
      have hrest := ih (s.next d row).1
      simp only [run, List.length_append, List.length_cons]
      omega

/-- The row names the columns of a report. -/
def OpensReport (s : ScanState) (row : Csv.Row) : Prop :=
  ∃ cells h, s.Fits row "" cells h ∧ s.mode = .annotations ∧ s.typed = true ∧
    cells.head? = some "error"

/-- A row of these rows names the columns of a report. -/
def Reports (d : Destinations) (s : ScanState) (rows : List (Except Csv.RowFault Csv.Row)) : Prop :=
  ∃ front row back, rows = front ++ .ok row :: back ∧ (s.run d front).1.OpensReport row

theorem mode_opened_eq_failed_iff {first : String} {cells : List String} :
    (s.opened first cells).mode = .failed ↔ s.mode = .failed := by
  rw [opened]
  split
  · next hopens => simp [hopens.2]
  · exact Iff.rfl

/-- Only a row that opens a report leads into it, and no row leads out. -/
theorem Turn.mode_eq_failed_iff (turn : Turn d s row s' out) :
    s'.mode = .failed ↔ s.mode = .failed ∨ s.OpensReport row := by
  have hstays : s'.mode = s.mode → ¬s.OpensReport row →
      (s'.mode = .failed ↔ s.mode = .failed ∨ s.OpensReport row) := by
    intro hmode hno
    rw [hmode, or_iff_left hno]
  have hmode_ne : s.mode ≠ .annotations → ¬s.OpensReport row :=
    fun hmode ⟨_, _, _, hreport, _⟩ => hmode hreport
  cases turn with
  | blank hrow => exact hstays rfl fun ⟨_, _, fits, _⟩ => not_fits_of_blank hrow fits
  | single hrow hcell => exact hstays rfl fun ⟨_, _, fits, _⟩ => not_fits_of_single hrow fits
  | homeless hrow hcells hblock =>
      exact hstays rfl fun ⟨_, _, fits, _⟩ => not_fits_of_homeless hblock fits
  | width hrow hcells hblock hwidth =>
      exact hstays rfl fun ⟨_, _, fits, _⟩ => not_fits_of_width hrow hblock hwidth fits
  | annotates fits hfirst =>
      have hno : ¬s.OpensReport row := fun ⟨_, _, hfits, _⟩ => fits.not_fits_empty hfirst hfits
      rw [or_iff_left hno, (annotationRow_turn _ _ _ _).1, mode_opened_eq_failed_iff, mode_reach]
  | untyped fits hmode htyped =>
      exact hstays rfl fun ⟨_, _, _, _, hreport, _⟩ => by rw [htyped] at hreport; cases hreport
  | report fits hmode htyped hreport =>
      exact ⟨fun _ => .inr ⟨_, _, fits, hmode, htyped, hreport⟩, fun _ => rfl⟩
  | names fits hmode htyped hreport =>
      have hno : ¬s.OpensReport row := by
        rintro ⟨cells, h, hfits, -, -, hhead⟩
        obtain ⟨-, rfl⟩ := List.cons.inj (hfits.eq_cons.symm.trans fits.eq_cons)
        exact hreport hhead
      rw [or_iff_left hno, hmode]
      exact ⟨nofun, nofun⟩
  | failure fits hmode => exact hstays rfl (hmode_ne (by rw [hmode]; decide))
  | record fits hmode => exact hstays rfl (hmode_ne (by rw [hmode]; decide))
  | table fits hmode => exact hstays rfl (hmode_ne (by rw [hmode]; decide))
  | malformed fits hmode => exact hstays rfl (hmode_ne (by rw [hmode]; decide))
  | lost fits hmode => exact hstays rfl (hmode_ne (by rw [hmode]; decide))

theorem reports_cons {row : Except Csv.RowFault Csv.Row}
    {rows : List (Except Csv.RowFault Csv.Row)} :
    s.Reports d (row :: rows) ↔
      (∃ r, row = .ok r ∧ s.OpensReport r) ∨ (s.next d row).1.Reports d rows := by
  constructor
  · rintro ⟨front, r, back, heq, hopens⟩
    cases front with
    | nil => exact .inl ⟨r, (List.cons.inj heq).1, hopens⟩
    | cons _ front =>
        obtain ⟨rfl, hrows⟩ := List.cons.inj heq
        exact .inr ⟨front, r, back, hrows, hopens⟩
  · rintro (⟨r, rfl, hopens⟩ | ⟨front, r, back, rfl, hopens⟩)
    · exact ⟨[], r, rows, rfl, hopens⟩
    · exact ⟨row :: front, r, back, rfl, hopens⟩

/-- The state behind some rows is that of a failed query if and only if one of them opened its
report. -/
theorem mode_run_eq_failed_iff (s : ScanState) (rows : List (Except Csv.RowFault Csv.Row)) :
    (s.run d rows).1.mode = .failed ↔ s.mode = .failed ∨ s.Reports d rows := by
  induction rows generalizing s with
  | nil =>
      refine ⟨.inl, fun h => h.resolve_right ?_⟩
      rintro ⟨front, row, back, heq, -⟩
      cases front <;> cases heq
  | cons row rows ih =>
      have hrow : (s.next d row).1.mode = .failed ↔
          s.mode = .failed ∨ ∃ r, row = .ok r ∧ s.OpensReport r := by
        cases row with
        | ok row => simpa [next] using (turn_step d s row).mode_eq_failed_iff
        | error fault => simp [next]
      rw [reports_cons, ← or_assoc, ← hrow]
      exact ih (s.next d row).1

end ScanState

namespace Scan

variable {α : Type} {next : Scan → Except TableError (Option α) × Scan} {d : Destinations}
  {input : Csv.Input}

theorem length_results_le (hcomplete : input.ending = .complete) :
    (ofInput d input).results.length ≤ 2 * input.bytes.length := by
  have hrows := Csv.Input.length_rows_le hcomplete
  have hresults := ScanState.length_run_le (d := d) {} input.rows
  rw [ofInput]
  simp only
  omega

theorem ending_of_reports (h : ScanState.Reports d {} input.rows) :
    (ofInput d input).ending = some ScanState.unknownFailure :=
  if_pos ((ScanState.mode_run_eq_failed_iff {} input.rows).2 (.inr h))

theorem ending_of_not_reports (h : ¬ScanState.Reports d {} input.rows) :
    (ofInput d input).ending = none := by
  refine if_neg fun hfailed => ?_
  rcases (ScanState.mode_run_eq_failed_iff {} input.rows).1 hfailed with hstart | hreports
  · cases hstart
  · exact h hreports

theorem ending_ne_halted (d : Destinations) (input : Csv.Input) :
    (ofInput d input).ending ≠ some .halted := by
  rw [ofInput]
  simp only
  split <;> nofun

theorem Consumes.call_ofInput (hnext : Consumes next) (hcomplete : input.ending = .complete)
    (hgoes : .error .halted ∉ (ofInput d input).results) {n : Nat}
    (hn : 2 * input.bytes.length ≤ n) :
    (¬ScanState.Reports d {} input.rows → (ofInput d input).call next n = .ok none) ∧
      (ScanState.Reports d {} input.rows →
        (ofInput d input).call next n = .error ScanState.unknownFailure) := by
  have hcall := (hnext.call_of_length_le (ending_ne_halted d input)
    ((length_results_le hcomplete).trans hn)).2 hgoes
  rw [hcall, farewell]
  exact ⟨fun h => by rw [ending_of_not_reports h], fun h => by rw [ending_of_reports h]⟩

theorem Consumes.call_ne_none (hnext : Consumes next)
    (h : .error .halted ∈ (ofInput d input).results ∨ ScanState.Reports d {} input.rows) (n : Nat) :
    (ofInput d input).call next n ≠ .ok none := by
  intro hcall
  obtain ⟨hending, hgoes⟩ := hnext.of_call_eq_none (ending_ne_halted d input) hcall
  rcases h with hhalted | hreports
  · exact hgoes hhalted
  · rw [ending_of_reports hreports] at hending
    cases hending

/-- Reading of a complete input, event by event or record by record, going on behind faults. It is
at the end within twice as many calls as there are bytes, and stays there, unless a call halts or a
row opens the report of a failed query. Behind a report no call tells the end: within as many calls
the failure of the query is told by every call. -/
theorem reading_ends_unless_reported (hcomplete : input.ending = .complete) (d : Destinations) :
    let s := ofInput d input
    let reports := ScanState.Reports d {} input.rows
    (.error .halted ∉ s.results → ∀ n, 2 * input.bytes.length ≤ n →
      (¬reports → s.call nextEvent n = .ok none ∧ s.call nextRecord n = .ok none) ∧
      (reports → s.call nextEvent n = .error ScanState.unknownFailure ∧
        s.call nextRecord n = .error ScanState.unknownFailure)) ∧
    (.error .halted ∈ s.results ∨ reports → ∀ n,
      s.call nextEvent n ≠ .ok none ∧ s.call nextRecord n ≠ .ok none) := by
  intro s reports
  refine ⟨fun hgoes n hn => ?_, fun h n => ?_⟩
  · have hevent := consumes_nextEvent.call_ofInput hcomplete hgoes hn
    have hrecord := consumes_nextRecord.call_ofInput hcomplete hgoes hn
    exact ⟨fun h => ⟨hevent.1 h, hrecord.1 h⟩, fun h => ⟨hevent.2 h, hrecord.2 h⟩⟩
  · exact ⟨consumes_nextEvent.call_ne_none h n, consumes_nextRecord.call_ne_none h n⟩

/-- A response with a fault in a cell, of less than a hundred bytes. -/
theorem reading_ends_of_fault :
    let input : Csv.Input :=
      { bytes := Text.utf8Bytes
          "#datatype,string,long,long\n#group,false,false,false\n,result,table,_value\n,,0,x\n,,0,1" }
    let s := ofInput {} input
    s.call nextEvent 1 = .error (.malformedCell "_value" "x" (.integer .invalidDigit)) ∧
      ∀ n, 200 ≤ n → s.call nextEvent n = .ok none ∧ s.call nextRecord n = .ok none := by
  intro input s
  have hgoes : .error .halted ∉ s.results := by decide +kernel
  have hreports : ¬ScanState.Reports {} {} input.rows := by
    intro hreports
    have hmode := (ScanState.mode_run_eq_failed_iff {} input.rows).2 (.inr hreports)
    have hno : (({} : ScanState).run {} input.rows).1.mode ≠ .failed := by decide +kernel
    exact hno hmode
  have hlength : 2 * input.bytes.length ≤ 200 := by decide +kernel
  exact ⟨by decide +kernel, fun n hn =>
    ((reading_ends_unless_reported rfl {}).1 hgoes n (hlength.trans hn)).1 hreports⟩

/-- The report of a failed query. Its message is told once, and then no call tells the end. -/
theorem report_has_no_end :
    let input : Csv.Input :=
      { bytes := Text.utf8Bytes
          "#datatype,string,string\n#group,true,true\n#default,,\n,error,reference\n,msg,1\n" }
    let s := ofInput {} input
    s.call nextRecord 0 = .error (.query "msg" (some "1")) ∧
      ∀ n, s.call nextEvent n ≠ .ok none ∧ s.call nextRecord n ≠ .ok none := by
  intro input s
  have hending : s.ending ≠ none := by decide +kernel
  have hgoes : s.ending ≠ some .halted := ending_ne_halted {} input
  exact ⟨by decide +kernel, fun n =>
    ⟨fun hcall => hending (consumes_nextEvent.of_call_eq_none hgoes hcall).1,
      fun hcall => hending (consumes_nextRecord.of_call_eq_none hgoes hcall).1⟩⟩

end Scan
end TimeSeries
