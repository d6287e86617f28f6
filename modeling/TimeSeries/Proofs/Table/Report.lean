import TimeSeries.Proofs.Table.Decoding
import TimeSeries.Proofs.Table.Ending
import TimeSeries.Proofs.Table.Faults

/-!
# The report of a failed query

A block whose first column is named `error` is the report of a failed query. Rows of annotations and
blank ones bring nothing, so what is decoded in front of the names of a report are the tables that
were started in front of its block. Behind the names there are no events any more: every row is
passed over or is a fault, and at the end there is a fault too. `reported_query_fails` is what comes
of both: a response with a report is decoded to the tables in front of it and a fault, whatever
stands behind the names, and the fault is the one reported if the next row is that of a report.
-/

namespace TimeSeries

namespace Csv.Row

/-- The row is one of annotations. -/
def IsNote (row : Row) : Prop := (row.cells.head?.bind fun first => first.toList.head?) = some '#'

/-- The row holds nothing. -/
def IsBlank (row : Row) : Prop := row.cells = [""]

instance (row : Row) : Decidable row.IsNote :=
  inferInstanceAs (Decidable ((row.cells.head?.bind fun first => first.toList.head?) = some '#'))

instance (row : Row) : Decidable row.IsBlank := inferInstanceAs (Decidable (row.cells = [""]))

theorem IsNote.exists_cons {row : Row} (h : row.IsNote) :
    ∃ first cells, row.cells = first :: cells ∧ first.toList.head? = some '#' := by
  obtain ⟨first, hfirst, hsign⟩ := Option.bind_eq_some_iff.1 h
  obtain ⟨cells, hcells⟩ := List.head?_eq_some_iff.1 hfirst
  exact ⟨first, cells, hcells, hsign⟩

end Csv.Row

namespace ScanState

variable {d : Destinations} {s s' : ScanState} {row : Csv.Row}
  {out : List (Except TableError Event)} {width : Nat}

/-- A row of annotations without a fault is as wide as its block and sets a part of its columns. -/
theorem Turn.of_note (turn : Turn d s row s' out) (hnote : row.IsNote) (hclean : Clean out) :
    ∃ first cells h, s.Fits row first cells h ∧ first.toList.head? = some '#' ∧ out = [] ∧
      s' = (((s.reach row false).opened first cells).annotationRow h first cells).1 ∧
      Clean (((s.reach row false).opened first cells).annotationRow h first cells).2 := by
  obtain ⟨first, cells, hrow, hsign⟩ := hnote.exists_cons
  have hempty : ∀ others h, ¬s.Fits row "" others h := by
    intro others h fits
    obtain ⟨rfl, -⟩ := List.cons.inj (hrow.symm.trans fits.eq_cons)
    cases hsign
  cases turn with
  | blank hblank =>
      rcases hblank with hblank | hblank <;> rw [hrow] at hblank
      · cases hblank
      · obtain ⟨rfl, -⟩ := List.cons.inj hblank
        cases hsign
  | single | homeless | width => exact absurd hclean (not_clean_error _)
  | annotates fits hfirst =>
      obtain ⟨rfl, rfl⟩ := List.cons.inj (hrow.symm.trans fits.eq_cons)
      refine ⟨first, cells, _, fits, hsign, ?_, rfl, hclean⟩
      rcases (annotationRow_turn _ _ _ _).2.2 with hout | ⟨e, hout⟩
      · exact hout
      · rw [hout] at hclean
        exact absurd hclean (not_clean_error e)
  | untyped fits | report fits | names fits | failure fits | record fits | table fits
  | malformed fits | lost fits => exact absurd fits (hempty _ _)

/-- Rows of annotations and blank ones bring no events. -/
theorem run_notes {notes : List Csv.Row} (h : ∀ note ∈ notes, note.IsNote ∨ note.IsBlank)
    (hclean : Clean (s.run d (notes.map .ok)).2) : (s.run d (notes.map .ok)).2 = [] := by
  induction notes generalizing s with
  | nil => rfl
  | cons note notes ih =>
      obtain ⟨hnote, hnotes⟩ := clean_append_iff.1 hclean
      have hrest := ih (fun n hn => h n (List.mem_cons_of_mem note hn)) hnotes
      have hout : (s.step d note).2 = [] := by
        rcases h note List.mem_cons_self with hsign | hblank
        · obtain ⟨_, _, _, _, _, hout, -⟩ := (turn_step d s note).of_note hsign hnote
          exact hout
        · exact congrArg Prod.snd (step_blank hblank note.line)
      exact List.append_eq_nil_iff.2 ⟨hout, hrest⟩

/-- The state among the annotations of a block with rows of this width, behind its types. -/
structure AwaitsNames (s : ScanState) (width : Nat) : Prop where
  mode : s.mode = .annotations
  typed : s.typed = true
  block : ∃ h, s.block = some h ∧ h.columns.length + 1 = width

theorem AwaitsNames.reach (hs : s.AwaitsNames width) (row : Csv.Row) (blank : Bool) :
    (s.reach row blank).AwaitsNames width :=
  ⟨hs.mode, hs.typed, hs.block⟩

theorem typed_annotationRow {h : TableHead} {first : String} {cells : List String}
    (htyped : s.typed = true ∨ first = "#datatype") :
    (s.annotationRow h first cells).1.typed = true := by
  rw [annotationRow]
  split
  · rfl
  · next hother =>
      have hs : s.typed = true := htyped.resolve_right hother
      split
      · exact hs
      · split <;> exact hs

/-- A row of annotations behind the types of its block, or the row of types itself. -/
theorem awaitsNames_step_note (hnote : row.IsNote) (h : Faultless (s.step d row))
    (htyped : s.AwaitsNames width ∨
      row.cells.head? = some "#datatype" ∧ row.cells.length = width) :
    (s.step d row).1.AwaitsNames width := by
  obtain ⟨hclean, hmode⟩ := h
  obtain ⟨first, cells, h, fits, hsign, -, hstep, hclean⟩ :=
    (turn_step d s row).of_note hnote hclean
  obtain ⟨hkept, columns, hblock, hindex⟩ := annotationRow_of_clean hclean
  rw [hstep] at hmode ⊢
  have hlength : columns.length = h.columns.length := by
    simpa using congrArg List.length hindex
  refine ⟨?_, typed_annotationRow ?_, _, hblock, ?_⟩
  · rw [hkept] at hmode ⊢
    exact mode_opened hsign hmode
  · rcases htyped with hs | ⟨htypes, -⟩
    · rw [opened_of_mode_ne (by rw [mode_reach, hs.mode]; decide)]
      exact .inl hs.typed
    · rw [fits.eq_cons] at htypes
      exact .inr (Option.some.inj htypes)
  · rcases htyped with hs | ⟨-, hwidth⟩
    · obtain ⟨k, hk, hwidth⟩ := hs.block
      have hopened := fits.block
      rw [opened_of_mode_ne (by rw [mode_reach, hs.mode]; decide)] at hopened
      obtain rfl := Option.some.inj (hk.symm.trans hopened)
      rw [hlength, hwidth]
    · rw [hlength, ← fits.width, ← hwidth, fits.eq_cons, List.length_cons]

theorem AwaitsNames.run_notes (hs : s.AwaitsNames width) {notes : List Csv.Row}
    (hnotes : ∀ note ∈ notes, note.IsNote ∨ note.IsBlank)
    (h : Faultless (s.run d (notes.map .ok))) :
    (s.run d (notes.map .ok)).1.AwaitsNames width := by
  induction notes generalizing s with
  | nil => exact hs
  | cons note notes ih =>
      obtain ⟨hstep, hrest⟩ := h.of_run_cons
      have hs' : (s.step d note).1.AwaitsNames width := by
        rcases hnotes note List.mem_cons_self with hnote | hblank
        · exact awaitsNames_step_note hnote hstep (.inl hs)
        · have hreach : s.step d note = (s.reach note true, []) := step_blank hblank note.line
          rw [hreach]
          exact hs.reach note true
      exact ih hs' (fun n hn => hnotes n (List.mem_cons_of_mem note hn)) hrest

/-- The names of a block may follow its annotations, if the types are one of these. -/
theorem awaitsNames_run_notes {notes : List Csv.Row} {types : Csv.Row}
    (hnotes : ∀ note ∈ notes, note.IsNote ∨ note.IsBlank) (hmem : types ∈ notes)
    (htypes : types.cells.head? = some "#datatype") (hwidth : types.cells.length = width)
    (h : Faultless (s.run d (notes.map .ok))) :
    (s.run d (notes.map .ok)).1.AwaitsNames width := by
  obtain ⟨front, back, rfl⟩ := List.append_of_mem hmem
  rw [List.map_append, List.map_cons] at h ⊢
  obtain ⟨hstep, hback⟩ := h.of_run_append.2.of_run_cons
  have hnote : types.IsNote := by
    rw [Csv.Row.IsNote, htypes]
    rfl
  have htyped := awaitsNames_step_note hnote hstep (.inr ⟨htypes, hwidth⟩)
  rw [run_append]
  exact htyped.run_notes (fun n hn => hnotes n (by simp [hn])) hback

/-- The state behind the names of a report with rows of this width. -/
structure InReport (s : ScanState) (width : Nat) : Prop where
  mode : s.mode = .failed
  block : ∃ h, s.block = some h ∧ h.columns.length + 1 = width

/-- The names of a report bring nothing. -/
theorem AwaitsNames.step_report {names : List String} (hs : s.AwaitsNames row.cells.length)
    (hrow : row.cells = "" :: "error" :: names) :
    (s.step d row).2 = [] ∧ (s.step d row).1.InReport row.cells.length := by
  obtain ⟨h, hblock, hwidth⟩ := hs.block
  obtain ⟨cells, line⟩ := row
  obtain rfl : cells = "" :: "error" :: names := hrow
  have hlength : names.length + 1 = h.columns.length := Nat.succ.inj hwidth.symm
  have hreach : (s.reach ⟨"" :: "error" :: names, line⟩ false).block = some h := hblock
  have hstep : s.step d ⟨"" :: "error" :: names, line⟩ =
      ({ s.reach ⟨"" :: "error" :: names, line⟩ false with mode := .failed }, []) := by
    rw [step_cons (List.cons_ne_nil _ _)]
    simp [blockRow, nameRow, hreach, hs.mode, hs.typed, hlength]
  rw [hstep]
  exact ⟨rfl, rfl, h, hblock, hwidth⟩

/-- In a report a row is passed over or is a fault, and the reader does not halt. -/
theorem Turn.of_failed (turn : Turn d s row s' out) (hs : s.mode = .failed) :
    s'.mode = .failed ∧ (out = [] ∨ ∃ e, out = [.error e] ∧ e ≠ .halted) := by
  refine ⟨turn.mode_eq_failed_iff.2 (.inl hs), ?_⟩
  have hout : out = [] ∨ ∃ e, out = [.error e] := by
    cases turn with
    | blank => exact .inl rfl
    | single | homeless | width | untyped | failure => exact .inr ⟨_, rfl⟩
    | annotates => exact (annotationRow_turn _ _ _ _).2.2
    | report fits hmode | names fits hmode | record fits hmode | table fits hmode
    | malformed fits hmode | lost fits hmode =>
        rw [hs] at hmode
        cases hmode
  refine hout.imp_right ?_
  rintro ⟨e, rfl⟩
  refine ⟨e, rfl, fun hhalted => ?_⟩
  have hdata := (turn.of_error_mem List.mem_cons_self).2 hhalted
  rw [hs] at hdata
  cases hdata

/-- The first row of a report, which is as wide as its names. -/
theorem InReport.step_row {cells : List String} (hs : s.InReport row.cells.length)
    (hrow : row.cells = "" :: cells) (hcells : cells ≠ []) :
    (s.step d row).2 = [.error (reported cells)] := by
  obtain ⟨h, hblock, hwidth⟩ := hs.block
  obtain ⟨found, line⟩ := row
  obtain rfl : found = "" :: cells := hrow
  have hlength : cells.length = h.columns.length := Nat.succ.inj hwidth.symm
  have hreach : (s.reach ⟨"" :: cells, line⟩ false).block = some h := hblock
  rw [step_cons hcells]
  simp [blockRow, failureRow, reported, hreach, hs.mode, hlength]

section Front

variable {rows : List (Except Csv.RowFault Csv.Row)} {e : TableError}

/-- Behind the names of a report there are no events any more, but a fault at the latest at the
end. -/
theorem front_scan_of_failed (hs : s.mode = .failed)
    (rows : List (Except Csv.RowFault Csv.Row)) :
    ∃ e, (s.scan d rows).front = ([], some e) ∧ e ≠ .halted := by
  induction rows generalizing s with
  | nil => exact ⟨unknownFailure, front_scan_nil_of_failed hs, nofun⟩
  | cons row rows ih =>
      cases row with
      | error fault => exact ⟨.csv fault, rfl, nofun⟩
      | ok row =>
          obtain ⟨hmode, hout | ⟨e, hout, hgoes⟩⟩ := (turn_step d s row).of_failed hs
          · obtain ⟨e, he, hgoes⟩ := ih hmode
            refine ⟨e, ?_, hgoes⟩
            rw [@front_scan_cons_of_ok d s [] row hout, he]
            rfl
          · exact ⟨e, front_scan_cons_of_error hout rows, hgoes⟩

/-- Blank rows are passed over in a report. -/
theorem InReport.front_scan_blanks (hs : s.InReport width) {blanks : List Csv.Row}
    (h : ∀ blank ∈ blanks, blank.IsBlank) (rows : List (Except Csv.RowFault Csv.Row)) :
    ∃ s' : ScanState, s'.InReport width ∧
      (s.scan d (blanks.map .ok ++ rows)).front = (s'.scan d rows).front := by
  obtain ⟨hout, hpassed⟩ := run_blank (d := d) (s := s) h
  refine ⟨_, ⟨hpassed.mode.trans hs.mode, hpassed.block.symm ▸ hs.block⟩, ?_⟩
  exact @front_scan_append d s (blanks.map .ok) [] hout rows

end Front

end ScanState

open ScanState

variable {destinations : List String} {before back : List (Except Csv.RowFault Csv.Row)}
  {notes : List Csv.Row} {names : Csv.Row}

/-- Decoding reaches the names of a report: it passes some rows without a fault, then annotations
of a block and blank rows, with the types among them, and then comes a row that is as wide as the
block, with an empty cell and the name `error` in front. -/
structure ReachesReport (destinations : List String)
    (before : List (Except Csv.RowFault Csv.Row)) (notes : List Csv.Row) (names : Csv.Row) :
    Prop where
  clean : (decodeRows destinations (before ++ notes.map .ok)).failure = none
  noted : ∀ note ∈ notes, note.IsNote ∨ note.IsBlank
  typed : ∃ types ∈ notes, types.cells.head? = some "#datatype" ∧
    types.cells.length = names.cells.length
  named : ∃ others, names.cells = "" :: "error" :: others

/-- The tables in front of a report stand in front of its block, and behind its names only the fault
is left open. -/
theorem ReachesReport.exists_inReport (h : ReachesReport destinations before notes names) :
    ∃ (tables : List Table) (s : ScanState), decodeRows destinations before = ⟨tables, none⟩ ∧
      s.InReport names.cells.length ∧
        ∀ back e, (s.scan (Destinations.ofList destinations) back).front = ([], some e) →
          decodeRows destinations (before ++ (notes.map .ok ++ .ok names :: back)) =
            ⟨tables, some e⟩ := by
  obtain ⟨others, hnames⟩ := h.named
  obtain ⟨types, hmem, htypes, hwidth⟩ := h.typed
  obtain ⟨hbefore, hnotes⟩ := (faultless_of_decodeRows h.clean).of_run_append
  obtain ⟨events, hevents⟩ := hbefore.clean
  have hawaits := awaitsNames_run_notes h.noted hmem htypes hwidth hnotes
  obtain ⟨hout, hreport⟩ :=
    hawaits.step_report (d := Destinations.ofList destinations) hnames
  refine ⟨(gather events).2, _, decodeRows_of_run hevents hbefore.mode, hreport,
    fun back e hback => ?_⟩
  have hquiet := @front_scan_append _ _ _ [] (run_notes h.noted hnotes.clean) (.ok names :: back)
  rw [@front_scan_cons_of_ok _ _ [] names hout, hback] at hquiet
  rw [decodeRows_append hevents]
  simp only [hquiet, List.append_nil]

theorem reported_eq (message : String) (others : List String) :
    reported (message :: others) =
      .query (if message = "" then "Unknown query error" else message)
        (others.head?.filter fun cell => cell ≠ "") := by
  have hreference : (others[0]?.bind fun cell => if cell = "" then none else some cell) =
      others.head?.filter fun cell => cell ≠ "" := by
    cases others with
    | nil => rfl
    | cons cell others => by_cases hcell : cell = "" <;> simp [hcell, Option.filter]
  by_cases hmessage : message = "" <;> simp [reported, hmessage, hreference]

/-- A response with a report. Whatever stands behind the names, it is not decoded without a fault,
and the reader does not halt. The tables are those in front of the block, with all their records.
If the next row that is not blank is as wide and its first cell is empty, the fault is the failure
of the query with the message and the reference of that row; if there is no such row any more, it is
a failure without them. -/
theorem reported_query_fails {input : Csv.Input} (h : ReachesReport destinations before notes names)
    (hrows : input.rows = before ++ (notes.map .ok ++ .ok names :: back)) :
    ∃ tables e, decodeRows destinations before = ⟨tables, none⟩ ∧
      decodeTables destinations input = ⟨tables, some e⟩ ∧ e ≠ .halted ∧
      ∀ (blanks : List Csv.Row) later, back = blanks.map .ok ++ later →
        (∀ blank ∈ blanks, blank.IsBlank) →
        (∀ (row : Csv.Row) rest message others, later = .ok row :: rest →
          row.cells = "" :: message :: others → row.cells.length = names.cells.length →
          e = .query (if message = "" then "Unknown query error" else message)
            (others.head?.filter fun cell => cell ≠ "")) ∧
        (later = [] → e = .query "Unknown query error" none) := by
  obtain ⟨tables, s, hbefore, hs, hdecoded⟩ := h.exists_inReport
  obtain ⟨e, he, hgoes⟩ := front_scan_of_failed (d := Destinations.ofList destinations) hs.mode back
  refine ⟨tables, e, hbefore, ?_, hgoes, fun blanks later hback hblanks => ?_⟩
  · rw [decodeTables_eq_decodeRows, hrows]
    exact hdecoded back e he
  · obtain ⟨s', hs', hfront⟩ :=
      hs.front_scan_blanks (d := Destinations.ofList destinations) hblanks later
    rw [hback, hfront] at he
    constructor
    · rintro row rest message others rfl hrow hwidth
      rw [← hwidth] at hs'
      have hreported := hs'.step_row (d := Destinations.ofList destinations) hrow
        (List.cons_ne_nil _ _)
      rw [front_scan_cons_of_error hreported, reported_eq] at he
      exact (Option.some.inj (congrArg Prod.snd he)).symm
    · rintro rfl
      rw [front_scan_nil_of_failed hs'.mode] at he
      exact (Option.some.inj (congrArg Prod.snd he)).symm

/-- A report behind a table, with a blank row in front of its only row, which has no reference. -/
theorem reported_query_fails_behind_table :
    let input : Csv.Input :=
      { bytes := Text.utf8Bytes <|
          "#datatype,string,long,long\n,result,table,_value\n,,0,1\n" ++
            "#datatype,string,string\n#group,true,true\n,error,reference\n \n,too many points,\n" }
    let notes : List Csv.Row :=
      [⟨["#datatype", "string", "string"], 5⟩, ⟨["#group", "true", "true"], 6⟩]
    let names : Csv.Row := ⟨["", "error", "reference"], 7⟩
    ReachesReport [] (input.rows.take 3) notes names ∧
      ∃ tables, (decodeRows [] (input.rows.take 3)).tables = tables ∧
        decodeTables [] input = ⟨tables, some (.query "too many points" none)⟩ ∧
        tables.map (fun t => t.records.map Record.value?) = [[some (.long 1)]] := by
  intro input notes names
  have h : ReachesReport [] (input.rows.take 3) notes names :=
    ⟨by decide +kernel, by decide, ⟨_, List.mem_cons_self, rfl, rfl⟩, _, rfl⟩
  have hrows : input.rows = input.rows.take 3 ++
      (notes.map .ok ++ .ok names :: ([(⟨[""], 8⟩ : Csv.Row)].map .ok ++
        [.ok ⟨["", "too many points", ""], 9⟩])) := by
    decide +kernel
  obtain ⟨tables, e, hbefore, hdecoded, -, hfault⟩ := reported_query_fails h hrows
  have he := (hfault [⟨[""], 8⟩] _ rfl (by decide)).1 _ _ _ _ rfl rfl rfl
  refine ⟨h, tables, by rw [hbefore], by rw [hdecoded, he]; rfl, ?_⟩
  have hvalues : (decodeRows [] (input.rows.take 3)).tables.map
      (fun t => t.records.map Record.value?) = [[some (.long 1)]] := by decide +kernel
  rwa [hbefore] at hvalues

end TimeSeries
