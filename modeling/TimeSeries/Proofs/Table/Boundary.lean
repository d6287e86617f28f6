import TimeSeries.Proofs.Csv.Lines
import TimeSeries.Proofs.Table.Faultless
import TimeSeries.Proofs.Table.RoundTrip

/-!
# Blank lines between data rows

A blank line between two data rows puts them into different tables. The reader skips lines without
a text, so they are told from line numbers: a row should be as many lines further than the row in
front of it as there are line feeds in its cells, and one more. `rows_split_iff` says when that goes
right and when it does not, for any two rows of a block with nothing but blank lines between them.

A line of white space is a row and never overlooked. For lines without a text, the line feeds are
counted that are read behind the end of the first row and up to the end of the second one. That is
right when both rows end in the same way, as far as the reader is concerned, and no line feed of the
second row is lost in trimming. If a line feed is read with the first row and none with the second
one, a blank line is overlooked. The other way round, one is seen where there is none.
-/

namespace TimeSeries

/-- The records of all tables, each with the number of its table, counted from one. -/
def Decoded.placed (x : Decoded) : List (Nat × Record) :=
  (x.tables.zipIdx 1).flatMap fun e => e.1.records.map fun r => (e.2, r)

/-- The records among events, each with the number of tables that have started. -/
def placedFrom : (started : Nat) → List Event → List (Nat × Record)
  | _, [] => []
  | n, .table _ :: rest => placedFrom (n + 1) rest
  | n, .record r :: rest => (n, r) :: placedFrom n rest

def tablesIn : List Event → Nat
  | [] => 0
  | .table _ :: rest => tablesIn rest + 1
  | .record _ :: rest => tablesIn rest

theorem placedFrom_append (n : Nat) (events more : List Event) :
    placedFrom n (events ++ more) =
      placedFrom n events ++ placedFrom (n + tablesIn events) more := by
  induction events generalizing n with
  | nil => rfl
  | cons e events ih =>
      cases e with
      | table h =>
          rw [List.cons_append, placedFrom, placedFrom, ih, tablesIn, Nat.add_right_comm,
            Nat.add_assoc n]
      | record r => rw [List.cons_append, placedFrom, placedFrom, ih, tablesIn, List.cons_append]

theorem placedFrom_heads (n : Nat) (heads : List TableHead) (r : Record) (rest : List Event) :
    placedFrom n (heads.map .table ++ [.record r] ++ rest) =
      (n + heads.length, r) :: placedFrom (n + heads.length) rest := by
  induction heads generalizing n with
  | nil => rfl
  | cons h heads ih =>
      have hn : n + 1 + heads.length = n + (h :: heads).length := by
        rw [List.length_cons]
        omega
      rw [← hn, ← ih]
      rfl

/-- Records stand in the table that started last. -/
theorem placedFrom_eq_gather (n : Nat) (events : List Event) :
    placedFrom n events =
      (gather events).1.map (fun r => (n, r)) ++
        ((gather events).2.zipIdx (n + 1)).flatMap fun e => e.1.records.map fun r => (e.2, r) := by
  induction events generalizing n with
  | nil => rfl
  | cons e events ih =>
      cases e with
      | table h => rw [placedFrom, ih]; rfl
      | record r => rw [placedFrom, ih]; rfl

theorem gather_append {events more : List Event} (h : (gather (events ++ more)).1 = []) :
    (gather events).1 = [] := by
  cases events with
  | nil => rfl
  | cons e events =>
      cases e with
      | table _ => rfl
      | record r => cases h

theorem gather_append_eq_nil {events : List Event} (hfront : (gather events).1 = [])
    (hne : events ≠ []) (more : List Event) : (gather (events ++ more)).1 = [] := by
  cases events with
  | nil => exact absurd rfl hne
  | cons e events =>
      cases e with
      | table h => rfl
      | record r => cases hfront

namespace Scan

variable {s : Scan}

/-- What is decoded are the events up to the first fault. -/
theorem decode_eq {events : List Event} {fault : Option TableError}
    (hevents : untilFault s.ending s.results = (events, fault)) (hfront : (gather events).1 = []) :
    s.decode = ⟨(gather events).2, fault⟩ := by
  have hsplit : gather events = ([], (gather events).2) := by rw [← hfront]
  rw [decode, hevents]
  simp only
  rw [hsplit]

theorem placed_decode {events : List Event} {fault : Option TableError}
    (hevents : untilFault s.ending s.results = (events, fault)) (hfront : (gather events).1 = []) :
    s.decode.placed = placedFrom 0 events := by
  rw [decode_eq hevents hfront, placedFrom_eq_gather, hfront]
  rfl

/-- The records in front of a fault are kept. -/
theorem exists_placed_append {events : List Event}
    {rest : List (Except TableError Event)} (hresults : s.results = events.map .ok ++ rest)
    (hfront : (gather events).1 = []) (hne : events ≠ []) :
    ∃ more, s.decode.placed = placedFrom 0 (events ++ more) :=
  ⟨_, placed_decode (by rw [hresults, untilFault_append])
    (gather_append_eq_nil hfront hne _)⟩

theorem eq_map_of_untilFault {ending : Option TableError} {results : List (Except TableError Event)}
    (h : (untilFault ending results).2 = none) :
    ending = none ∧ results = (untilFault ending results).1.map .ok := by
  induction results with
  | nil => exact ⟨h, rfl⟩
  | cons result results ih =>
      cases result with
      | error e => cases h
      | ok e =>
          obtain ⟨hending, hrest⟩ := ih h
          exact ⟨hending, congrArg (Except.ok e :: ·) hrest⟩

/-- A scan that is decoded without a fault has none. -/
theorem of_failure_eq_none (h : s.decode.failure = none) :
    s.ending = none ∧ ∃ events, s.results = events.map .ok ∧ (gather events).1 = [] := by
  rw [decode] at h
  simp only at h
  split at h
  · next tables hgather =>
      obtain ⟨hending, hresults⟩ := eq_map_of_untilFault h
      exact ⟨hending, _, hresults, by rw [hgather]⟩
  · cases h

end Scan

namespace ScanState

variable {d : Destinations} {s : ScanState}

/-- What lines bring that stand behind a number of line feeds. -/
def runLines (d : Destinations) (s : ScanState) (line : Nat) (ls : List Csv.Line) :
    ScanState × List (Except TableError Event) :=
  s.run d ((Csv.rowsOf line ls).map .ok)

theorem runLines_append (s : ScanState) (line : Nat) (ls more : List Csv.Line) :
    s.runLines d line (ls ++ more) =
      (((s.runLines d line ls).1.runLines d (line + Csv.lineFeedsOf ls) more).1,
        (s.runLines d line ls).2 ++
          ((s.runLines d line ls).1.runLines d (line + Csv.lineFeedsOf ls) more).2) := by
  simp only [runLines, Csv.rowsOf_append, List.map_append, run_append]

theorem runLines_singleton {l : Csv.Line} (h : l.cells ≠ [""]) (line : Nat) :
    s.runLines d line [l] =
      s.step d ⟨l.cells, line + (l.text ++ l.stop).count Csv.lineFeed⟩ := by
  have htext : l.text ≠ [] := fun hnil => h (Csv.Line.cells_of_text_eq_nil hnil)
  simp only [runLines, Csv.rowsOf, if_neg htext, List.map_cons, List.map_nil, run, next,
    List.append_nil]

/-- The lines bring no fault and do not end in a failed query. -/
structure Faultless (r : ScanState × List (Except TableError Event)) : Prop where
  clean : Clean r.2
  mode : r.1.mode ≠ .failed

theorem Faultless.of_run_append {rows more : List (Except Csv.RowFault Csv.Row)}
    (h : Faultless (s.run d (rows ++ more))) :
    Faultless (s.run d rows) ∧ Faultless ((s.run d rows).1.run d more) := by
  rw [run_append] at h
  obtain ⟨hfront, hback⟩ := clean_append_iff.1 h.clean
  refine ⟨⟨hfront, fun hfailed => h.mode ?_⟩, ⟨hback, h.mode⟩⟩
  exact run_invariant (fun _ _ => mode_step_of_failed) hfailed hback

theorem Faultless.of_run_cons {row : Csv.Row} {rows : List (Except Csv.RowFault Csv.Row)}
    (h : Faultless (s.run d (.ok row :: rows))) :
    Faultless (s.step d row) ∧ Faultless ((s.step d row).1.run d rows) := by
  have hsplit : Faultless (s.run d ([.ok row] ++ rows)) := h
  obtain ⟨⟨hclean, hmode⟩, hrest⟩ := hsplit.of_run_append
  exact ⟨⟨(clean_append_iff.1 hclean).1, hmode⟩, hrest⟩

theorem Faultless.of_append {line : Nat} {ls more : List Csv.Line}
    (h : Faultless (s.runLines d line (ls ++ more))) :
    Faultless (s.runLines d line ls) ∧
      Faultless ((s.runLines d line ls).1.runLines d (line + Csv.lineFeedsOf ls) more) := by
  rw [runLines, Csv.rowsOf_append, List.map_append] at h
  exact h.of_run_append

/-- The state behind rows that hold nothing, of which there are some or none. -/
structure Passed (s s' : ScanState) (some : Prop) : Prop where
  mode : s'.mode = s.mode
  block : s'.block = s.block
  tableCell : s'.tableCell = s.tableCell
  boundary : s.mode = .data → (s'.boundary = true ↔ s.boundary = true ∨ some)

theorem run_blank {rows : List Csv.Row} (h : ∀ row ∈ rows, row.cells = [""]) :
    (s.run d (rows.map .ok)).2 = [] ∧ Passed s (s.run d (rows.map .ok)).1 (rows ≠ []) := by
  induction rows generalizing s with
  | nil => exact ⟨rfl, rfl, rfl, rfl, fun _ => by simp [run]⟩
  | cons row rows ih =>
      have hstep : s.step d row = (s.reach row true, []) :=
        step_blank (h row List.mem_cons_self) row.line
      obtain ⟨hout, hpassed⟩ := ih (s := s.reach row true)
        fun r hr => h r (List.mem_cons_of_mem row hr)
      rw [List.map_cons, run_cons_of_step hstep]
      refine ⟨hout, hpassed.mode, hpassed.block, hpassed.tableCell, fun hdata => ?_⟩
      rw [hpassed.boundary hdata]
      simp [reach, hdata]

/-- Lines that hold nothing. Those without a text are not even seen. -/
theorem runLines_blank {ls : List Csv.Line} (h : ∀ l ∈ ls, l.cells = [""]) (line : Nat) :
    (s.runLines d line ls).2 = [] ∧
      Passed s (s.runLines d line ls).1 (∃ l ∈ ls, l.text ≠ []) ∧
      ((∀ l ∈ ls, l.text = []) → (s.runLines d line ls).1 = s) := by
  have hrows : ∀ row ∈ Csv.rowsOf line ls, row.cells = [""] := by
    intro row hrow
    obtain ⟨l, hl, hcells⟩ := Csv.exists_of_mem_rowsOf hrow
    rw [hcells, h l hl]
  obtain ⟨hout, hpassed⟩ := run_blank (d := d) (s := s) hrows
  refine ⟨hout, propext (@Csv.rowsOf_ne_nil_iff line ls) ▸ hpassed, fun hempty => ?_⟩
  have hnone : Csv.rowsOf line ls = [] := by
    by_contra hsome
    obtain ⟨l, hl, hne⟩ := Csv.rowsOf_ne_nil_iff.1 hsome
    exact hne (hempty l hl)
  rw [runLines, hnone]
  rfl

theorem Passed.among {s' : ScanState} {some : Prop} {names : List String} (h : Passed s s' some)
    (hs : s.Among names) : s'.Among names :=
  ⟨h.mode.trans hs.mode, h.block.symm ▸ hs.block⟩

end ScanState

/-- The lines end among the data rows of a block with these column names: in a row of names that
stands behind a row of annotations, or in a data row or a line that holds nothing behind it. -/
inductive EndsInBlock (names : List String) : List Csv.Line → Prop where
  | names {earlier blanks : List Csv.Line} {note header : Csv.Line} {first : String}
    {cells : List String} :
    note.cells = first :: cells → cells ≠ [] → first.toList.head? = some '#' →
      (∀ l ∈ blanks, l.cells = [""]) → header.cells = "" :: names → names ≠ [] →
      EndsInBlock names (earlier ++ ([note] ++ (blanks ++ [header])))
  | row {front : List Csv.Line} {l : Csv.Line} :
    EndsInBlock names front → l.cells.head? = some "" → EndsInBlock names (front ++ [l])

namespace ScanState

variable {d : Destinations} {s : ScanState}

theorem numbered_start : ({} : ScanState).Numbered := fun _ hblock => by cases hblock

theorem numbered_runLines {line : Nat} {ls : List Csv.Line} (hs : s.Numbered)
    (h : Faultless (s.runLines d line ls)) : (s.runLines d line ls).1.Numbered :=
  run_invariant (fun _ _ => Numbered.step) hs h.clean

theorem mode_runLines_annotation {l : Csv.Line} {first : String} {cells : List String}
    (hl : l.cells = first :: cells) (hcells : cells ≠ []) (hfirst : first.toList.head? = some '#')
    {line : Nat} (h : Faultless (s.runLines d line [l])) :
    (s.runLines d line [l]).1.mode = .annotations := by
  have hblank : l.cells ≠ [""] := by simp [hl, hcells]
  rw [runLines_singleton hblank, hl] at h ⊢
  exact mode_step_annotation hcells hfirst h.clean h.mode

theorem among_runLines_names {l : Csv.Line} {names : List String} (hl : l.cells = "" :: names)
    (hnames : names ≠ []) (hs : s.mode = .annotations) (hnumbered : s.Numbered) {line : Nat}
    (h : Faultless (s.runLines d line [l])) : (s.runLines d line [l]).1.Among names := by
  have hblank : l.cells ≠ [""] := by simp [hl, hnames]
  rw [runLines_singleton hblank, hl] at h ⊢
  exact among_step_names hnames hs hnumbered h.clean h.mode

theorem Among.runLines {l : Csv.Line} {names : List String} (hs : s.Among names)
    (hl : l.cells.head? = some "") {line : Nat} (h : Faultless (s.runLines d line [l])) :
    (s.runLines d line [l]).1.Among names := by
  by_cases hblank : l.cells = [""]
  · have hcells : ∀ m ∈ [l], m.cells = [""] := by simpa using hblank
    exact (runLines_blank hcells line).2.1.among hs
  · obtain ⟨cells, hcons⟩ := List.head?_eq_some_iff.1 hl
    have hne : cells ≠ [] := by
      rintro rfl
      exact hblank hcons
    rw [runLines_singleton hblank, hcons] at h ⊢
    exact (hs.step_dataRow hne h.clean).1

theorem among_of_endsInBlock {names : List String} {front : List Csv.Line}
    (hfront : EndsInBlock names front)
    (h : Faultless (({} : ScanState).runLines d 1 front)) :
    (({} : ScanState).runLines d 1 front).1.Among names := by
  induction hfront with
  | names hnote hcells hfirst hblanks hheader hnames =>
      obtain ⟨hearlier, h⟩ := h.of_append
      obtain ⟨hnoted, h⟩ := h.of_append
      obtain ⟨hgap, hnamed⟩ := h.of_append
      have hnumbered := numbered_runLines
        (numbered_runLines (numbered_runLines numbered_start hearlier) hnoted) hgap
      have hmode := mode_runLines_annotation hnote hcells hfirst hnoted
      rw [runLines_append, runLines_append, runLines_append]
      exact among_runLines_names hheader hnames
        ((runLines_blank hblanks _).2.1.mode.trans hmode) hnumbered hnamed
  | row _ hl ih =>
      obtain ⟨hfront, hrow⟩ := h.of_append
      rw [runLines_append]
      exact (ih hfront).runLines hl hrow

/-- The line feeds between the ends of two rows, with those of the second one. -/
theorem lineFeeds_between {one two : Csv.Line} {gap : List Csv.Line} (hone : one.ending ≠ none)
    (hempty : ∀ l ∈ gap, l.text = []) (hended : ∀ l ∈ gap, l.ending ≠ none) (line : Nat) :
    line + Csv.lineFeedsOf [one] + Csv.lineFeedsOf gap +
          (two.text ++ two.stop).count Csv.lineFeed + one.own =
      line + (one.text ++ one.stop).count Csv.lineFeed + 1 +
        (gap.length + two.text.count Csv.lineFeed + two.own) := by
  have hleft := Csv.Line.own_add_count_left hone
  have hone : Csv.lineFeedsOf [one] =
      (one.text ++ one.stop).count Csv.lineFeed + one.left.count Csv.lineFeed := by
    simp [Csv.lineFeedsOf, Csv.Line.bytes, List.count_append, Nat.add_assoc]
  have htwo : (two.text ++ two.stop).count Csv.lineFeed =
      two.text.count Csv.lineFeed + two.own := List.count_append
  rw [Csv.lineFeedsOf_eq_length hempty hended]
  omega

theorem Among.runLines_dataRow {names cells : List String} {l : Csv.Line} (hs : s.Among names)
    (hl : l.cells = "" :: cells) (hcells : cells ≠ []) {line : Nat}
    (h : Faultless (s.runLines d line [l])) :
    let s' := (s.runLines d line [l]).1
    s'.Among names ∧ s'.tableCell = cells[names.idxOf "table"]? ∧ s'.boundary = false ∧
      s'.line = line + (l.text ++ l.stop).count Csv.lineFeed ∧
      ∃ heads r,
        (s.runLines d line [l]).2 = (heads.map Event.table ++ [Event.record r]).map .ok ∧
          (s.tableCell = cells[names.idxOf "table"]? →
            (heads ≠ [] ↔ s.boundary = true ∨
              Csv.feeds l.cells + 1 <
                line + (l.text ++ l.stop).count Csv.lineFeed - s.line)) := by
  have hblank : l.cells ≠ [""] := by simp [hl, hcells]
  rw [runLines_singleton hblank, hl] at h ⊢
  exact hs.step_dataRow hcells h.clean

/-- Two rows with the same cell in the column `table`, and nothing between them. -/
theorem Among.runLines_pair {names cells more : List String} {one two : Csv.Line}
    {gap : List Csv.Line} (hs : s.Among names) (hone : one.cells = "" :: cells)
    (hcells : cells ≠ []) (hgap : ∀ l ∈ gap, l.cells = [""]) (htwo : two.cells = "" :: more)
    (hmore : more ≠ []) (hsame : cells[names.idxOf "table"]? = more[names.idxOf "table"]?)
    (hended : ∀ l ∈ one :: gap, l.ending ≠ none) {line : Nat}
    (h : Faultless (s.runLines d line ([one] ++ (gap ++ [two])))) :
    ∃ (heads : List TableHead) (r : Record) (later : List TableHead) (q : Record),
      (s.runLines d line ([one] ++ (gap ++ [two]))).2 =
          (heads.map Event.table ++ [Event.record r] ++
            (later.map Event.table ++ [Event.record q])).map .ok ∧
        (later ≠ [] ↔ (∃ l ∈ gap, l.text ≠ []) ∨
          Csv.feeds two.cells + one.own <
            gap.length + two.text.count Csv.lineFeed + two.own) := by
  obtain ⟨hfirst, h⟩ := h.of_append
  obtain ⟨-, hsecond⟩ := h.of_append
  obtain ⟨hs₁, hcell₁, hboundary₁, hline₁, heads, r, hout₁, -⟩ :=
    hs.runLines_dataRow hone hcells hfirst
  obtain ⟨hout, hpassed, hstay⟩ := runLines_blank (d := d) (s := (s.runLines d line [one]).1) hgap
    (line + Csv.lineFeedsOf [one])
  obtain ⟨-, -, -, -, later, q, hout₂, hlater⟩ :=
    (hpassed.among hs₁).runLines_dataRow htwo hmore hsecond
  refine ⟨heads, r, later, q, ?_, ?_⟩
  · rw [runLines_append, runLines_append]
    simp only [hout₁, hout, hout₂, List.nil_append, ← List.map_append]
  · rw [hlater (hpassed.tableCell.trans (hcell₁.trans hsame)), hpassed.boundary hs₁.mode,
      hboundary₁]
    by_cases hseen : ∃ l ∈ gap, l.text ≠ []
    · simp [hseen]
    · have hempty : ∀ l ∈ gap, l.text = [] := by simpa using hseen
      have hbetween := @lineFeeds_between one two gap (hended one List.mem_cons_self) hempty
        (fun l hl => hended l (List.mem_cons_of_mem one hl)) line
      rw [hstay hempty, hline₁]
      simp only [hseen, Bool.false_eq_true, false_or]
      omega

theorem ok_of_clean {rows : List (Except Csv.RowFault Csv.Row)} (h : Clean (s.run d rows).2) :
    ∀ r ∈ rows, ∃ row, r = .ok row := by
  induction rows generalizing s with
  | nil => exact fun r hr => absurd hr List.not_mem_nil
  | cons row rows ih =>
      obtain ⟨hrow, hrows⟩ := clean_append_iff.1 h
      intro r hr
      rcases List.mem_cons.1 hr with rfl | hr
      · cases r with
        | ok row => exact ⟨row, rfl⟩
        | error fault => exact absurd hrow (not_clean_error _)
      · exact ih hrows r hr

end ScanState

section Decode

open ScanState

variable {destinations : List String} {input : Csv.Input} {ls more : List Csv.Line}

theorem rows_upTo_of_failure (h : input.Holds (ls ++ more))
    (hclean : (decodeTables destinations input).failure = none) :
    (input.upTo ls).rows = (Csv.rowsOf 1 ls).map .ok := by
  obtain ⟨-, events, hresults, -⟩ := Scan.of_failure_eq_none hclean
  exact h.rows_upTo (ok_of_clean ⟨events, hresults⟩)

theorem rows_of_failure (h : input.Holds ls)
    (hclean : (decodeTables destinations input).failure = none) :
    input.rows = (Csv.rowsOf 1 ls).map .ok := by
  have hwhole : input.Holds (ls ++ []) := by rwa [List.append_nil]
  have hpart := rows_upTo_of_failure hwhole hclean
  rwa [h.upTo_eq] at hpart

theorem ofInput_of_rows {d : Destinations} (h : input.rows = (Csv.rowsOf 1 ls).map .ok) :
    (Scan.ofInput d input).results = (({} : ScanState).runLines d 1 ls).2 ∧
      (Scan.ofInput d input).ending =
        if (({} : ScanState).runLines d 1 ls).1.mode = .failed then some unknownFailure
        else none := by
  rw [Scan.ofInput, h]
  exact ⟨rfl, rfl⟩

theorem faultless_of_failure (h : input.Holds ls)
    (hclean : (decodeTables destinations input).failure = none) :
    Faultless (({} : ScanState).runLines (Destinations.ofList destinations) 1 ls) := by
  obtain ⟨hending, events, hresults, -⟩ := Scan.of_failure_eq_none hclean
  obtain ⟨hall, hend⟩ := ofInput_of_rows (d := Destinations.ofList destinations)
    (rows_of_failure h hclean)
  refine ⟨⟨events, hall ▸ hresults⟩, fun hfailed => ?_⟩
  rw [hend, if_pos hfailed] at hending
  cases hending

/-- A part of what is decoded without a fault holds the records that its lines bring. -/
theorem placed_upTo (h : input.Holds (ls ++ more))
    (hclean : (decodeTables destinations input).failure = none) {events : List Event}
    (hevents : (({} : ScanState).runLines (Destinations.ofList destinations) 1 ls).2 =
      events.map .ok) :
    (decodeTables destinations (input.upTo ls)).placed = placedFrom 0 events := by
  have hpart := (ofInput_of_rows (d := Destinations.ofList destinations)
    (rows_upTo_of_failure h hclean)).1
  have hwhole := (ofInput_of_rows (d := Destinations.ofList destinations)
    (rows_of_failure h hclean)).1
  obtain ⟨-, all, hresults, hfront⟩ := Scan.of_failure_eq_none hclean
  rw [hresults, runLines_append, hevents] at hwhole
  obtain ⟨front, back, rfl, hsame, -⟩ := List.map_eq_append_iff.1 hwhole
  obtain rfl := eq_of_map_ok hsame
  exact Scan.placed_decode (by rw [hpart, hevents, Scan.untilFault_map_ok]) (gather_append hfront)

theorem placed_eq (h : input.Holds ls) (hclean : (decodeTables destinations input).failure = none)
    {events : List Event}
    (hevents : (({} : ScanState).runLines (Destinations.ofList destinations) 1 ls).2 =
      events.map .ok) :
    (decodeTables destinations input).placed = placedFrom 0 events := by
  have hwhole : input.Holds (ls ++ []) := by rwa [List.append_nil]
  have hpart := placed_upTo hwhole hclean hevents
  rwa [h.upTo_eq] at hpart

/-- Two data rows of a block with the same cell in the column `table`, and only lines that hold
nothing between them: white space, or quotes around nothing. The records in front of them are those
of the lines in front, and the next two are in different tables if and only if a line between the
rows has a text or the line feeds are more than the cells explain. That is the case if and only if
there is a line between the rows, provided that both rows end in the same way for the reader and no
line feed of the second row is lost in trimming. -/
theorem rows_split_iff {front gap after : List Csv.Line} {one two : Csv.Line}
    {names cells more : List String}
    (hlines : input.Holds (front ++ (([one] ++ (gap ++ [two])) ++ after)))
    (hclean : (decodeTables destinations input).failure = none) (hfront : EndsInBlock names front)
    (hone : one.cells = "" :: cells) (hcells : cells ≠ []) (hgap : ∀ l ∈ gap, l.cells = [""])
    (htwo : two.cells = "" :: more) (hmore : more ≠ [])
    (hsame : cells[names.idxOf "table"]? = more[names.idxOf "table"]?) :
    ∃ i r j q rest,
      (decodeTables destinations input).placed =
          (decodeTables destinations (input.upTo front)).placed ++ (i, r) :: (j, q) :: rest ∧
        (i ≠ j ↔ (∃ l ∈ gap, l.text ≠ []) ∨
          Csv.feeds two.cells + one.own <
            gap.length + two.text.count Csv.lineFeed + two.own) ∧
        (one.own = two.own → Csv.feeds two.cells = two.text.count Csv.lineFeed →
          (i ≠ j ↔ gap ≠ [])) := by
  have hrun := faultless_of_failure hlines hclean
  obtain ⟨hrunFront, hrunRest⟩ := hrun.of_append
  obtain ⟨hrunPair, hrunAfter⟩ := hrunRest.of_append
  have hamong := among_of_endsInBlock hfront hrunFront
  have hended : ∀ l ∈ one :: gap, l.ending ≠ none := by
    have hsound : Csv.Sound ((front ++ one :: gap) ++ two :: after) := by
      simpa using hlines.toSound
    exact fun l hl => hsound.ending_ne_none (List.cons_ne_nil _ _) l (List.mem_append_right _ hl)
  obtain ⟨heads, r, later, q, hpair, hlater⟩ :=
    hamong.runLines_pair hone hcells hgap htwo hmore hsame hended hrunPair
  obtain ⟨earlier, hearlier⟩ := hrunFront.clean
  obtain ⟨rest, hrest⟩ := hrunAfter.clean
  have hall : (({} : ScanState).runLines (Destinations.ofList destinations) 1
      (front ++ (([one] ++ (gap ++ [two])) ++ after))).2 =
        (earlier ++ (heads.map Event.table ++ [Event.record r] ++
          (later.map Event.table ++ [Event.record q] ++ rest))).map .ok := by
    rw [runLines_append, runLines_append, hearlier]
    simp only [hpair, hrest, ← List.map_append, List.append_assoc]
  have hsplit : tablesIn earlier + heads.length ≠ tablesIn earlier + heads.length + later.length ↔
      later ≠ [] := by
    rw [← List.length_pos_iff]
    omega
  refine ⟨tablesIn earlier + heads.length, r, tablesIn earlier + heads.length + later.length, q,
    placedFrom (tablesIn earlier + heads.length + later.length) rest, ?_, hsplit.trans hlater,
    fun hends hfeeds => ?_⟩
  · rw [placed_eq hlines hclean hall, placed_upTo hlines hclean hearlier, placedFrom_append,
      placedFrom_heads, placedFrom_heads, Nat.zero_add]
  · rw [hsplit.trans hlater, hends, hfeeds]
    cases gap with
    | nil => simp
    | cons l gap =>
        refine ⟨fun _ => List.cons_ne_nil l gap, fun _ => .inr ?_⟩
        rw [List.length_cons]
        omega

end Decode

section Samples

/-- The annotations and the names of a block, as lines that end in one way. -/
def sampleHead (e : Csv.LineEnd) : List Csv.Line :=
  ["#datatype,string,long,string", "#group,false,false,false", "#default,_result,,",
    ",result,table,_value"].map fun s => ⟨Text.utf8Bytes s, some e⟩

theorem endsInBlock_sampleHead (e : Csv.LineEnd) :
    EndsInBlock ["result", "table", "_value"] (sampleHead e) := by
  cases e with
  | feed =>
      exact @EndsInBlock.names _ ((sampleHead .feed).take 2) [] _ _ "#default" ["_result", "", ""]
        (by decide) (by decide) (by decide) nofun (by decide) (by decide)
  | returnFeed =>
      exact @EndsInBlock.names _ ((sampleHead .returnFeed).take 2) [] _ _ "#default"
        ["_result", "", ""] (by decide) (by decide) (by decide) nofun (by decide) (by decide)

/-- A row with a line feed in quotes, a line of white space, and a row that ends with the input. -/
theorem rows_split_iff_of_returnFeed :
    let one : Csv.Line := ⟨Text.utf8Bytes ",,0,\"x\ny\"", some .returnFeed⟩
    let gap : List Csv.Line := [⟨Text.utf8Bytes "  ", some .returnFeed⟩]
    let two : Csv.Line := ⟨Text.utf8Bytes ",,0,z", none⟩
    let front := sampleHead .returnFeed
    let ls := front ++ (([one] ++ (gap ++ [two])) ++ [])
    let input : Csv.Input := ⟨ls.flatMap Csv.Line.bytes, none, .complete⟩
    input.Holds ls ∧ (decodeTables [] input).failure = none ∧
      EndsInBlock ["result", "table", "_value"] front ∧
      ∃ i r j q rest,
        (decodeTables [] input).placed =
            (decodeTables [] (input.upTo front)).placed ++ (i, r) :: (j, q) :: rest ∧
          i ≠ j := by
  intro one gap two front ls input
  have hlines : input.Holds ls := ⟨⟨by decide +kernel, by decide⟩, by decide, rfl⟩
  have hclean : (decodeTables [] input).failure = none := by decide +kernel
  have hfront := endsInBlock_sampleHead .returnFeed
  obtain ⟨i, r, j, q, rest, hplaced, -, hsplit⟩ :=
    @rows_split_iff [] input front gap [] one two ["result", "table", "_value"] ["", "0", "x\ny"]
      ["", "0", "z"] hlines hclean hfront (by decide) (by decide) (by decide) (by decide)
      (by decide) (by decide)
  exact ⟨hlines, hclean, hfront, i, r, j, q, rest, hplaced,
    (hsplit (by decide) (by decide)).2 (by decide)⟩

/-- Two rows with one cell in the column `table`. Behind a line feed, a blank line in front of a row
that ends with the input is lost, and both rows are in the first table. Without a blank line, a row
that ends in a line feed is taken for the first one of the next table, if the row in front of it
ends in a carriage return. -/
theorem blank_lines_miscounted :
    (let ls := sampleHead .feed ++ [⟨Text.utf8Bytes ",,0,x", some .feed⟩] ++
        [⟨[], some .feed⟩] ++ [⟨Text.utf8Bytes ",,0,y", none⟩]
      let input : Csv.Input := ⟨ls.flatMap Csv.Line.bytes, none, .complete⟩
      input.Holds ls ∧ (decodeTables [] input).failure = none ∧
        (decodeTables [] input).placed.map (fun e => (e.1, e.2.value?)) =
          [(1, some (.string "x")), (1, some (.string "y"))]) ∧
    (let ls := sampleHead .feed ++ [⟨Text.utf8Bytes ",,0,x", some .returnFeed⟩] ++
        [⟨Text.utf8Bytes ",,0,y", some .feed⟩]
      let input : Csv.Input := ⟨ls.flatMap Csv.Line.bytes, none, .complete⟩
      input.Holds ls ∧ (decodeTables [] input).failure = none ∧
        (decodeTables [] input).placed.map (fun e => (e.1, e.2.value?)) =
          [(1, some (.string "x")), (2, some (.string "y"))]) := by
  refine ⟨⟨⟨⟨?_, by decide⟩, by decide, rfl⟩, ?_, ?_⟩, ⟨⟨?_, by decide⟩, by decide, rfl⟩, ?_, ?_⟩
  all_goals decide +kernel

end Samples

end TimeSeries
