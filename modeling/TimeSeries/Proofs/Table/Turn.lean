import TimeSeries.Proofs.Table.Faultless

/-!
# What a row does

A reader that goes on behind a fault meets rows in states which no response without a fault leads
to. `Turn` names everything that a row can do in any state, one constructor for each way through
`ScanState.step`, with what the state has to be and what is left behind. A row that fits its block
goes by the mode; all others are blank or a fault.

A data row is told apart by two questions: whether it begins a table, and whether all of its cells
can be read. A row that begins a table and cannot be read is a `lost` one: the number of the table
is used up, but nobody is told of it.
-/

namespace TimeSeries

/-- The cell of a row that tells tables apart. -/
def TableHead.tableCell? (h : TableHead) (cells : List String) : Option String :=
  (h.column? "table").bind fun c => cells[c.index]?

/-- The head with the names of its columns. -/
def TableHead.named (h : TableHead) (d : Destinations) (cells : List String) : TableHead :=
  { h with
    columns := setEach
      (fun c cell => { c with name := cell, tag := c.group && !d.contains cell }) h.columns cells }

/-- The fault that the row of a report holds: a message and a reference. -/
def reported (cells : List String) : TableError :=
  let filled (i : Nat) : Option String := (cells[i]?).bind fun c => if c = "" then none else some c
  .query ((filled 0).getD "Unknown query error") (filled 1)

theorem exists_record_of_cells (d : Destinations) {h : TableHead} {cells : List String}
    (hread : (readCells h.columns cells).isOk = true) (position : Nat) :
    ∃ r, readRecord d { h with position := position } cells = .ok r := by
  cases hcells : readCells h.columns cells with
  | ok columns =>
      simp only [readRecord, hcells]
      exact ⟨_, rfl⟩
  | error e =>
      rw [hcells] at hread
      cases hread

theorem exists_fault_of_cells (d : Destinations) {h : TableHead} {cells : List String}
    (hread : (readCells h.columns cells).isOk = false) (position : Nat) :
    ∃ e, readRecord d { h with position := position } cells = .error e := by
  cases hcells : readCells h.columns cells with
  | ok columns =>
      rw [hcells] at hread
      cases hread
  | error e =>
      simp only [readRecord, hcells]
      exact ⟨e, rfl⟩

theorem of_readCells_cons_eq_ok {c : Column} {cell : String} {columns : List Column}
    {cells : List String} {read : List (Column × Value)}
    (hread : readCells (c :: columns) (cell :: cells) = .ok read) :
    ∃ v rest, readCells columns cells = .ok rest ∧ read = (c, v) :: rest := by
  rw [readCells] at hread
  split at hread
  · next v _ =>
      cases hrest : readCells columns cells with
      | ok rest =>
          rw [hrest] at hread
          exact ⟨v, rest, rfl, (Except.ok.inj hread).symm⟩
      | error e =>
          rw [hrest] at hread
          cases hread
  · cases hread

theorem of_readCells_cons_eq_error {c : Column} {cell : String} {columns : List Column}
    {cells : List String} {e : TableError}
    (hread : readCells (c :: columns) (cell :: cells) = .error e) :
    c.read cell = .error e ∨ readCells columns cells = .error e := by
  rw [readCells] at hread
  split at hread
  · right
    cases hrest : readCells columns cells with
    | ok rest =>
        rw [hrest] at hread
        cases hread
    | error fault =>
        rw [hrest] at hread
        exact congrArg _ (Except.error.inj hread)
  · next fault hcell => exact .inl (hcell.trans (congrArg _ (Except.error.inj hread)))

theorem of_readRecord_eq_ok {d : Destinations} {h : TableHead} {cells : List String} {r : Record}
    (hrecord : readRecord d h cells = .ok r) :
    r.table = h.position ∧ ∃ read, readCells h.columns cells = .ok read ∧
      r.columns = KeyMap.ofList (read.map fun e => (e.1.name, e.2)) := by
  cases hcells : readCells h.columns cells with
  | ok read =>
      simp only [readRecord, hcells] at hrecord
      obtain rfl := Except.ok.inj hrecord
      exact ⟨rfl, read, rfl, rfl⟩
  | error e =>
      simp only [readRecord, hcells] at hrecord
      cases hrecord

theorem of_readRecord_eq_error {d : Destinations} {h : TableHead} {cells : List String}
    {e : TableError} (hrecord : readRecord d h cells = .error e) :
    readCells h.columns cells = .error e := by
  cases hcells : readCells h.columns cells with
  | ok read =>
      simp only [readRecord, hcells] at hrecord
      cases hrecord
  | error fault =>
      simp only [readRecord, hcells] at hrecord
      exact congrArg _ (Except.error.inj hrecord)

/-- A record bears the number of its table. -/
theorem table_of_readRecord {d : Destinations} {h : TableHead} {cells : List String} {r : Record}
    (hrecord : readRecord d h cells = .ok r) : r.table = h.position :=
  (of_readRecord_eq_ok hrecord).1

namespace ScanState

variable {d : Destinations} {s s' : ScanState} {row : Csv.Row} {first : String}
  {cells : List String} {h : TableHead} {out : List (Except TableError Event)}

@[simp] theorem mode_reach (s : ScanState) (row : Csv.Row) (blank : Bool) :
    (s.reach row blank).mode = s.mode := rfl

@[simp] theorem position_reach (s : ScanState) (row : Csv.Row) (blank : Bool) :
    (s.reach row blank).position = s.position := rfl

@[simp] theorem typed_reach (s : ScanState) (row : Csv.Row) (blank : Bool) :
    (s.reach row blank).typed = s.typed := rfl

/-- The row is as wide as the block it belongs to, which it may have opened itself. -/
structure Fits (s : ScanState) (row : Csv.Row) (first : String) (cells : List String)
    (h : TableHead) : Prop where
  eq_cons : row.cells = first :: cells
  ne_nil : cells ≠ []
  block : ((s.reach row false).opened first cells).block = some h
  width : cells.length = h.columns.length

theorem Fits.tail_eq (fits : s.Fits row first cells h) : row.cells.tail = cells := by
  rw [fits.eq_cons, List.tail_cons]

theorem Fits.block_eq (fits : s.Fits row "" cells h) : s.block = some h := by
  have hblock := fits.block
  rwa [opened_empty] at hblock

theorem not_fits_of_blank (hrow : row.cells = [] ∨ row.cells = [""]) :
    ¬s.Fits row first cells h := by
  intro fits
  have hcells := fits.eq_cons
  have hne := fits.ne_nil
  rcases hrow with hrow | hrow <;> simp_all

theorem not_fits_of_single {cell : String} (hrow : row.cells = [cell]) :
    ¬s.Fits row first cells h :=
  fun fits => fits.ne_nil (List.tail_eq_of_cons_eq (fits.eq_cons.symm.trans hrow))

theorem not_fits_of_homeless (hblock : s.block = none) : ¬s.Fits row "" cells h := by
  intro fits
  rw [fits.block_eq] at hblock
  cases hblock

theorem not_fits_of_width {name : String} {found : List String} {k : TableHead}
    (hrow : row.cells = name :: found) (hblock : s.block = some k)
    (hwidth : found.length ≠ k.columns.length) : ¬s.Fits row "" cells h := by
  intro fits
  obtain rfl := Option.some.inj (fits.block_eq.symm.trans hblock)
  obtain ⟨-, rfl⟩ := List.cons.inj (fits.eq_cons.symm.trans hrow)
  exact hwidth fits.width

theorem Fits.not_fits_empty (fits : s.Fits row first cells h) (hfirst : first ≠ "")
    {others : List String} {k : TableHead} : ¬s.Fits row "" others k :=
  fun hfits => hfirst (List.head_eq_of_cons_eq (fits.eq_cons.symm.trans hfits.eq_cons))

/-- A data row with these cells begins a table. -/
def begins (s : ScanState) (h : TableHead) (cells : List String) : Bool :=
  s.changes (h.tableCell? cells) || s.boundary

/-- The state that has seen the cells of a data row. -/
def seen (s : ScanState) (h : TableHead) (cells : List String) : ScanState :=
  { s with tableCell := h.tableCell? cells, boundary := false }

theorem dataRow_eq (d : Destinations) (s : ScanState) (h : TableHead) (cells : List String) :
    s.dataRow d h cells =
      if s.begins h cells then
        ((s.seen h cells).startTable h).1.brings [{ h with position := s.position }]
          (readRecord d { h with position := s.position } cells)
      else (s.seen h cells).brings [] (readRecord d h cells) :=
  dataRow_eq_brings d s rfl

/-- What a row does to the state, and what it brings. -/
inductive Turn (d : Destinations) (s : ScanState) (row : Csv.Row) :
    ScanState → List (Except TableError Event) → Prop
  | blank (hrow : row.cells = [] ∨ row.cells = [""]) : Turn d s row (s.reach row true) []
  | single {cell : String} (hrow : row.cells = [cell]) (hcell : cell ≠ "") :
      Turn d s row (s.reach row false) [.error (.singleCell cell)]
  | homeless {first : String} {cells : List String} (hrow : row.cells = first :: cells)
      (hcells : cells ≠ []) (hblock : s.block = none) :
      Turn d s row (s.reach row false) [.error .noAnnotations]
  | width {first : String} {cells : List String} {h : TableHead} (hrow : row.cells = first :: cells)
      (hcells : cells ≠ []) (hblock : s.block = some h)
      (hwidth : cells.length ≠ h.columns.length) :
      Turn d s row (s.reach row false) [.error (.width h.columns.length cells.length)]
  | annotates {first : String} {cells : List String} {h : TableHead}
      (fits : s.Fits row first cells h) (hfirst : first ≠ "") :
      Turn d s row (((s.reach row false).opened first cells).annotationRow h first cells).1
        (((s.reach row false).opened first cells).annotationRow h first cells).2
  | untyped {cells : List String} {h : TableHead} (fits : s.Fits row "" cells h)
      (hmode : s.mode = .annotations) (htyped : s.typed = false) :
      Turn d s row (s.reach row false) [.error .noDataTypes]
  /-- The row of names of a block that is the report of a failed query. -/
  | report {cells : List String} {h : TableHead} (fits : s.Fits row "" cells h)
      (hmode : s.mode = .annotations) (htyped : s.typed = true)
      (hreport : cells.head? = some "error") :
      Turn d s row { s.reach row false with mode := .failed } []
  | names {cells : List String} {h : TableHead} (fits : s.Fits row "" cells h)
      (hmode : s.mode = .annotations) (htyped : s.typed = true)
      (hreport : cells.head? ≠ some "error") :
      Turn d s row
        ({ s.reach row false with mode := .data, tableCell := none, boundary := false }.startTable
          (h.named d cells)).1
        [.ok (.table { h.named d cells with position := s.position })]
  /-- A row behind the names of a report. -/
  | failure {cells : List String} {h : TableHead} (fits : s.Fits row "" cells h)
      (hmode : s.mode = .failed) :
      Turn d s row (s.reach row false) [.error (reported cells)]
  | record {cells : List String} {h : TableHead} {r : Record} (fits : s.Fits row "" cells h)
      (hmode : s.mode = .data) (hbegins : (s.reach row false).begins h cells = false)
      (hread : (readCells h.columns cells).isOk = true)
      (hrecord : readRecord d h cells = .ok r) :
      Turn d s row ((s.reach row false).seen h cells) [.ok (.record r)]
  | table {cells : List String} {h : TableHead} {r : Record} (fits : s.Fits row "" cells h)
      (hmode : s.mode = .data) (hbegins : (s.reach row false).begins h cells = true)
      (hread : (readCells h.columns cells).isOk = true)
      (hrecord : readRecord d { h with position := s.position } cells = .ok r) :
      Turn d s row (((s.reach row false).seen h cells).startTable h).1
        [.ok (.table { h with position := s.position }), .ok (.record r)]
  | malformed {cells : List String} {h : TableHead} {e : TableError} (fits : s.Fits row "" cells h)
      (hmode : s.mode = .data) (hbegins : (s.reach row false).begins h cells = false)
      (hread : (readCells h.columns cells).isOk = false)
      (hrecord : readRecord d h cells = .error e) :
      Turn d s row ((s.reach row false).seen h cells) [.error e]
  | lost {cells : List String} {h : TableHead} {e : TableError} (fits : s.Fits row "" cells h)
      (hmode : s.mode = .data) (hbegins : (s.reach row false).begins h cells = true)
      (hread : (readCells h.columns cells).isOk = false)
      (hrecord : readRecord d { h with position := s.position } cells = .error e) :
      Turn d s row (((s.reach row false).seen h cells).startTable h).1 [.error e]

theorem Fits.turn_dataRow (fits : s.Fits row "" cells h) (hmode : s.mode = .data) :
    Turn d s row ((s.reach row false).dataRow d h cells).1
      ((s.reach row false).dataRow d h cells).2 := by
  have hsame : ({ h with position := h.position } : TableHead) = h := rfl
  rw [dataRow_eq]
  cases hbegins : (s.reach row false).begins h cells <;>
    cases hread : (readCells h.columns cells).isOk
  · obtain ⟨e, hrecord⟩ := exists_fault_of_cells d hread h.position
    rw [if_neg Bool.false_ne_true, hrecord]
    exact .malformed fits hmode hbegins hread hrecord
  · obtain ⟨r, hrecord⟩ := exists_record_of_cells d hread h.position
    rw [if_neg Bool.false_ne_true, hrecord]
    exact .record fits hmode hbegins hread hrecord
  · obtain ⟨e, hrecord⟩ := exists_fault_of_cells d hread s.position
    rw [if_pos rfl, position_reach, hrecord]
    exact .lost fits hmode hbegins hread hrecord
  · obtain ⟨r, hrecord⟩ := exists_record_of_cells d hread s.position
    rw [if_pos rfl, position_reach, hrecord]
    exact .table fits hmode hbegins hread hrecord

theorem Fits.turn_nameRow (fits : s.Fits row "" cells h) (hmode : s.mode = .annotations) :
    Turn d s row ((s.reach row false).nameRow d h cells).1
      ((s.reach row false).nameRow d h cells).2 := by
  rw [nameRow, typed_reach]
  by_cases htyped : s.typed = false
  · rw [if_pos htyped]
    exact .untyped fits hmode htyped
  · rw [if_neg htyped]
    by_cases hreport : cells.head? = some "error"
    · rw [if_pos hreport]
      exact .report fits hmode (Bool.of_not_eq_false htyped) hreport
    · rw [if_neg hreport]
      exact .names fits hmode (Bool.of_not_eq_false htyped) hreport

/-- A row that does not fit any block has opened none. -/
theorem opened_eq_self (hblock : ∀ h, (s.opened first cells).block = some h →
    cells.length ≠ h.columns.length) : s.opened first cells = s := by
  by_cases hopens : first.toList.head? = some '#' ∧ s.mode = .data
  · have hopened : (s.opened first cells).block =
        some (TableHead.blank s.position cells.length) := by
      rw [opened, if_pos hopens]
    exact absurd (by simp [TableHead.blank]) (hblock _ hopened)
  · exact if_neg hopens

theorem turn_blockRow (d : Destinations) (hrow : row.cells = first :: cells) (hcells : cells ≠ []) :
    Turn d s row ((s.reach row false).blockRow d first cells).1
      ((s.reach row false).blockRow d first cells).2 := by
  rw [blockRow, ← opened]
  cases hblock : ((s.reach row false).opened first cells).block with
  | none =>
      have hself : (s.reach row false).opened first cells = s.reach row false :=
        opened_eq_self fun h hh => by rw [hblock] at hh; cases hh
      rw [hself] at hblock ⊢
      exact .homeless hrow hcells hblock
  | some h =>
      by_cases hwidth : cells.length = h.columns.length
      · have fits : s.Fits row first cells h := ⟨hrow, hcells, hblock, hwidth⟩
        simp only [hwidth, ne_eq, not_true_eq_false, if_false]
        by_cases hfirst : first = ""
        · subst hfirst
          rw [if_pos rfl, opened_empty, mode_reach]
          cases hmode : s.mode with
          | annotations => exact fits.turn_nameRow hmode
          | failed => exact .failure fits hmode
          | data => exact fits.turn_dataRow hmode
        · rw [if_neg hfirst]
          exact .annotates fits hfirst
      · have hself : (s.reach row false).opened first cells = s.reach row false :=
          opened_eq_self fun k hk => by
            obtain rfl := Option.some.inj (hblock.symm.trans hk)
            exact hwidth
        rw [hself] at hblock ⊢
        simp only [hwidth, ne_eq, not_false_eq_true, if_true]
        exact .width hrow hcells hblock hwidth

/-- Every row makes one of the turns, whatever the state is. -/
theorem turn_step (d : Destinations) (s : ScanState) (row : Csv.Row) :
    Turn d s row (s.step d row).1 (s.step d row).2 := by
  obtain ⟨cells, line⟩ := row
  cases cells with
  | nil => exact .blank (.inl rfl)
  | cons first cells =>
      by_cases hcells : cells = []
      · subst hcells
        by_cases hfirst : first = ""
        · subst hfirst
          exact .blank (.inr rfl)
        · have hstep : s.step d ⟨[first], line⟩ =
              (s.reach ⟨[first], line⟩ false, [.error (.singleCell first)]) := if_neg hfirst
          rw [hstep]
          exact .single rfl hfirst
      · rw [step_cons hcells]
        exact turn_blockRow d rfl hcells

/-- A row of annotations brings at most a fault. It leaves the mode and the number of tables as they
are in the block that it may have opened. -/
theorem annotationRow_turn (s : ScanState) (h : TableHead) (first : String) (cells : List String) :
    (s.annotationRow h first cells).1.mode = s.mode ∧
      (s.annotationRow h first cells).1.position = s.position ∧
        ((s.annotationRow h first cells).2 = [] ∨
          ∃ e, (s.annotationRow h first cells).2 = [.error e]) := by
  rw [annotationRow]
  split
  · obtain ⟨columns, fault⟩ := setTypes h.columns cells
    refine ⟨rfl, rfl, ?_⟩
    cases fault with
    | none => exact .inl rfl
    | some e => exact .inr ⟨e, rfl⟩
  · split
    · exact ⟨rfl, rfl, .inl rfl⟩
    · split
      · exact ⟨rfl, rfl, .inl rfl⟩
      · exact ⟨rfl, rfl, .inr ⟨_, rfl⟩⟩

@[simp] theorem position_opened (s : ScanState) (first : String) (cells : List String) :
    (s.opened first cells).position = s.position := by
  rw [opened]
  split <;> rfl

/-- A row of annotations behind which data rows may follow has changed nothing. -/
theorem annotationRow_of_data
    (hmode : ((s.opened first cells).annotationRow h first cells).1.mode = .data) :
    ((s.opened first cells).annotationRow h first cells).1 = s := by
  rw [(annotationRow_turn _ h first cells).1] at hmode
  by_cases hopens : first.toList.head? = some '#' ∧ s.mode = .data
  · rw [opened, if_pos hopens] at hmode
    cases hmode
  · rw [opened, if_neg hopens] at hmode ⊢
    have hfirst : ∀ name : String, name.toList.head? = some '#' → first ≠ name := by
      rintro name hname rfl
      exact hopens ⟨hname, hmode⟩
    rw [annotationRow, if_neg (hfirst _ rfl), if_neg (hfirst _ rfl), if_neg (hfirst _ rfl)]

/-- A row brings at most a table and a record. -/
theorem Turn.length_le (turn : Turn d s row s' out) : out.length ≤ 2 := by
  cases turn with
  | annotates fits hfirst =>
      rcases (annotationRow_turn _ _ _ _).2.2 with hout | ⟨e, hout⟩ <;> rw [hout]
      · exact Nat.zero_le 2
      · exact Nat.le_succ 1
  | _ => simp

/-- A row brings events or is a fault. -/
theorem Turn.events_or_error (turn : Turn d s row s' out) :
    (∃ events : List Event, out = events.map .ok) ∨ ∃ e, out = [.error e] := by
  cases turn with
  | annotates fits hfirst => exact (annotationRow_turn _ _ _ _).2.2.imp_left fun h => ⟨[], h⟩
  | blank | report => exact .inl ⟨[], rfl⟩
  | names | record => exact .inl ⟨[_], rfl⟩
  | table => exact .inl ⟨[_, _], rfl⟩
  | single | homeless | width | untyped | failure | malformed | lost => exact .inr ⟨_, rfl⟩

end ScanState
end TimeSeries
