import TimeSeries.Proofs.Table.Decoding
import TimeSeries.Proofs.Table.Faults

/-!
# The shape of decoded tables

A table does not tell the cells that its records were read from. `sourcedTables` are the decoded
tables with the row of every record, so that something can be said of both. Each of them is
`Shaped`: it has the number of its place, its records were read from rows of its width with the
columns of its head, and all rows have the same text in the column `table`.

The proof goes along the rows, from the last one to the first. `Gathered` says what may stand behind
a state: rows that go on with the current table, and tables that begin behind them. What one row
does to that is a question of its turn.
-/

namespace TimeSeries

/-- A table with the rows that its records stand in. -/
structure SourcedTable where
  head : TableHead
  rows : List (Csv.Row × Record)

def SourcedTable.table (t : SourcedTable) : Table := ⟨t.head, t.rows.map Prod.snd⟩

/-- The events of some rows up to the first fault, each with its row. -/
def ScanState.sourced (d : Destinations) (s : ScanState) :
    List (Except Csv.RowFault Csv.Row) → List (Csv.Row × Event)
  | [] => []
  | .error _ :: _ => []
  | .ok row :: rows =>
    let out := Scan.untilFault none (s.step d row).2
    out.1.map (row, ·) ++ if out.2 = none then (s.step d row).1.sourced d rows else []

/-- The records in front of the first table, and the tables with the records behind them, all of
them with their rows. -/
def gatherSourced : List (Csv.Row × Event) → List (Csv.Row × Record) × List SourcedTable
  | [] => ([], [])
  | (row, .record r) :: rest =>
    let g := gatherSourced rest
    ((row, r) :: g.1, g.2)
  | (_, .table h) :: rest =>
    let g := gatherSourced rest
    ([], ⟨h, g.1⟩ :: g.2)

/-- The tables of an input, each record with its row. -/
def sourcedTables (destinations : List String) (input : Csv.Input) : List SourcedTable :=
  (gatherSourced (({} : ScanState).sourced (Destinations.ofList destinations) input.rows)).2

theorem gather_map_snd (events : List (Csv.Row × Event)) :
    gather (events.map Prod.snd) =
      ((gatherSourced events).1.map Prod.snd,
        (gatherSourced events).2.map SourcedTable.table) := by
  induction events with
  | nil => rfl
  | cons e events ih =>
      obtain ⟨row, table | record⟩ := e <;> simp [gather, gatherSourced, ih, SourcedTable.table]

section Cells

variable {d : Destinations} {h : TableHead} {cells : List String} {r : Record}

theorem map_fst_readCells {columns : List Column} {read : List (Column × Value)}
    (hread : readCells columns cells = .ok read) (hlength : cells.length = columns.length) :
    read.map Prod.fst = columns := by
  induction columns generalizing cells read with
  | nil =>
      obtain rfl := Except.ok.inj hread
      rfl
  | cons c columns ih =>
      cases cells with
      | nil => cases hlength
      | cons cell cells =>
          obtain ⟨v, rest, hrest, rfl⟩ := of_readCells_cons_eq_ok hread
          exact congrArg (c :: ·) (ih hrest (Nat.succ.inj hlength))

/-- The keys of a record are the names of the columns of its table. -/
theorem mem_keys_of_readRecord (hrecord : readRecord d h cells = .ok r)
    (hlength : cells.length = h.columns.length) (name : String) :
    name ∈ r.columns.keys ↔ name ∈ h.columns.map Column.name := by
  obtain ⟨-, read, hread, hcolumns⟩ := of_readRecord_eq_ok hrecord
  rw [hcolumns, KeyMap.mem_keys_ofList, ← map_fst_readCells hread hlength]
  simp

/-- The record is that of the row in a table with this head. -/
structure TableHead.Reads (d : Destinations) (h : TableHead) (x : Csv.Row × Record) : Prop where
  first : x.1.cells.head? = some ""
  width : x.1.cells.tail.length = h.columns.length
  record : readRecord d h x.1.cells.tail = .ok x.2

/-- The records are those of rows with this cell in the column `table`. -/
def TableHead.ReadsAll (d : Destinations) (h : TableHead) (cell : Option String)
    (rows : List (Csv.Row × Record)) : Prop :=
  ∀ x ∈ rows, h.Reads d x ∧ h.tableCell? x.1.cells.tail = cell

end Cells

/-- The table has the number of its place and columns that are numbered from left to right, and its
records are those of rows with one cell in the column `table`. -/
structure SourcedTable.Shaped (d : Destinations) (t : SourcedTable) (position : Nat) : Prop where
  position : t.head.position = position
  ordered : Ordered t.head.columns
  rows : ∃ cell, t.head.ReadsAll d cell t.rows

theorem TableHead.tableCell?_eq {h : TableHead} (hordered : Ordered h.columns)
    {cells : List String} (hlength : cells.length = h.columns.length) :
    h.tableCell? cells = cells[(h.columns.map Column.name).idxOf "table"]? :=
  hordered.find?_bind hlength "table"

namespace ScanState

variable {d : Destinations} {s s' : ScanState} {row : Csv.Row} {r : Record}
  {out : List (Except TableError Event)} {h : TableHead} {rows : List (Csv.Row × Record)}
  {g : List (Csv.Row × Record) × List SourcedTable}

/-- The rows go on with the current table. -/
structure GoesOn (d : Destinations) (s : ScanState) (rows : List (Csv.Row × Record)) : Prop where
  mode : rows ≠ [] → s.mode = .data
  rows : ∀ h, s.block = some h → ∃ cell, s.changes cell = false ∧ h.ReadsAll d cell rows

theorem goesOn_nil (d : Destinations) (s : ScanState) : s.GoesOn d [] :=
  ⟨fun h => absurd rfl h, fun _ _ => ⟨none, s.changes_none, nofun⟩⟩

/-- Rows behind a data row have the same cell in the column `table` as long as they go on with its
table. -/
theorem GoesOn.readsAll_cons (hs : s.GoesOn d rows) (hblock : s.block = some h)
    (hordered : Ordered h.columns) (hreads : h.Reads d (row, r))
    (hcell : s.tableCell = h.tableCell? row.cells.tail) :
    h.ReadsAll d s.tableCell ((row, r) :: rows) := by
  obtain ⟨cell, hchanges, hrows⟩ := hs.rows h hblock
  refine List.forall_mem_cons.2 ⟨⟨hreads, hcell.symm⟩, fun x hx => ?_⟩
  obtain ⟨hx, hxcell⟩ := hrows x hx
  have hwidth : x.1.cells.tail.length = row.cells.tail.length := hx.width.trans hreads.width.symm
  have hsome : s.tableCell.isSome = cell.isSome := by
    rw [hcell, ← hxcell, TableHead.tableCell?_eq hordered hreads.width,
      TableHead.tableCell?_eq hordered hx.width, Bool.eq_iff_iff, Option.isSome_iff_ne_none,
      Option.isSome_iff_ne_none, ne_eq, ne_eq, List.getElem?_eq_none_iff,
      List.getElem?_eq_none_iff, hwidth]
  exact ⟨hx, hxcell.trans (eq_of_changes_eq_false hchanges hsome).symm⟩

/-- What is gathered behind a state: rows that go on with the current table, and the tables behind
them. -/
structure Gathered (d : Destinations) (s : ScanState)
    (g : List (Csv.Row × Record) × List SourcedTable) : Prop where
  goesOn : s.GoesOn d g.1
  shaped : ∀ (i : Nat) (t : SourcedTable), g.2[i]? = some t → t.Shaped d (s.position + i)

theorem gathered_nil (d : Destinations) (s : ScanState) : s.Gathered d ([], []) :=
  ⟨goesOn_nil d s, nofun⟩

/-- A row that brings nothing leaves the current table as it is, or leaves none behind. -/
theorem Gathered.of_quiet (hs' : s'.Gathered d g) (hposition : s'.position = s.position)
    (hsame : s'.mode = .data →
      s.mode = .data ∧ s'.block = s.block ∧ s'.tableCell = s.tableCell) : s.Gathered d g := by
  refine ⟨?_, hposition ▸ hs'.shaped⟩
  by_cases hnone : g.1 = []
  · rw [hnone]
    exact goesOn_nil d s
  · obtain ⟨hmode, hblock, hcell⟩ := hsame (hs'.goesOn.mode hnone)
    refine ⟨fun _ => hmode, fun h hh => ?_⟩
    obtain ⟨cell, hchanges, hrows⟩ := hs'.goesOn.rows h (hblock.trans hh)
    exact ⟨cell, changes_congr hcell cell ▸ hchanges, hrows⟩

/-- The table that starts with a head, in front of what is gathered behind it. -/
theorem Gathered.table_cons (hs' : s'.Gathered d g) (hposition : s'.position = s.position + 1)
    (hnumber : h.position = s.position) (hordered : Ordered h.columns) {cell : Option String}
    (hrows : h.ReadsAll d cell rows) : s.Gathered d ([], ⟨h, rows⟩ :: g.2) := by
  refine ⟨goesOn_nil d s, fun i t ht => ?_⟩
  cases i with
  | zero =>
      obtain rfl := Option.some.inj ht
      exact ⟨hnumber, hordered, cell, hrows⟩
  | succ i =>
      have hshaped := hs'.shaped i t ht
      rwa [hposition, Nat.add_right_comm, Nat.add_assoc] at hshaped

theorem Fits.reads {k : TableHead} {cells : List String} (fits : s.Fits row "" cells h)
    (hcolumns : k.columns = h.columns) (hrecord : readRecord d k cells = .ok r) :
    k.Reads d (row, r) := by
  refine ⟨?_, ?_, ?_⟩
  · rw [fits.eq_cons, List.head?_cons]
  · rw [fits.tail_eq, fits.width, hcolumns]
  · rw [fits.tail_eq]
    exact hrecord

section Turn

variable {events : List Event} {rest : List (Csv.Row × Event)}

/-- What a row puts in front of the events behind it. -/
theorem Turn.gathered (turn : Turn d s row s' out) (hs' : s'.Numbered)
    (hout : out = events.map .ok) (h : s'.Gathered d (gatherSourced rest)) :
    s.Gathered d (gatherSourced (events.map (row, ·) ++ rest)) := by
  have hquiet : out = [] → events = [] := fun hnone => List.map_eq_nil_iff.1 (hout.symm.trans hnone)
  cases turn with
  | blank hrow =>
      obtain rfl := hquiet rfl
      exact h.of_quiet rfl fun hmode => ⟨hmode, rfl, rfl⟩
  | single | homeless | width | untyped | failure | malformed | lost =>
      exact absurd ⟨events, hout⟩ (not_clean_error _)
  | @annotates first cells k fits hfirst =>
      obtain ⟨-, hposition, hnone | ⟨e, he⟩⟩ :=
        annotationRow_turn ((s.reach row false).opened first cells) k first cells
      · obtain rfl := hquiet hnone
        refine h.of_quiet (hposition.trans (position_opened _ _ _)) fun hmode => ?_
        have hself := annotationRow_of_data hmode
        rw [hself] at hmode ⊢
        exact ⟨hmode, rfl, rfl⟩
      · exact absurd ⟨events, he.symm.trans hout⟩ (not_clean_error e)
  | report fits hmode htyped hreport =>
      obtain rfl := hquiet rfl
      exact h.of_quiet rfl nofun
  | @names cells k fits hmode htyped hreport =>
      obtain rfl : [Event.table _] = events := eq_of_map_ok hout
      obtain ⟨cell, -, hrows⟩ := h.goesOn.rows _ rfl
      exact h.table_cons rfl rfl (hs' _ rfl) hrows
  | @record cells k r fits hmode hbegins hread hrecord =>
      obtain rfl : [Event.record r] = events := eq_of_map_ok hout
      have hblock : s.block = some k := fits.block_eq
      have hrows := h.goesOn.readsAll_cons hblock (hs' k hblock) (fits.reads rfl hrecord)
        (congrArg k.tableCell? fits.tail_eq.symm)
      refine ⟨⟨fun _ => hmode, fun k' hk' => ?_⟩, h.shaped⟩
      obtain rfl := Option.some.inj (hblock.symm.trans hk')
      exact ⟨_, (Bool.or_eq_false_iff.1 hbegins).1, hrows⟩
  | @table cells k r fits hmode hbegins hread hrecord =>
      obtain rfl : [Event.table _, Event.record r] = events := eq_of_map_ok hout
      have hrows := h.goesOn.readsAll_cons rfl (hs' _ rfl) (fits.reads rfl hrecord)
        (congrArg k.tableCell? fits.tail_eq.symm)
      exact h.table_cons rfl rfl (hs' _ rfl) hrows

theorem sourced_cons_of_ok (hout : (s.step d row).2 = events.map .ok)
    (rows : List (Except Csv.RowFault Csv.Row)) :
    s.sourced d (.ok row :: rows) =
      events.map (row, ·) ++ (s.step d row).1.sourced d rows := by
  rw [sourced, hout, Scan.untilFault_map_ok]
  rfl

theorem sourced_cons_of_error {e : TableError} (hout : (s.step d row).2 = [.error e])
    (rows : List (Except Csv.RowFault Csv.Row)) : s.sourced d (.ok row :: rows) = [] := by
  rw [sourced, hout]
  rfl

/-- The events with rows are those that are decoded. -/
theorem map_snd_sourced (s : ScanState) (rows : List (Except Csv.RowFault Csv.Row)) :
    (s.sourced d rows).map Prod.snd = (s.scan d rows).front.1 := by
  induction rows generalizing s with
  | nil => rfl
  | cons row rows ih =>
      cases row with
      | error fault => rfl
      | ok row =>
          obtain ⟨events, hout⟩ | ⟨e, hout⟩ := (turn_step d s row).events_or_error
          · rw [sourced_cons_of_ok hout, front_scan_cons_of_ok hout, List.map_append, ih]
            simp [Function.comp_def]
          · rw [sourced_cons_of_error hout, front_scan_cons_of_error hout, List.map_nil]

theorem gathered_sourced (hs : s.Numbered) (rows : List (Except Csv.RowFault Csv.Row)) :
    s.Gathered d (gatherSourced (s.sourced d rows)) := by
  induction rows generalizing s with
  | nil => exact gathered_nil d s
  | cons row rows ih =>
      cases row with
      | error fault => exact gathered_nil d s
      | ok row =>
          have turn := turn_step d s row
          obtain ⟨events, hout⟩ | ⟨e, hout⟩ := turn.events_or_error
          · have hs' := hs.step ⟨events, hout⟩
            rw [sourced_cons_of_ok hout]
            exact turn.gathered hs' hout (ih hs')
          · rw [sourced_cons_of_error hout]
            exact gathered_nil d s

/-- No fault tells that a record stands in front of all tables. -/
theorem front_scan_ne_noTable (s : ScanState) (rows : List (Except Csv.RowFault Csv.Row)) :
    (s.scan d rows).front.2 ≠ some .noTable := by
  induction rows generalizing s with
  | nil =>
      by_cases hs : s.mode = .failed
      · rw [front_scan_nil_of_failed hs]
        nofun
      · rw [front_scan_nil hs]
        nofun
  | cons row rows ih =>
      cases row with
      | error fault => nofun
      | ok row =>
          have turn := turn_step d s row
          obtain ⟨events, hout⟩ | ⟨e, hout⟩ := turn.events_or_error
          · rw [front_scan_cons_of_ok hout]
            exact ih _
          · rw [front_scan_cons_of_error hout]
            have hmem : .error e ∈ (s.step d row).2 := by simp [hout]
            simpa using (turn.of_error_mem hmem).1

end Turn

end ScanState

open ScanState

/-- Any response and any destinations, with or without a fault. The decoded tables are gathered with
the row of every record. The number of a table is that of its place, and all of its records bear it.
A record is read from the cells of its row, which is as wide as the table, and its keys are the
names of the columns. All rows of a table have the same text below the first column that is named
`table`. It never is a fault that a record stands in front of all tables. -/
theorem decoded_tables_shaped (destinations : List String) (input : Csv.Input) :
    let decoded := decodeTables destinations input
    let tables := sourcedTables destinations input
    decoded.tables = tables.map SourcedTable.table ∧ decoded.failure ≠ some .noTable ∧
      ∀ (i : Nat) (t : SourcedTable), tables[i]? = some t →
        let names := t.head.columns.map Column.name
        t.head.position = i ∧
          (∀ x ∈ t.rows, t.head.Reads (Destinations.ofList destinations) x ∧ x.2.table = i ∧
            ∀ name, name ∈ x.2.columns.keys ↔ name ∈ names) ∧
          ∀ x ∈ t.rows, ∀ y ∈ t.rows,
            x.1.cells.tail[names.idxOf "table"]? = y.1.cells.tail[names.idxOf "table"]? := by
  intro decoded tables
  have hdecoded : decoded = ⟨tables.map SourcedTable.table,
      (({} : ScanState).scan (Destinations.ofList destinations) input.rows).front.2⟩ := by
    have hrows := decodeRows_eq destinations input.rows
    simp only [← map_snd_sourced, gather_map_snd] at hrows
    exact hrows
  have hgathered := gathered_sourced (d := Destinations.ofList destinations) numbered_start
    input.rows
  rw [hdecoded]
  refine ⟨rfl, front_scan_ne_noTable {} input.rows, fun i t ht => ?_⟩
  have hshaped := hgathered.shaped i t ht
  obtain ⟨cell, hrows⟩ := hshaped.rows
  have hposition : t.head.position = i := hshaped.position.trans (Nat.zero_add i)
  refine ⟨hposition, fun x hx => ?_, fun x hx y hy => ?_⟩
  · obtain ⟨hreads, -⟩ := hrows x hx
    exact ⟨hreads, (table_of_readRecord hreads.record).trans hposition,
      mem_keys_of_readRecord hreads.record hreads.width⟩
  · obtain ⟨hx, hxcell⟩ := hrows x hx
    obtain ⟨hy, hycell⟩ := hrows y hy
    rw [← TableHead.tableCell?_eq hshaped.ordered hx.width,
      ← TableHead.tableCell?_eq hshaped.ordered hy.width, hxcell, hycell]

-- the second table ends in front of a row that cannot be read
example :
    let input : Csv.Input :=
      { bytes := Text.utf8Bytes <|
          "#datatype,long,long\n,table,_value\n,0,1\n,0,2\n,1,3\n,1,x\n" }
    (sourcedTables [] input).map (fun t => t.rows.map fun x => x.1.cells) =
      [[["", "0", "1"], ["", "0", "2"]], [["", "1", "3"]]] := by
  decide +kernel

end TimeSeries
