import TimeSeries.Table.Cell

/-!
# From rows to tables and records

An annotated response consists of blocks. A block begins with annotation rows, whose first cell
names the annotation, and goes on with a row of column names and data rows, whose first cell is
empty. Every block starts a table. Inside a block a new table starts whenever the cell of the
column `table` changes and wherever a blank line separates data rows. Blank lines are no rows, so
they show in the line numbers only: a row that reached a line further than its own line feeds
explain had blank lines in front.

A block whose first column is named `error` is the report of a failed query: its first data row
holds the message and a reference, and there is no way on behind it.

`ScanState.step` says what one row does. The results of all rows, one after the other, and what is
said at the end are a `Scan`.
-/

namespace TimeSeries

/-- The columns that are routed to the values of a record. -/
structure Destinations where
  /-- The one that is the value of the record. -/
  primary : String := "_value"
  /-- All others. -/
  others : List String := []
deriving DecidableEq, Repr

namespace Destinations

/-- The destinations of a list of names; without any name it is `_value` alone. -/
def ofList : List String → Destinations
  | [] => {}
  | name :: more => ⟨name, more⟩

def contains (d : Destinations) (name : String) : Bool :=
  name == d.primary || d.others.contains name

end Destinations

/-- What a response brings. -/
inductive Event where
  | table (h : TableHead)
  /-- A record of the table that started last. -/
  | record (r : Record)
deriving DecidableEq

/-- What the rows of a block are at the moment. -/
inductive Mode where
  /-- Data rows; a row of annotations starts a new block. -/
  | data
  /-- Annotations, up to the row of names. -/
  | annotations
  | failed
deriving DecidableEq, Repr

/-- What is known when a row is read. -/
structure ScanState where
  /-- The place of the next table. It grows without a bound, which is exact for fewer than `2 ^ 31`
  tables. -/
  position : Nat := 0
  block : Option TableHead := none
  /-- The cell of the column `table` in the last data row. -/
  tableCell : Option String := none
  /-- A blank line was seen since the last data row. -/
  boundary : Bool := false
  line : Nat := 1
  mode : Mode := .data
  typed : Bool := false
deriving DecidableEq, Repr

/-- A value for each column, from left to right; the first column that has none is the fault. -/
def readCells : List Column → List String → Except TableError (List (Column × Value))
  | c :: columns, cell :: cells =>
    match c.read cell with
    | .ok v => (readCells columns cells).map ((c, v) :: ·)
    | .error e => .error e
  | _, _ => .ok []

def readRecord (d : Destinations) (h : TableHead) (cells : List String) :
    Except TableError Record := do
  let columns ← readCells h.columns cells
  let named (l : List (Column × Value)) : KeyMap Value :=
    KeyMap.ofList (l.map fun e => (e.1.name, e.2))
  .ok
    { table := h.position
      columns := named columns
      tags := named (columns.filter fun e => !d.contains e.1.name && e.1.group)
      values := named (columns.filter fun e => d.contains e.1.name)
      valueColumn := d.primary }

/-- Types for columns, from left to right, up to the first cell that names none. -/
def setTypes : List Column → List String → List Column × Option TableError
  | c :: columns, cell :: cells =>
    match DataType.ofName? cell with
    | some t =>
      let r := setTypes columns cells
      ({ c with dataType := t } :: r.1, r.2)
    | none => (c :: columns, some (.unknownDataType cell))
  | columns, _ => (columns, none)

/-- A part of every column set from the cell below it. -/
def setEach (f : Column → String → Column) : List Column → List String → List Column
  | c :: columns, cell :: cells => f c cell :: setEach f columns cells
  | columns, _ => columns

namespace ScanState

/-- What is reported when the query failed without a message. -/
def unknownFailure : TableError := .query "Unknown query error" none

/-- The block with a new table, and its head. -/
def startTable (s : ScanState) (h : TableHead) : ScanState × TableHead :=
  let head := { h with position := s.position }
  ({ s with position := s.position + 1, block := some head }, head)

def nameRow (d : Destinations) (s : ScanState) (h : TableHead) (cells : List String) :
    ScanState × List (Except TableError Event) :=
  if s.typed = false then (s, [.error .noDataTypes])
  else if cells.head? = some "error" then ({ s with mode := .failed }, [])
  else
    let name (c : Column) (cell : String) : Column :=
      { c with name := cell, tag := c.group && !d.contains cell }
    let s := { s with mode := .data, tableCell := none, boundary := false }
    let (s, head) := s.startTable { h with columns := setEach name h.columns cells }
    (s, [.ok (.table head)])

def failureRow (s : ScanState) (cells : List String) : ScanState × List (Except TableError Event) :=
  let filled (i : Nat) : Option String := (cells[i]?).bind fun c => if c = "" then none else some c
  (s, [.error (.query ((filled 0).getD "Unknown query error") (filled 1))])

def dataRow (d : Destinations) (s : ScanState) (h : TableHead) (cells : List String) :
    ScanState × List (Except TableError Event) :=
  let cell := (h.column? "table").bind fun c => cells[c.index]?
  let changed :=
    match s.tableCell, cell with
    | some before, some now => before != now
    | _, _ => false
  let starts := changed || s.boundary
  let s := { s with tableCell := cell, boundary := false }
  if starts then
    let (s, head) := s.startTable h
    match readRecord d head cells with
    | .ok r => (s, [.ok (.table head), .ok (.record r)])
    | .error e => (s, [.error e])
  else
    match readRecord d h cells with
    | .ok r => (s, [.ok (.record r)])
    | .error e => (s, [.error e])

/-- A row of annotations, named by its first cell. -/
def annotationRow (s : ScanState) (h : TableHead) (first : String) (cells : List String) :
    ScanState × List (Except TableError Event) :=
  if first = "#datatype" then
    let (columns, fault) := setTypes h.columns cells
    ({ s with typed := true, block := some { h with columns := columns } },
      fault.toList.map Except.error)
  else if first = "#group" then
    let set (c : Column) (cell : String) : Column := { c with group := cell == "true" }
    ({ s with block := some { h with columns := setEach set h.columns cells } }, [])
  else if first = "#default" then
    let set (c : Column) (cell : String) : Column := { c with default := cell }
    ({ s with block := some { h with columns := setEach set h.columns cells } }, [])
  else (s, [.error (.firstCell first)])

/-- A row that is wide enough to belong to a block. -/
def blockRow (d : Destinations) (s : ScanState) (first : String) (cells : List String) :
    ScanState × List (Except TableError Event) :=
  let s :=
    if first.toList.head? = some '#' ∧ s.mode = .data then
      { s with
        block := some (TableHead.blank s.position cells.length), mode := .annotations,
        typed := false }
    else s
  match s.block with
  | none => (s, [.error .noAnnotations])
  | some h =>
    if cells.length ≠ h.columns.length then
      (s, [.error (.width h.columns.length cells.length)])
    else if first = "" then
      match s.mode with
      | .annotations => s.nameRow d h cells
      | .failed => s.failureRow cells
      | .data => s.dataRow d h cells
    else s.annotationRow h first cells

/-- The line feeds inside the cells of a row. -/
def lineFeeds (cells : List String) : Nat :=
  (cells.map fun c => c.toList.count '\n').foldl (· + ·) 0

/-- The state with the line that a row reached; blank lines among data rows are remembered. -/
def reach (s : ScanState) (row : Csv.Row) (blank : Bool) : ScanState :=
  let skipped := decide (lineFeeds row.cells + 1 < row.line - s.line)
  { s with
    line := row.line
    boundary := s.boundary || ((skipped || blank) && decide (s.mode = .data)) }

def step (d : Destinations) (s : ScanState) (row : Csv.Row) :
    ScanState × List (Except TableError Event) :=
  match row.cells with
  | [] => (s.reach row true, [])
  | [cell] =>
    if cell = "" then (s.reach row true, [])
    else (s.reach row false, [.error (.singleCell cell)])
  | first :: cells => (s.reach row false).blockRow d first cells

/-- What the next row does, which may be one that cannot be read. -/
def next (d : Destinations) (s : ScanState) :
    Except Csv.RowFault Csv.Row → ScanState × List (Except TableError Event)
  | .ok row => s.step d row
  | .error fault => (s, [.error (.csv fault)])

/-- The state behind some rows and what they bring. -/
def run (d : Destinations) (s : ScanState) :
    List (Except Csv.RowFault Csv.Row) → ScanState × List (Except TableError Event)
  | [] => (s, [])
  | row :: rows =>
    let (s, out) := s.next d row
    let (s, more) := s.run d rows
    (s, out ++ more)

end ScanState

/-- A response that is being read. -/
structure Scan where
  results : List (Except TableError Event)
  /-- The fault that is reported at the end, if the query failed. -/
  ending : Option TableError

namespace Scan

def ofInput (d : Destinations) (input : Csv.Input) : Scan :=
  let (s, results) := ({} : ScanState).run d input.rows
  ⟨results, if s.mode = .failed then some ScanState.unknownFailure else none⟩

/-- The next event; there is none at the end. -/
def nextEvent (s : Scan) : Except TableError (Option Event) × Scan :=
  match s.results with
  | .ok e :: rest => (.ok (some e), { s with results := rest })
  | .error e :: rest => (.error e, { s with results := rest })
  | [] =>
    match s.ending with
    | some e => (.error e, s)
    | none => (.ok none, s)

/-- The next record among results; tables are passed over. -/
def nextRecordIn (ending : Option TableError) :
    List (Except TableError Event) → Except TableError (Option Record) × Scan
  | .ok (.table _) :: rest => nextRecordIn ending rest
  | .ok (.record r) :: rest => (.ok (some r), ⟨rest, ending⟩)
  | .error e :: rest => (.error e, ⟨rest, ending⟩)
  | [] =>
    match ending with
    | some e => (.error e, ⟨[], ending⟩)
    | none => (.ok none, ⟨[], ending⟩)

/-- The next record; there is none at the end. -/
def nextRecord (s : Scan) : Except TableError (Option Record) × Scan :=
  nextRecordIn s.ending s.results

end Scan

end TimeSeries
