import TimeSeries.Proofs.Table.Filled

/-!
# Rows that are filled in without effect

Tables are told apart by the cells of a column and by blank lines, which are found by counting
lines. If neither of them is touched where empty cells are filled in, a reader does on every row
what it did before. `Calm` says so of one row, and `decodeRows_of_calm` of all.

The lines that the readers have reached may differ: nothing that a row does depends on its number,
which is what the lemmas about `atLine` say, and blank lines show in differences of numbers only.
-/

namespace TimeSeries
namespace ScanState

variable {d : Destinations} {s : ScanState} {row row' : Csv.Row} {h : TableHead}
  {cells : List String}

/-- The state with another line that was reached. -/
def atLine (s : ScanState) (line : Nat) : ScanState := { s with line := line }

theorem brings_atLine (s : ScanState) (line : Nat) (heads : List TableHead)
    (result : Except TableError Record) :
    (s.atLine line).brings heads result =
      ((s.brings heads result).1.atLine line, (s.brings heads result).2) := by
  cases result <;> rfl

theorem dataRow_atLine (s : ScanState) (line : Nat) (h : TableHead) (cells : List String) :
    (s.atLine line).dataRow d h cells =
      ((s.dataRow d h cells).1.atLine line, (s.dataRow d h cells).2) := by
  have hbegins : (s.atLine line).begins h cells = s.begins h cells := rfl
  rw [dataRow_eq, dataRow_eq, hbegins]
  split
  · exact brings_atLine ((s.seen h cells).startTable h).1 line _ _
  · exact brings_atLine (s.seen h cells) line _ _

theorem opened_atLine (s : ScanState) (line : Nat) (first : String) (cells : List String) :
    (s.atLine line).opened first cells = (s.opened first cells).atLine line := by
  have hmode : (s.atLine line).mode = s.mode := rfl
  rw [opened, opened, hmode]
  split <;> rfl

@[simp] theorem block_atLine (s : ScanState) (line : Nat) : (s.atLine line).block = s.block := rfl

@[simp] theorem mode_atLine (s : ScanState) (line : Nat) : (s.atLine line).mode = s.mode := rfl

@[simp] theorem typed_atLine (s : ScanState) (line : Nat) : (s.atLine line).typed = s.typed := rfl

theorem nameRow_atLine (s : ScanState) (line : Nat) (h : TableHead) (cells : List String) :
    (s.atLine line).nameRow d h cells =
      ((s.nameRow d h cells).1.atLine line, (s.nameRow d h cells).2) := by
  rw [nameRow, nameRow, typed_atLine]
  repeat' split
  all_goals rfl

theorem annotationRow_atLine (s : ScanState) (line : Nat) (h : TableHead) (first : String)
    (cells : List String) :
    (s.atLine line).annotationRow h first cells =
      ((s.annotationRow h first cells).1.atLine line, (s.annotationRow h first cells).2) := by
  rw [annotationRow, annotationRow]
  repeat' split
  all_goals rfl

/-- What a row of a block does depends on no line. -/
theorem blockRow_atLine (s : ScanState) (line : Nat) (first : String) (cells : List String) :
    (s.atLine line).blockRow d first cells =
      ((s.blockRow d first cells).1.atLine line, (s.blockRow d first cells).2) := by
  rw [blockRow, blockRow, ← opened, ← opened, opened_atLine]
  generalize s.opened first cells = s
  rw [block_atLine, mode_atLine]
  cases s.block with
  | none => rfl
  | some h =>
      by_cases hwidth : cells.length ≠ h.columns.length
      · simp only [if_pos hwidth]
      · simp only [if_neg hwidth]
        by_cases hfirst : first = ""
        · simp only [if_pos hfirst]
          cases s.mode with
          | annotations => exact nameRow_atLine s line h cells
          | failed => rfl
          | data => exact dataRow_atLine s line h cells
        · simp only [if_neg hfirst]
          exact annotationRow_atLine s line h first cells

theorem reach_atLine {line : Nat} (blank : Bool)
    (hlines : row'.line - line + lineFeeds row.cells = row.line - s.line + lineFeeds row'.cells) :
    (s.atLine line).reach row' blank = (s.reach row blank).atLine row'.line := by
  have hskipped : lineFeeds row'.cells + 1 < row'.line - line ↔
      lineFeeds row.cells + 1 < row.line - s.line := by omega
  rw [ScanState.reach, ScanState.reach, mode_atLine]
  simp only [atLine, hskipped]

/-- Nothing that is filled in tells tables apart. A row is as many lines further than the row in
front of it as before, line feeds in its cells apart. -/
structure Calm (s : ScanState) (line : Nat) (row row' : Csv.Row) : Prop where
  fills : s.Fills row row'
  tableCell : ∀ cells h, s.Fits row "" cells h → s.mode = .data →
    h.tableCell? row'.cells.tail = h.tableCell? cells
  lines : row'.line - line + lineFeeds row.cells = row.line - s.line + lineFeeds row'.cells

theorem dataRow_congr {cells filled : List String}
    (htable : h.tableCell? filled = h.tableCell? cells)
    (hread : readCells h.columns filled = readCells h.columns cells) (s : ScanState) :
    s.dataRow d h filled = s.dataRow d h cells := by
  have hrecord : ∀ p, readRecord d { h with position := p } filled =
      readRecord d { h with position := p } cells := by
    intro p
    rw [readRecord, readRecord, hread]
  have hsame : readRecord d h filled = readRecord d h cells := hrecord h.position
  rw [dataRow_eq, dataRow_eq, begins, begins, seen, seen, htable, hrecord, hsame]

/-- A row that is filled in without effect does what it did before. -/
theorem Calm.step {line : Nat} (hcalm : Calm s line row row') :
    (s.atLine line).step d row' = ((s.step d row).1.atLine row'.line, (s.step d row).2) := by
  have hreach := fun blank => reach_atLine blank hcalm.lines
  cases hcalm.fills with
  | @filled h cells filled fits hmode hrow' hfilled =>
      have twin : Twin True s (s.atLine line) := ⟨rfl, rfl, rfl, fun _ => rfl, fun _ => rfl⟩
      obtain ⟨k, fits', -, hsame⟩ := twin.exists_fits fits hrow' hfilled.length_eq
      obtain rfl := hsame trivial
      have htable := hcalm.tableCell cells k fits hmode
      rw [hrow', List.tail_cons] at htable
      rw [fits.step_dataRow hmode, fits'.step_dataRow hmode, hreach,
        dataRow_congr htable hfilled.readCells_eq, dataRow_atLine]
  | same hcells =>
      obtain ⟨cells, number⟩ := row
      obtain ⟨others, number'⟩ := row'
      obtain rfl : others = cells := hcells
      cases others with
      | nil => exact Prod.ext (hreach true) rfl
      | cons first cells =>
          by_cases hnil : cells = []
          · subst hnil
            simp only [ScanState.step, hreach]
            split <;> rfl
          · rw [step_cons hnil, step_cons hnil, hreach, blockRow_atLine]

theorem run_of_calm {line : Nat} {rows others : List Csv.Row}
    (hrows : Alongside d Calm s line rows others) :
    ((s.atLine line).run d (others.map .ok)).2 = (s.run d (rows.map .ok)).2 ∧
      ((s.atLine line).run d (others.map .ok)).1.mode = (s.run d (rows.map .ok)).1.mode := by
  induction hrows with
  | nil => exact ⟨rfl, rfl⟩
  | cons hfirst _ ih =>
      simp only [List.map_cons, ScanState.run, next, hfirst.step, ih, and_self]

end ScanState

open ScanState

/-- Rows decode to the same if nothing that is filled in tells tables apart. -/
theorem decodeRows_of_calm {destinations : List String} {rows others : List Csv.Row}
    (hrows : Alongside (Destinations.ofList destinations) Calm {} 1 rows others) :
    decodeRows destinations (others.map .ok) = decodeRows destinations (rows.map .ok) := by
  obtain ⟨hresults, hmode⟩ := run_of_calm hrows
  have hstart : ({} : ScanState).atLine 1 = {} := rfl
  rw [hstart] at hresults hmode
  rw [decodeRows, decodeRows, scan, scan, hresults, hmode]

end TimeSeries
