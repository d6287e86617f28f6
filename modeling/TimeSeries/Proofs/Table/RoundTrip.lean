import Mathlib.Data.List.Basic
import TimeSeries.Proofs.Table.Scan

/-!
# Printed tables are decoded

A response is printed block by block: the four rows of the declaration, then the tables of the block
with a blank line between each two of them. Blocks follow on each other without a blank line. The
theorem at the end is that a decoder gets the tables back, numbered through all blocks.

Tables of a block are told apart by blank lines only, which shows in the lines of the rows. So the
induction carries `s.line + 1 = line + e.own`: the line that was reached is the one on which the
next row begins, or the one before if a line feed is still to be read.
-/

namespace TimeSeries

def Table.events (t : Table) : List Event := .table t.head :: t.records.map .record

theorem gather_events (t : Table) {rest : List Event} (h : (gather rest).1 = []) :
    gather (t.events ++ rest) = ([], t :: (gather rest).2) := by
  have hrecords : ∀ records : List Record,
      gather (records.map .record ++ rest) = (records, (gather rest).2) := by
    intro records
    induction records with
    | nil => rw [List.map_nil, List.nil_append, ← h]
    | cons r records ih => rw [List.map_cons, List.cons_append, gather, ih]
  rw [Table.events, List.cons_append, gather, hrecords]

theorem gather_flatMap_events (tables : List Table) :
    gather (tables.flatMap Table.events) = ([], tables) := by
  induction tables with
  | nil => rfl
  | cons t tables ih => rw [List.flatMap_cons, gather_events t (by rw [ih]), ih]

theorem Scan.untilFault_append (ending : Option TableError) (events : List Event)
    (rest : List (Except TableError Event)) :
    Scan.untilFault ending (events.map .ok ++ rest) =
      (events ++ (Scan.untilFault ending rest).1, (Scan.untilFault ending rest).2) := by
  induction events with
  | nil => rfl
  | cons e events ih => rw [List.map_cons, List.cons_append, Scan.untilFault, ih]; rfl

theorem Scan.untilFault_map_ok (ending : Option TableError) (events : List Event) :
    Scan.untilFault ending (events.map .ok) = (events, ending) := by
  have hnothing := Scan.untilFault_append ending events []
  rwa [List.append_nil, Scan.untilFault, List.append_nil] at hnothing

/-- The rows of cells are a table of the columns: as wide as they are, with the same cell in the
column `table`, and every cell has the type of its column. -/
structure Declared.Fits (l : List Declared) (rows : List (List String)) : Prop where
  width : ∀ cells ∈ rows, cells.length = l.length
  constant : ∀ cells ∈ rows, ∀ cells' ∈ rows, tableCell? l cells = tableCell? l cells'
  reads : ∀ cells ∈ rows, ∀ e ∈ l.zip cells, (e.1.read e.2).isOk = true

instance (l : List Declared) (rows : List (List String)) : Decidable (Declared.Fits l rows) :=
  decidable_of_iff
    ((∀ cells ∈ rows, cells.length = l.length) ∧
      (∀ cells ∈ rows, ∀ cells' ∈ rows,
        Declared.tableCell? l cells = Declared.tableCell? l cells') ∧
      ∀ cells ∈ rows, ∀ e ∈ l.zip cells, (e.1.read e.2).isOk = true)
    ⟨fun h => ⟨h.1, h.2.1, h.2.2⟩, fun h => ⟨h.width, h.constant, h.reads⟩⟩

theorem Declared.Fits.tail {l : List Declared} {cells : List String} {rows : List (List String)}
    (h : Fits l (cells :: rows)) : Fits l rows where
  width c hc := h.width c (List.mem_cons_of_mem cells hc)
  constant c hc c' hc' :=
    h.constant c (List.mem_cons_of_mem cells hc) c' (List.mem_cons_of_mem cells hc')
  reads c hc := h.reads c (List.mem_cons_of_mem cells hc)

/-- Behind its first row a table goes on with the same cell in the column `table`. -/
theorem Declared.Fits.cell {l : List Declared} {cells : List String} {rows : List (List String)}
    (h : Fits l (cells :: rows)) :
    ∀ c ∈ rows, tableCell? l cells = none ∨ tableCell? l cells = tableCell? l c := by
  intro c hc
  right
  exact h.constant cells List.mem_cons_self c (List.mem_cons_of_mem cells hc)

/-- The table of the columns at a position, with the records that the rows of cells are. -/
def Declared.table (d : Destinations) (position : Nat) (l : List Declared)
    (rows : List (List String)) : Table :=
  ⟨⟨position, columns d l⟩, rows.map (record d position l)⟩

namespace ScanState.Inside

open Declared

variable {d : Destinations} {s : ScanState} {l : List Declared} {position line : Nat}
  {tableCell : Option String}

theorem run_rows (h : Inside d s l position tableCell) (hl : l ≠ []) {rows : List (List String)}
    (hfits : Fits l rows)
    (hcell : ∀ cells ∈ rows, tableCell = none ∨ tableCell = tableCell? l cells)
    (e : Csv.LineEnd) (hline : s.line + 1 = line + e.own) :
    ∃ s' cell, s.run d ((Csv.numbered e line (rows.map ("" :: ·))).map .ok) =
        (s', ((rows.map (record d position l)).map .record).map .ok) ∧
      Inside d s' l position cell ∧
      s'.line + 1 = line + Csv.height (rows.map ("" :: ·)) + e.own := by
  induction rows generalizing s tableCell line with
  | nil => exact ⟨s, tableCell, rfl, h, hline⟩
  | cons cells rows ih =>
      have hmem : cells ∈ cells :: rows := List.mem_cons_self
      have hfeeds : line + Csv.feeds ("" :: cells) + e.own ≤
          s.line + Csv.feeds ("" :: cells) + 1 := by omega
      obtain ⟨s₁, hstep, h₁, hline₁⟩ := h.step_same hl (hfits.width cells hmem)
        (hfits.reads cells hmem) (hcell cells hmem) hfeeds
      have hnext : s₁.line + 1 = line + Csv.feeds ("" :: cells) + 1 + e.own := by omega
      obtain ⟨s', cell, hrun, h', hline'⟩ := ih h₁ hfits.tail hfits.cell hnext
      refine ⟨s', cell, ?_, h', ?_⟩
      · rw [List.map_cons, Csv.numbered_cons e line (List.cons_ne_nil "" cells), List.map_cons,
          run_cons_of_step hstep, hrun]
        rfl
      · rw [hline', List.map_cons, Csv.height]
        omega

/-- Rows behind a blank line are the next table. -/
theorem run_table (h : Inside d s l position tableCell) (hl : l ≠ []) {rows : List (List String)}
    (hfits : Fits l rows) (hrows : rows ≠ []) (e : Csv.LineEnd)
    (hline : s.line + 1 = line + e.own) :
    ∃ s' cell, s.run d ((Csv.numbered e line ([] :: rows.map ("" :: ·))).map .ok) =
        (s', (table d (position + 1) l rows).events.map .ok) ∧
      Inside d s' l (position + 1) cell ∧
      s'.line + 1 = line + Csv.height ([] :: rows.map ("" :: ·)) + e.own := by
  obtain ⟨cells, rows, rfl⟩ := List.exists_cons_of_ne_nil hrows
  have hmem : cells ∈ cells :: rows := List.mem_cons_self
  have hfeeds : s.line + Csv.feeds ("" :: cells) + 1 <
      line + 1 + Csv.feeds ("" :: cells) + e.own := by omega
  obtain ⟨s₁, hstep, h₁, hline₁⟩ := h.step_next hl (hfits.width cells hmem)
    (hfits.reads cells hmem) hfeeds
  have hnext : s₁.line + 1 = line + 1 + Csv.feeds ("" :: cells) + 1 + e.own := by omega
  obtain ⟨s', cell, hrun, h', hline'⟩ := h₁.run_rows hl hfits.tail hfits.cell e hnext
  refine ⟨s', cell, ?_, h', ?_⟩
  · rw [Csv.numbered_blank, List.map_cons, Csv.numbered_cons e _ (List.cons_ne_nil "" cells),
      List.map_cons, run_cons_of_step hstep, hrun]
    rfl
  · rw [hline', Csv.height, List.map_cons, Csv.height]
    simp only [Csv.feeds]
    omega

/-- The tables of the columns, numbered from a position on. -/
theorem run_tables (h : Inside d s l position tableCell) (hl : l ≠ [])
    {tables : List (List (List String))} (hfits : ∀ t ∈ tables, Fits l t)
    (hrows : ∀ t ∈ tables, t ≠ []) (e : Csv.LineEnd) (hline : s.line + 1 = line + e.own) :
    ∃ s' cell, s.run d ((Csv.numbered e line
          (tables.flatMap fun t => [] :: t.map ("" :: ·))).map .ok) =
        (s', (((tables.zipIdx (position + 1)).map fun x => table d x.2 l x.1).flatMap
          Table.events).map .ok) ∧
      Inside d s' l (position + tables.length) cell ∧
      s'.line + 1 =
        line + Csv.height (tables.flatMap fun t => [] :: t.map ("" :: ·)) + e.own := by
  induction tables generalizing s position tableCell line with
  | nil => exact ⟨s, tableCell, rfl, h, hline⟩
  | cons t tables ih =>
      obtain ⟨s₁, cell₁, hrun₁, h₁, hline₁⟩ := h.run_table hl (hfits t List.mem_cons_self)
        (hrows t List.mem_cons_self) e hline
      obtain ⟨s', cell, hrun, h', hline'⟩ := ih h₁ (fun u hu => hfits u (List.mem_cons_of_mem t hu))
        (fun u hu => hrows u (List.mem_cons_of_mem t hu)) hline₁
      refine ⟨s', cell, ?_, ?_, ?_⟩
      · rw [List.flatMap_cons, Csv.numbered_append, List.map_append, run_append, hrun₁, hrun,
          List.zipIdx_cons, List.map_cons, List.flatMap_cons, List.map_append]
      · rw [List.length_cons, Nat.add_comm tables.length, ← Nat.add_assoc]
        exact h'
      · rw [hline', List.flatMap_cons, Csv.height_append]
        omega

end ScanState.Inside

/-- A block of a response: its columns, and the rows of cells of its tables. -/
structure Block where
  columns : List Declared
  tables : List (List (List String))
deriving DecidableEq, Repr

namespace Block

variable {d : Destinations} {s : ScanState} {b : Block}

/-- The rows of a block. The row without cells is the blank line between two tables. -/
def rows (b : Block) : List (List String) :=
  ScanState.declaration b.columns ++ [[]].intercalate (b.tables.map fun t => t.map ("" :: ·))

/-- What makes the printed block one that can be read. -/
structure WellFormed (b : Block) : Prop where
  columns_ne_nil : b.columns ≠ []
  name_ne_error : ∀ c ∈ b.columns.head?, c.name ≠ "error"
  typed : ∀ c ∈ b.columns, DataType.ofName? c.typeName = some c.dataType
  bare_columns : ∀ c ∈ b.columns, Text.Bare c.name ∧ Text.Bare c.default
  tables_ne_nil : b.tables ≠ []
  later_ne_nil : ∀ t ∈ b.tables.tail, t ≠ []
  bare_cells : ∀ t ∈ b.tables, ∀ cells ∈ t, ∀ cell ∈ cells, Text.Bare cell
  fits : ∀ t ∈ b.tables, Declared.Fits b.columns t

/-- The tables of a block, numbered from a position on. -/
def tablesFrom (d : Destinations) (position : Nat) (b : Block) : List Table :=
  (b.tables.zipIdx position).map fun x => Declared.table d x.2 b.columns x.1

theorem intercalate_blank (t : List (List String)) (tables : List (List (List String))) :
    [[]].intercalate (t :: tables) = t ++ tables.flatMap ([] :: ·) := by
  induction tables generalizing t with
  | nil => rw [List.intercalate_singleton, List.flatMap_nil, List.append_nil]
  | cons u tables ih =>
      rw [List.intercalate_cons_cons, ih, List.flatMap_cons, List.append_assoc, List.cons_append]
      rfl

theorem mem_intercalate_blank {tables : List (List (List String))} {cells : List String}
    (h : cells ∈ [[]].intercalate tables) : cells = [] ∨ ∃ t ∈ tables, cells ∈ t := by
  cases tables with
  | nil => cases h
  | cons t tables =>
      rw [intercalate_blank] at h
      rcases List.mem_append.1 h with h | h
      · exact Or.inr ⟨t, List.mem_cons_self, h⟩
      · obtain ⟨u, hu, hmem⟩ := List.mem_flatMap.1 h
        rcases List.mem_cons.1 hmem with rfl | hmem
        · exact Or.inl rfl
        · exact Or.inr ⟨u, List.mem_cons_of_mem t hu, hmem⟩

/-- The rows of a block bring its tables, wherever the rows in front of them end. -/
theorem run_rows (hb : b.WellFormed) (hs : s.mode = .data) (e : Csv.LineEnd) (line : Nat) :
    ∃ s', s.run d ((Csv.numbered e line b.rows).map .ok) =
        (s', ((b.tablesFrom d s.position).flatMap Table.events).map .ok) ∧
      s'.mode = .data ∧ s'.position = s.position + b.tables.length := by
  obtain ⟨t, tables, ht⟩ := List.exists_cons_of_ne_nil hb.tables_ne_nil
  have hfits := hb.fits
  have hlater := hb.later_ne_nil
  rw [ht] at hfits hlater
  obtain ⟨s₁, hrun₁, h₁, hline₁⟩ := ScanState.run_declaration (d := d) hb.columns_ne_nil hb.typed
    hb.name_ne_error hs e line
  obtain ⟨s₂, cell₂, hrun₂, h₂, hline₂⟩ := h₁.run_rows hb.columns_ne_nil
    (hfits t List.mem_cons_self) (fun _ _ => Or.inl rfl) e hline₁
  obtain ⟨s', cell, hrun, h, -⟩ := h₂.run_tables hb.columns_ne_nil
    (fun u hu => hfits u (List.mem_cons_of_mem t hu)) hlater e hline₂
  refine ⟨s', ?_, h.mode, ?_⟩
  · rw [rows, ht, List.map_cons, intercalate_blank, List.flatMap_map, Csv.numbered_append,
      Csv.numbered_append, List.map_append, List.map_append, ScanState.run_append, hrun₁,
      ScanState.run_append, hrun₂, hrun, tablesFrom, ht, List.zipIdx_cons, List.map_cons,
      List.flatMap_cons, List.map_append]
    rfl
  · rw [h.place, ht, List.length_cons, Nat.add_assoc]

/-- The tables of some blocks, numbered through from a position on. -/
def allTables (d : Destinations) (position : Nat) (blocks : List Block) : List Table :=
  ((blocks.flatMap fun b => b.tables.map (b.columns, ·)).zipIdx position).map
    fun x => Declared.table d x.2 x.1.1 x.1.2

theorem allTables_cons (d : Destinations) (position : Nat) (b : Block) (blocks : List Block) :
    allTables d position (b :: blocks) =
      b.tablesFrom d position ++ allTables d (position + b.tables.length) blocks := by
  rw [allTables, List.flatMap_cons, List.zipIdx_append, List.map_append, List.length_map,
    List.zipIdx_map, List.map_map]
  rfl

/-- The rows of all blocks bring their tables. -/
theorem run_blocks {blocks : List Block} (hblocks : ∀ b ∈ blocks, b.WellFormed)
    (hs : s.mode = .data) (e : Csv.LineEnd) (line : Nat) :
    ∃ s', s.run d ((Csv.numbered e line (blocks.flatMap rows)).map .ok) =
        (s', ((allTables d s.position blocks).flatMap Table.events).map .ok) ∧
      s'.mode = .data := by
  induction blocks generalizing s line with
  | nil => exact ⟨s, rfl, hs⟩
  | cons b blocks ih =>
      obtain ⟨s₁, hrun₁, hmode₁, hplace₁⟩ :=
        run_rows (d := d) (hblocks b List.mem_cons_self) hs e line
      obtain ⟨s', hrun, hmode⟩ := ih (fun c hc => hblocks c (List.mem_cons_of_mem b hc)) hmode₁
        (line + Csv.height b.rows)
      refine ⟨s', ?_, hmode⟩
      rw [List.flatMap_cons, Csv.numbered_append, List.map_append, ScanState.run_append, hrun₁,
        hrun, hplace₁, allTables_cons, List.flatMap_append, List.map_append]

theorem bare_of_ofName? {name : String} {t : DataType} (h : DataType.ofName? name = some t) :
    Text.Bare name := by
  rw [DataType.ofName?.eq_def] at h
  split at h
  case h_10 => cases h
  all_goals decide

theorem bare_toString_bool (b : Bool) : Text.Bare (toString b) := by
  cases b <;> decide

theorem WellFormed.printable (hb : b.WellFormed) : ∀ cells ∈ b.rows, Csv.Printable cells := by
  have hwide : ∀ (first : String) (f : Declared → String), Text.Bare first →
      (∀ c ∈ b.columns, Text.Bare (f c)) → Csv.Printable (first :: b.columns.map f) := by
    intro first f hfirst hf
    refine ⟨by simpa using fun _ => hb.columns_ne_nil, ?_⟩
    simpa using ⟨hfirst, hf⟩
  have hnames := fun c hc => (hb.bare_columns c hc).1
  have hdefaults := fun c hc => (hb.bare_columns c hc).2
  have htypes := fun c hc => bare_of_ofName? (hb.typed c hc)
  have hblank : Text.Bare "" := by decide
  have hdata : ∀ t ∈ b.tables, ∀ cells ∈ t, Csv.Printable ("" :: cells) := by
    intro t ht cells hcells
    refine ⟨?_, by simpa using ⟨hblank, hb.bare_cells t ht cells hcells⟩⟩
    have hwidth := (hb.fits t ht).width cells hcells
    have := List.length_pos_iff.2 hb.columns_ne_nil
    intro heq
    obtain rfl : cells = [] := by simpa using heq
    simp at hwidth
    omega
  intro cells hcells
  rcases List.mem_append.1 hcells with hcells | hcells
  · simp only [ScanState.declaration, List.mem_cons, List.not_mem_nil, or_false] at hcells
    rcases hcells with rfl | rfl | rfl | rfl
    · exact hwide "#datatype" Declared.typeName (by decide) htypes
    · refine hwide "#group" (fun c => toString c.group) (by decide) ?_
      exact fun c _ => bare_toString_bool c.group
    · exact hwide "#default" Declared.default (by decide) hdefaults
    · exact hwide "" Declared.name hblank hnames
  · rcases mem_intercalate_blank hcells with rfl | ⟨t, ht, hmem⟩
    · exact ⟨by decide, fun c hc => absurd hc List.not_mem_nil⟩
    · obtain ⟨u, hu, rfl⟩ := List.mem_map.1 ht
      obtain ⟨tail, htail, rfl⟩ := List.mem_map.1 hmem
      exact hdata u hu tail htail

/-- The text of a block begins with the name of an annotation. -/
theorem take_printRows_ne_mark (e : Csv.LineEnd) (hb : b.WellFormed) (more : List (List String)) :
    (Csv.printRows e (b.rows ++ more)).take 3 ≠ Csv.byteOrderMark := by
  obtain ⟨c, l, hl⟩ := List.exists_cons_of_ne_nil hb.columns_ne_nil
  have hcell : Csv.printCell (Text.utf8Bytes "#datatype") =
      [0x23, 0x64, 0x61, 0x74, 0x61, 0x74, 0x79, 0x70, 0x65] := by decide
  rw [rows, ScanState.declaration, hl]
  simp only [Csv.printRows, List.cons_append, List.flatMap_cons, List.map_cons, Csv.printRow, hcell]
  exact fun h => absurd (List.head_eq_of_cons_eq h) (by decide)

end Block

/-- Any input that is the printed text of some blocks is decoded to their tables. -/
theorem decodeTables_printRows (destinations : List String) (e : Csv.LineEnd)
    (firstRead : Option Nat) {blocks : List Block} (hblocks : ∀ b ∈ blocks, b.WellFormed) :
    decodeTables destinations ⟨Csv.printRows e (blocks.flatMap Block.rows), firstRead, .complete⟩ =
      ⟨Block.allTables (Destinations.ofList destinations) 0 blocks, none⟩ := by
  have hprintable : ∀ cells ∈ blocks.flatMap Block.rows, Csv.Printable cells := by
    intro cells hcells
    obtain ⟨b, hb, hmem⟩ := List.mem_flatMap.1 hcells
    exact (hblocks b hb).printable cells hmem
  have hmark : (Csv.printRows e (blocks.flatMap Block.rows)).take 3 ≠ Csv.byteOrderMark := by
    cases blocks with
    | nil => exact (List.cons_ne_nil _ _).symm
    | cons b blocks => exact Block.take_printRows_ne_mark e (hblocks b List.mem_cons_self) _
  obtain ⟨s', hrun, hmode⟩ := Block.run_blocks (d := Destinations.ofList destinations)
    (s := {}) hblocks rfl e 1
  rw [decodeTables, Scan.ofInput, Csv.rows_printRows e hprintable firstRead hmark, hrun]
  simp only [Scan.decode, hmode, reduceCtorEq, if_false, Scan.untilFault_map_ok,
    gather_flatMap_events]

/-- A table without records, cells that need quotes, a line feed in a cell, and defaults. -/
def Block.sample : List Block :=
  [{ columns := [⟨"table", "long", .long, false, "7"⟩, ⟨"host", "string", .string, true, "a"⟩]
     tables := [[], [["1", "x\n\"y"], ["1", ""]], [["", "z,"]]] },
    { columns := [⟨"on", "boolean", .bool, false, "true"⟩]
      tables := [[["false"], [""]]] }]

theorem Block.wellFormed_sample : ∀ b ∈ Block.sample, b.WellFormed := by
  intro b hb
  simp only [Block.sample, List.mem_cons, List.not_mem_nil, or_false] at hb
  rcases hb with rfl | rfl <;>
    exact ⟨by decide, by decide, by decide, by decide, by decide, by decide, by decide, by decide⟩

theorem decodeTables_printRows_sample :
    (∀ b ∈ Block.sample, b.WellFormed) ∧
      decodeTables ["host"]
          ⟨Csv.printRows .returnFeed (Block.sample.flatMap Block.rows), some 2, .complete⟩ =
        ⟨Block.allTables ⟨"host", []⟩ 0 Block.sample, none⟩ ∧
      (Block.allTables ⟨"host", []⟩ 0 Block.sample).map (fun t => t.records.map Record.value?) =
        [[], [some (.string "x\n\"y"), some (.string "a")], [some (.string "z,")],
          [none, none]] :=
  ⟨Block.wellFormed_sample,
    decodeTables_printRows ["host"] .returnFeed (some 2) Block.wellFormed_sample, by decide⟩

end TimeSeries
