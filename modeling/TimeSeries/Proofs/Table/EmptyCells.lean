import Mathlib.Data.Set.List
import TimeSeries.Proofs.Csv.Grid
import TimeSeries.Proofs.Table.Calm
import TimeSeries.Proofs.Table.Current

/-!
# Empty cells spelled out

`Input.filled` is an input in which chosen empty cells of data rows are replaced by the defaults of
their columns, between quotes. All other bytes stay as they are. `decodeTables_filled` says what
that does to a response that can be decoded: the records stay as they are.

Where tables start is looked up in the cells before their defaults are, so it may change with a cell
of the column `table`. A line feed between quotes is trimmed away like other white space, and as the
reader then counts one line too many, it takes a cell of nothing else for a blank line. Cells that
are `Harmless` are neither of both, and spelling them out changes nothing at all.
-/

namespace TimeSeries

/-- The text that a cell is read as. -/
def Csv.RawCell.shown (c : Csv.RawCell) : String := Csv.cellText c.value

/-- An empty cell of a data row. -/
structure EmptyCell where
  /-- The number of the row among all rows of the input, from zero. -/
  row : Nat
  /-- The table that was current in front of the row. -/
  head : TableHead
  column : Column
  /-- The cell as it is written, which may be nothing, quotes around nothing, or white space. -/
  source : List UInt8
deriving DecidableEq

/-- Nothing but the value of the cell depends on how it is written. -/
def EmptyCell.Harmless (e : EmptyCell) : Prop :=
  Csv.lineFeed ∉ e.source ∧ (e.head.column? "table" = some e.column → e.column.default = "")

section Cells

variable (chosen : EmptyCell → Bool) (n : Nat) (h : TableHead)

def fillCell (c : Column) (cell : Csv.RawCell) : Csv.RawCell :=
  if cell.shown = "" ∧ chosen ⟨n, h, c, cell.text⟩ = true then
    ⟨Csv.betweenQuotes (Text.utf8Bytes c.default), cell.stop⟩
  else cell

def fillCells : List Column → List Csv.RawCell → List Csv.RawCell
  | c :: columns, cell :: cells => fillCell chosen n h c cell :: fillCells columns cells
  | _, cells => cells

/-- The cells of a data row behind the first one are filled in. -/
def fillRow : List Csv.RawCell → List Csv.RawCell
  | [] => []
  | first :: cells => first :: fillCells chosen n h h.columns cells

end Cells

namespace ScanState

/-- The block that a row is a data row of. -/
def dataHead? (s : ScanState) : Except Csv.RowFault Csv.Row → Option TableHead
  | .error _ => none
  | .ok row =>
    match row.cells, s.block with
    | "" :: cells, some h =>
      if s.mode = .data ∧ cells ≠ [] ∧ cells.length = h.columns.length then some h else none
    | _, _ => none

/-- The cells of a row, filled in if it is a data row. -/
def fill (s : ScanState) (chosen : EmptyCell → Bool) (n : Nat)
    (row : Except Csv.RowFault Csv.Row) (cells : List Csv.RawCell) : List Csv.RawCell :=
  match s.dataHead? row with
  | some h => fillRow chosen n h cells
  | none => cells

/-- The rows as they are written are filled in with the help of the rows as they are read. -/
def fillRows (d : Destinations) (chosen : EmptyCell → Bool) : ScanState → Nat →
    List (Except Csv.RowFault Csv.Row) → List (List Csv.RawCell) → List (List Csv.RawCell)
  | _, _, _, [] => []
  | s, n, rows, cells :: more =>
    if cells.map Csv.RawCell.text = [[]] then cells :: fillRows d chosen s n rows more
    else
      match rows with
      | [] => cells :: more
      | row :: rows =>
        s.fill chosen n row cells :: fillRows d chosen (s.next d row).1 (n + 1) rows more

end ScanState

/-- The input with chosen empty cells of data rows spelled out. -/
def Csv.Input.filled (i : Csv.Input) (d : Destinations) (chosen : EmptyCell → Bool) : Csv.Input :=
  { i with
    bytes := i.lead ++
      (ScanState.fillRows d chosen {} 0 i.rows (Csv.grid .fresh i.content)).flatMap Csv.rowBytes }

section Cells

variable {chosen : EmptyCell → Bool} {n : Nat} {h : TableHead} {columns : List Column}
  {cells : List Csv.RawCell}

theorem fits_fillCell (chosen : EmptyCell → Bool) (n : Nat) (h : TableHead) (c : Column)
    (cell : Csv.RawCell) : cell.Fits (fillCell chosen n h c cell) := by
  rw [fillCell]
  split
  · exact cell.fits_betweenQuotes _
  · exact .refl cell

theorem forall₂_fillCells (chosen : EmptyCell → Bool) (n : Nat) (h : TableHead)
    (columns : List Column) (cells : List Csv.RawCell) :
    List.Forall₂ Csv.RawCell.Fits cells (fillCells chosen n h columns cells) := by
  induction columns generalizing cells with
  | nil =>
      rw [fillCells]
      · exact List.forall₂_same.2 fun cell _ => .refl cell
      · rintro c columns cell cells ⟨⟩
  | cons c columns ih =>
      cases cells with
      | nil => exact .nil
      | cons cell cells => exact .cons (fits_fillCell chosen n h c cell) (ih cells)

theorem forall₂_fillRow (chosen : EmptyCell → Bool) (n : Nat) (h : TableHead)
    (cells : List Csv.RawCell) :
    List.Forall₂ Csv.RawCell.Fits cells (fillRow chosen n h cells) := by
  cases cells with
  | nil => exact .nil
  | cons first cells => exact .cons (.refl first) (forall₂_fillCells chosen n h h.columns cells)

/-- Cells that are filled in are cells that were there or texts between quotes. -/
theorem mem_fillCells {cell : Csv.RawCell} (hcell : cell ∈ fillCells chosen n h columns cells) :
    cell ∈ cells ∨ ∃ s stop, cell = ⟨Csv.betweenQuotes (Text.utf8Bytes s), stop⟩ := by
  induction columns generalizing cells with
  | nil =>
      rw [fillCells] at hcell
      · exact .inl hcell
      · rintro c columns cell cells ⟨⟩
  | cons c columns ih =>
      cases cells with
      | nil => cases hcell
      | cons first cells =>
          rw [fillCells] at hcell
          rcases List.mem_cons.1 hcell with rfl | hlater
          · rw [fillCell]
            split
            · exact .inr ⟨_, _, rfl⟩
            · exact .inl List.mem_cons_self
          · exact (ih hlater).imp_left (List.mem_cons_of_mem first)

theorem value_betweenQuotes (s : String) (stop : Option UInt8) :
    (⟨Csv.betweenQuotes (Text.utf8Bytes s), stop⟩ : Csv.RawCell).value = Text.utf8Bytes s :=
  Csv.resolved_betweenQuotes _

theorem shown_betweenQuotes {s : String} (hs : Text.trim s = s) (stop : Option UInt8) :
    (⟨Csv.betweenQuotes (Text.utf8Bytes s), stop⟩ : Csv.RawCell).shown = s := by
  rw [Csv.RawCell.shown, value_betweenQuotes, Csv.cellText_utf8Bytes, hs]

/-- The cells that are read are filled in with the defaults of chosen columns. -/
theorem filled_fillCells (hlength : cells.length = columns.length)
    (hdefaults : TrimmedDefaults columns) :
    Filled (fun c => ∃ source, chosen ⟨n, h, c, source⟩ = true) columns
      (cells.map Csv.RawCell.shown)
      ((fillCells chosen n h columns cells).map Csv.RawCell.shown) := by
  induction columns generalizing cells with
  | nil =>
      obtain rfl := List.length_eq_zero_iff.1 hlength
      exact .nil
  | cons c columns ih =>
      cases cells with
      | nil => cases hlength
      | cons cell cells =>
          obtain ⟨hc, hrest⟩ := List.forall_mem_cons.1 hdefaults
          have hfilled := ih (Nat.succ.inj hlength) hrest
          rw [fillCells, List.map_cons, List.map_cons, fillCell]
          split
          · next hempty =>
              rw [hempty.1, shown_betweenQuotes hc]
              exact .filled ⟨_, hempty.2⟩ hfilled
          · exact .kept hfilled

theorem count_lineFeed_fillCell (hharmless : ∀ e, chosen e = true → e.Harmless) {c : Column}
    (hdefault : Text.trim c.default = c.default) (cell : Csv.RawCell) :
    (fillCell chosen n h c cell).bytes.count Csv.lineFeed + cell.shown.toList.count '\n' =
      cell.bytes.count Csv.lineFeed + (fillCell chosen n h c cell).shown.toList.count '\n' := by
  rw [fillCell]
  split
  · next hempty =>
      have hsource : cell.text.count Csv.lineFeed = 0 :=
        List.count_eq_zero.2 (hharmless _ hempty.2).1
      have htext : (Csv.betweenQuotes (Text.utf8Bytes c.default)).count Csv.lineFeed =
          c.default.toList.count '\n' := by
        rw [Csv.count_lineFeed_betweenQuotes]
        exact Text.count_lineFeed_utf8Bytes c.default
      have hnone : ("" : String).toList.count '\n' = 0 := rfl
      simp only [shown_betweenQuotes hdefault, hempty.1, hnone, Csv.RawCell.bytes,
        List.count_append, htext, hsource]
      omega
  · rfl

/-- Where no line feed is replaced, the line feeds that come in are those of the new texts. -/
theorem count_lineFeed_fillCells (hharmless : ∀ e, chosen e = true → e.Harmless)
    (hdefaults : TrimmedDefaults columns) (cells : List Csv.RawCell) :
    (Csv.rowBytes (fillCells chosen n h columns cells)).count Csv.lineFeed +
        Csv.feeds (cells.map Csv.RawCell.shown) =
      (Csv.rowBytes cells).count Csv.lineFeed +
        Csv.feeds ((fillCells chosen n h columns cells).map Csv.RawCell.shown) := by
  induction columns generalizing cells with
  | nil =>
      rw [fillCells]
      rintro c columns cell cells ⟨⟩
  | cons c columns ih =>
      cases cells with
      | nil => rfl
      | cons cell cells =>
          obtain ⟨hc, hrest⟩ := List.forall_mem_cons.1 hdefaults
          have hcell := count_lineFeed_fillCell (n := n) (h := h) hharmless hc cell
          have hlater := ih hrest cells
          simp only [fillCells, Csv.rowBytes, List.flatMap_cons, List.count_append, List.map_cons,
            Csv.feeds] at hlater ⊢
          omega

end Cells

namespace ScanState

variable {d : Destinations} {chosen : EmptyCell → Bool} {s : ScanState} {row : Csv.Row}
  {h : TableHead} {n : Nat}

theorem exists_fits_of_dataHead? (hhead : s.dataHead? (.ok row) = some h) :
    s.mode = .data ∧ ∃ cells, s.Fits row "" cells h := by
  simp only [dataHead?] at hhead
  split at hhead
  · next cells k hcells hblock =>
      split at hhead
      · next hdata =>
          obtain ⟨hmode, hnil, hwidth⟩ := hdata
          obtain rfl := Option.some.inj hhead
          exact ⟨hmode, cells, hcells, hnil, by rwa [opened_empty], hwidth⟩
      · cases hhead
  · cases hhead

theorem forall₂_fill (s : ScanState) (chosen : EmptyCell → Bool) (n : Nat)
    (row : Except Csv.RowFault Csv.Row) (cells : List Csv.RawCell) :
    List.Forall₂ Csv.RawCell.Fits cells (s.fill chosen n row cells) := by
  rw [fill]
  split
  · exact forall₂_fillRow chosen n _ cells
  · exact List.forall₂_same.2 fun cell _ => .refl cell

theorem fillRows_blank {cells : List Csv.RawCell} (hblank : cells.map Csv.RawCell.text = [[]])
    (rows : List (Except Csv.RowFault Csv.Row)) (more : List (List Csv.RawCell)) :
    fillRows d chosen s n rows (cells :: more) = cells :: fillRows d chosen s n rows more := by
  cases rows <;> rw [fillRows, if_pos hblank]

theorem fillRows_cons {cells : List Csv.RawCell} (hwritten : cells.map Csv.RawCell.text ≠ [[]])
    (row : Except Csv.RowFault Csv.Row) (rows : List (Except Csv.RowFault Csv.Row))
    (more : List (List Csv.RawCell)) :
    fillRows d chosen s n (row :: rows) (cells :: more) =
      s.fill chosen n row cells :: fillRows d chosen (s.next d row).1 (n + 1) rows more := by
  rw [fillRows, if_neg hwritten]

/-- Rows that are filled in may stand in the place of the rows. -/
theorem forall₂_fillRows (d : Destinations) (chosen : EmptyCell → Bool) (s : ScanState) (n : Nat)
    (rows : List (Except Csv.RowFault Csv.Row)) (grid : List (List Csv.RawCell)) :
    List.Forall₂ (List.Forall₂ Csv.RawCell.Fits) grid (fillRows d chosen s n rows grid) := by
  have hrefl : ∀ cells : List Csv.RawCell, List.Forall₂ Csv.RawCell.Fits cells cells :=
    fun cells => List.forall₂_same.2 fun cell _ => .refl cell
  induction grid generalizing s n rows with
  | nil => exact .nil
  | cons cells more ih =>
      by_cases hblank : cells.map Csv.RawCell.text = [[]]
      · rw [fillRows_blank hblank]
        exact .cons (hrefl cells) (ih s n rows)
      · cases rows with
        | nil =>
            rw [fillRows, if_neg hblank]
            exact .cons (hrefl cells) (List.forall₂_same.2 fun cells _ => hrefl cells)
        | cons row rows =>
            rw [fillRows_cons hblank]
            exact .cons (s.forall₂_fill chosen n row cells) (ih _ _ _)

/-- Every row leaves the line behind that it has reached. -/
theorem line_step (d : Destinations) (s : ScanState) (row : Csv.Row) :
    (s.step d row).1.line = row.line := by
  have hannotations : ∀ (t : ScanState) (h : TableHead) (first : String) (cells : List String),
      (t.annotationRow h first cells).1.line = t.line := by
    intro t h first cells
    rw [annotationRow]
    repeat' split
    all_goals rfl
  have turn := turn_step d s row
  generalize (s.step d row).1 = s' at turn
  generalize (s.step d row).2 = out at turn
  cases turn with
  | @annotates first cells h fits hfirst =>
      rw [hannotations, opened]
      split <;> rfl
  | _ => rfl

theorem mem_fill {result : Except Csv.RowFault Csv.Row} {cells : List Csv.RawCell}
    {cell : Csv.RawCell} (hcell : cell ∈ s.fill chosen n result cells) :
    cell ∈ cells ∨ ∃ s stop, cell = ⟨Csv.betweenQuotes (Text.utf8Bytes s), stop⟩ := by
  rw [fill] at hcell
  split at hcell
  · cases cells with
    | nil => cases hcell
    | cons first cells =>
        rcases List.mem_cons.1 hcell with rfl | hlater
        · exact .inl List.mem_cons_self
        · exact (mem_fillCells hlater).imp_left (List.mem_cons_of_mem first)
  · exact .inl hcell

/-- A row that can be read still can be read when it is filled in, wherever it then stands. -/
theorem rowOfCells_fill {p : Csv.Position} {line : Nat} {cells : List Csv.RawCell}
    (hrow : Csv.rowOfCells p line (cells.map Csv.RawCell.value) = .ok row) (q : Csv.Position)
    (later : Nat) :
    Csv.rowOfCells q later ((s.fill chosen n (.ok row) cells).map Csv.RawCell.value) =
      .ok ⟨(s.fill chosen n (.ok row) cells).map Csv.RawCell.shown, later⟩ := by
  have hencoded := Csv.exists_rowOfCells_iff.1 ⟨row, hrow⟩
  obtain ⟨row', hrow'⟩ : ∃ row', Csv.rowOfCells q later
      ((s.fill chosen n (.ok row) cells).map Csv.RawCell.value) = .ok row' := by
    refine Csv.exists_rowOfCells_iff.2 fun value hvalue => ?_
    obtain ⟨cell, hcell, rfl⟩ := List.mem_map.1 hvalue
    rcases mem_fill hcell with hold | ⟨text, stop, rfl⟩
    · exact hencoded _ (List.mem_map_of_mem hold)
    · exact ⟨text, value_betweenQuotes text stop⟩
  have hcells := Csv.eq_of_rowOfCells hrow'
  rw [List.map_map] at hcells
  rw [hrow', hcells]
  rfl

theorem Fits.unique {cells found : List String} {k : TableHead} (fits : s.Fits row "" cells h)
    (fits' : s.Fits row "" found k) : found = cells ∧ k = h :=
  ⟨(List.cons.inj (fits'.eq_cons.symm.trans fits.eq_cons)).2,
    Option.some.inj (fits'.block_eq.symm.trans fits.block_eq)⟩

/-- A row that is filled in, as it is read behind some bytes and another line. -/
theorem fills_fill (hnumbered : s.Numbered) {head : Option TableHead} (hcurrent : s.Current head)
    {cells filled : List Csv.RawCell} (hcells : row.cells = cells.map Csv.RawCell.shown)
    (hfilled : filled = s.fill chosen n (.ok row) cells) (lead : List UInt8) (line : Nat)
    {reached : Nat} (hline : row.line =
      s.line + (lead.count Csv.lineFeed + (Csv.rowBytes cells).count Csv.lineFeed))
    (hreached : reached =
      line + (lead.count Csv.lineFeed + (Csv.rowBytes filled).count Csv.lineFeed)) :
    let row' : Csv.Row := ⟨filled.map Csv.RawCell.shown, reached⟩
    s.Fills row row' ∧ ((∀ e, chosen e = true → e.Harmless) → Calm s line row row') := by
  intro row'
  have hline' : row'.line = _ := hreached
  rw [fill] at hfilled
  cases hhead : s.dataHead? (.ok row) with
  | none =>
      rw [hhead] at hfilled
      obtain rfl : filled = cells := hfilled
      have hsame : row'.cells = row.cells := hcells.symm
      refine ⟨.same hsame, fun _ => ⟨.same hsame, fun found h fits _ => ?_, ?_⟩⟩
      · rw [hsame, fits.tail_eq]
      · rw [hsame, hline, hline']
        omega
  | some h =>
      rw [hhead] at hfilled
      obtain ⟨hmode, found, fits⟩ := exists_fits_of_dataHead? hhead
      obtain ⟨first, rest, rfl⟩ : ∃ first rest, cells = first :: rest := by
        refine List.exists_cons_of_ne_nil fun hnil => ?_
        rw [hnil, fits.eq_cons] at hcells
        cases hcells
      obtain rfl : filled = first :: fillCells chosen n h h.columns rest := hfilled
      obtain ⟨hfirst, rfl⟩ := List.cons.inj (fits.eq_cons.symm.trans hcells)
      have hdefaults := hcurrent.defaults h fits.block_eq
      have hlength : rest.length = h.columns.length := by
        rw [← fits.width, List.length_map]
      have hspelled := @filled_fillCells chosen n h h.columns rest hlength hdefaults
      have hrow' : row'.cells = "" ::
          (fillCells chosen n h h.columns rest).map Csv.RawCell.shown := by
        rw [hfirst]
        rfl
      have hfills : s.Fills row row' := .filled fits hmode hrow' (hspelled.mono fun _ _ => trivial)
      refine ⟨hfills, fun hharmless => ⟨hfills, fun others k fits' _ => ?_, ?_⟩⟩
      · obtain ⟨rfl, rfl⟩ := fits.unique fits'
        rw [hrow', List.tail_cons]
        refine hspelled.tableCell?_eq (hnumbered _ fits.block_eq) ?_
        rintro c ⟨source, hchosen⟩ htable
        exact (hharmless _ hchosen).2 htable
      · have hcount := count_lineFeed_fillCells (n := n) (h := h) hharmless hdefaults rest
        rw [lineFeeds_eq_feeds, lineFeeds_eq_feeds, hrow', hcells, hline, hline']
        simp only [Csv.rowBytes, List.flatMap_cons, List.count_append, List.map_cons,
          Csv.feeds, ← hfirst] at hcount ⊢
        omega

/-- A row that is filled in is no empty line. -/
theorem map_text_fill {cells : List Csv.RawCell}
    (hcells : row.cells = cells.map Csv.RawCell.shown)
    (hwritten : cells.map Csv.RawCell.text ≠ [[]]) :
    (s.fill chosen n (.ok row) cells).map Csv.RawCell.text ≠ [[]] := by
  rw [fill]
  split
  · next h hhead =>
      obtain ⟨-, found, fits⟩ := exists_fits_of_dataHead? hhead
      have hwide := List.length_pos_iff.2 fits.ne_nil
      have hlength := congrArg List.length (fits.eq_cons.symm.trans hcells)
      rw [List.length_cons, List.length_map, (forall₂_fillRow chosen n h cells).length_eq]
        at hlength
      intro hempty
      have hone := congrArg List.length hempty
      rw [List.length_map, ← hlength] at hone
      simp only [List.length_singleton] at hone
      omega
  · exact hwritten

/-- The rows of an input that is filled in, beside those of the input. -/
theorem alongside_fillRows (chosen : EmptyCell → Bool) (n : Nat) {p : Csv.Position}
    (p' : Csv.Position) {lead : List UInt8} {rows : List Csv.Row} {grid : List (List Csv.RawCell)}
    (hrows : Csv.rowsOfGrid p lead grid = rows.map .ok) (hline : s.line = p.line)
    (hnumbered : s.Numbered) {head : Option TableHead} (hcurrent : s.Current head)
    (hclean : Clean (s.run d (rows.map .ok)).2) :
    ∃ others, Csv.rowsOfGrid p' lead (fillRows d chosen s n (rows.map .ok) grid) = others.map .ok ∧
      Alongside d
        (fun s line row row' =>
          s.Fills row row' ∧ ((∀ e, chosen e = true → e.Harmless) → Calm s line row row'))
        s p'.line rows others := by
  induction grid generalizing s n p p' lead rows head with
  | nil =>
      obtain rfl : rows = [] := List.map_eq_nil_iff.1 hrows.symm
      exact ⟨[], rfl, .nil⟩
  | cons cells grid ih =>
      rw [Csv.rowsOfGrid] at hrows
      by_cases hblank : cells.map Csv.RawCell.text = [[]]
      · rw [if_pos hblank] at hrows
        obtain ⟨others, hothers, halong⟩ := ih n p' hrows hline hnumbered hcurrent hclean
        refine ⟨others, ?_, halong⟩
        rw [fillRows_blank hblank, Csv.rowsOfGrid, if_pos hblank, hothers]
      · rw [if_neg hblank] at hrows
        obtain ⟨row, rows, rfl⟩ : ∃ row more, rows = row :: more := by
          refine List.exists_cons_of_ne_nil fun hnil => ?_
          rw [hnil] at hrows
          cases hrows
        obtain ⟨hrow, hmore⟩ := List.cons.inj hrows
        obtain ⟨⟨events, hevents⟩, hlater⟩ := clean_append_iff.1 hclean
        have hread := Csv.eq_of_rowOfCells hrow
        rw [List.map_map] at hread
        have hcells : row.cells = cells.map Csv.RawCell.shown := congrArg Csv.Row.cells hread
        have hreached : row.line = (p.advance (lead ++ Csv.rowBytes cells)).line :=
          congrArg Csv.Row.line hread
        have htrim : ∀ cell ∈ row.cells, Text.trim cell = cell := by
          intro cell hcell
          obtain ⟨raw, -, rfl⟩ := List.mem_map.1 (hcells ▸ hcell)
          exact Csv.trim_cellText raw.value
        obtain ⟨filled, hfilled⟩ : ∃ filled, filled = s.fill chosen n (.ok row) cells := ⟨_, rfl⟩
        obtain ⟨q, hq⟩ : ∃ q, q = p'.advance (lead ++ Csv.rowBytes filled) := ⟨_, rfl⟩
        have hrow' : Csv.rowOfCells p' q.line (filled.map Csv.RawCell.value) =
            .ok ⟨filled.map Csv.RawCell.shown, q.line⟩ := hfilled ▸ rowOfCells_fill hrow p' q.line
        have hwritten : filled.map Csv.RawCell.text ≠ [[]] :=
          hfilled ▸ map_text_fill hcells hblank
        obtain ⟨others, hothers, halong⟩ := ih (n + 1) q hmore
          ((line_step d s row).trans hreached) (hnumbered.step ⟨events, hevents⟩)
          (hcurrent.step htrim hevents) hlater
        have hline' : q.line = p'.line + (lead.count Csv.lineFeed +
            (Csv.rowBytes filled).count Csv.lineFeed) := by
          rw [hq, Csv.Position.advance, List.count_append]
        have hfills := fills_fill hnumbered hcurrent hcells hfilled lead p'.line
          (by rw [hreached, hline, Csv.Position.advance, List.count_append]) hline'
        refine ⟨⟨filled.map Csv.RawCell.shown, q.line⟩ :: others, ?_, .cons hfills halong⟩
        rw [List.map_cons, fillRows_cons hblank, ← hfilled, Csv.rowsOfGrid, if_neg hwritten]
        simp only [← hq, hrow', List.map_cons]
        exact congrArg _ hothers

end ScanState

section Mark

open Csv ScanState

variable {d : Destinations} {chosen : EmptyCell → Bool} {i : Csv.Input}

/-- Behind a row that has an end, no byte matters for a byte order mark. -/
theorem take_append_beq_mark {front : List UInt8} {b : UInt8} (hb : b ∈ front)
    (hends : isTerminator b = true) (more later : List UInt8) :
    ((front ++ more).take 3 == byteOrderMark) = ((front ++ later).take 3 == byteOrderMark) := by
  by_cases hlong : 3 ≤ front.length
  · rw [List.take_append_of_le_length hlong, List.take_append_of_le_length hlong]
  · have hnone : ∀ bytes : List UInt8, ((front ++ bytes).take 3 == byteOrderMark) = false := by
      intro bytes
      rw [beq_eq_false_iff_ne]
      intro hmark
      have hmem : b ∈ (front ++ bytes).take 3 := by
        rw [List.take_append, List.take_of_length_le (Nat.le_of_not_le hlong)]
        exact List.mem_append_left _ hb
      have hmarks : byteOrderMark.any isTerminator = false := rfl
      rw [hmark] at hmem
      exact List.any_eq_false.1 hmarks b hmem hends
    rw [hnone more, hnone later]

theorem Csv.RowFrom.end_mem {place : Place} {b : UInt8} {row : List RawCell}
    (h : RowFrom place (some b) row) : b ∈ rowBytes row ∧ isTerminator b = true := by
  generalize hstop : some b = stop at h
  induction h with
  | @last _ c _ hends =>
      refine ⟨?_, hends b hstop.symm⟩
      simp [rowBytes, RawCell.bytes, ← hstop]
  | cons _ _ _ ih =>
      obtain ⟨hmem, hends⟩ := ih hstop
      refine ⟨?_, hends⟩
      rw [rowBytes, List.flatMap_cons]
      exact List.mem_append_right _ hmem

/-- The first row is no data row, so it stays as it is. -/
theorem exists_fillRows_start (d : Destinations) (chosen : EmptyCell → Bool)
    (rows : List (Except RowFault Row)) (cells : List RawCell) (more : List (List RawCell)) :
    ∃ later, fillRows d chosen {} 0 rows (cells :: more) = cells :: later ∧
      later.length = more.length := by
  have hlength := (forall₂_fillRows d chosen {} 0 rows (cells :: more)).length_eq
  obtain ⟨later, hlater⟩ :
      ∃ later, fillRows d chosen {} 0 rows (cells :: more) = cells :: later := by
    by_cases hblank : cells.map RawCell.text = [[]]
    · exact ⟨_, fillRows_blank hblank rows more⟩
    · cases rows with
      | nil => exact ⟨more, by rw [fillRows, if_neg hblank]⟩
      | cons row rows =>
          have hhead : ({} : ScanState).dataHead? row = none := by
            cases row with
            | error fault => rfl
            | ok row =>
                rw [dataHead?]
                split
                · next hblock => cases hblock
                · rfl
          exact ⟨_, by rw [fillRows_cons hblank, fill, hhead]⟩
  refine ⟨later, hlater, ?_⟩
  rw [hlater] at hlength
  exact (Nat.succ.inj hlength).symm

/-- No byte order mark is made or lost. -/
theorem hasMark_filled (i : Csv.Input) (d : Destinations) (chosen : EmptyCell → Bool) :
    (i.filled d chosen).hasMark = i.hasMark := by
  by_cases hmark : i.hasMark = true
  · have hread := (Bool.and_eq_true_iff.1 hmark).2
    rw [hmark, Input.hasMark, Input.filled, Input.lead, if_pos hmark, hread]
    rfl
  · have hbytes : i.content = i.bytes := if_neg hmark
    suffices hsame : ((i.filled d chosen).bytes.take 3 == byteOrderMark) =
        (i.bytes.take 3 == byteOrderMark) by
      rw [Input.hasMark, hsame, Input.hasMark]
      rfl
    have hgrid := gridFrom_grid .fresh i.bytes
    have hjoined := flatMap_rowBytes_grid .fresh i.bytes
    rw [Input.filled, Input.lead, if_neg hmark, hbytes, List.nil_append]
    cases hrows : grid .fresh i.bytes with
    | nil => exact absurd hrows hgrid.ne_nil
    | cons cells more =>
        rw [hrows] at hgrid hjoined
        obtain ⟨later, hlater, hlength⟩ := exists_fillRows_start d chosen i.rows cells more
        rw [hlater, ← hjoined, List.flatMap_cons, List.flatMap_cons]
        cases hgrid with
        | last _ =>
            obtain rfl := List.length_eq_zero_iff.1 hlength
            rfl
        | cons hrow _ =>
            obtain ⟨hmem, hends⟩ := hrow.end_mem
            exact take_append_beq_mark hmem hends _ _

/-- The rows of an input that is filled in are its own rows, filled in. -/
theorem rows_filled (hcomplete : i.ending = .complete) (d : Destinations)
    (chosen : EmptyCell → Bool) :
    (i.filled d chosen).rows =
      rowsOfGrid {} i.lead (fillRows d chosen {} 0 i.rows (grid .fresh i.content)) := by
  have hgrid := (gridFrom_grid .fresh i.content).replace
    (forall₂_fillRows d chosen {} 0 i.rows (grid .fresh i.content))
  have hmark := hasMark_filled i d chosen
  have hlead : (i.filled d chosen).lead = i.lead := by rw [Input.lead, hmark, Input.lead]
  have hcontent : (i.filled d chosen).content =
      (fillRows d chosen {} 0 i.rows (grid .fresh i.content)).flatMap rowBytes := by
    rw [Input.content, hmark]
    split
    · next hskipped =>
        rw [Input.filled, Input.lead, if_pos hskipped]
        rfl
    · next hkept =>
        rw [Input.filled, Input.lead, if_neg hkept]
        rfl
  have hending : (i.filled d chosen).ending = .complete := hcomplete
  rw [Input.rows_eq, hending, hlead, hcontent, hgrid.rowsFrom]

end Mark

section Decode

open ScanState

variable {destinations : List String} {input : Csv.Input}

theorem exists_rows_of_failure (hfailure : (decodeTables destinations input).failure = none) :
    input.ending = .complete ∧ ∃ rows : List Csv.Row, input.rows = rows.map .ok := by
  have hclean := (faultless_of_decodeRows hfailure).clean
  have hok := ok_of_clean hclean
  refine ⟨?_, ?_⟩
  · cases hending : input.ending with
    | complete => rfl
    | broken reason =>
        have hmem := Csv.broken_mem_rowsFrom reason {} input.lead input.content
        rw [← hending, ← Csv.Input.rows_eq] at hmem
        obtain ⟨row, hrow⟩ := hok _ hmem
        cases hrow
  · have hrange : input.rows ∈ Set.range (List.map Except.ok) := by
      rw [Set.range_list_map]
      exact fun r hr => (hok r hr).imp fun _ => Eq.symm
    exact hrange.imp fun _ => Eq.symm

/-- Empty cells of data rows that are spelled out, any of them in any column, as their defaults.
What can be decoded still can, to the same records with the same columns. It is decoded to the same
result if and only if tables have as many records as before, which they have if the cells are
harmless: they hold no line feed and do not tell tables apart. -/
theorem decodeTables_filled (hfailure : (decodeTables destinations input).failure = none)
    (chosen : EmptyCell → Bool) :
    let filled := input.filled (Destinations.ofList destinations) chosen
    (decodeTables destinations filled).failure = none ∧
      (decodeTables destinations filled).loose = (decodeTables destinations input).loose ∧
      (decodeTables destinations filled = decodeTables destinations input ↔
        (decodeTables destinations filled).sizes = (decodeTables destinations input).sizes) ∧
      ((∀ e, chosen e = true → e.Harmless) →
        decodeTables destinations filled = decodeTables destinations input) := by
  intro filled
  obtain ⟨hcomplete, rows, hrows⟩ := exists_rows_of_failure hfailure
  have hgrid : Csv.rowsOfGrid {} input.lead (Csv.grid .fresh input.content) = rows.map .ok := by
    rw [← Csv.rowsFrom_grid, ← hcomplete, ← Csv.Input.rows_eq, hrows]
  rw [decodeTables_eq_decodeRows, hrows] at hfailure
  obtain ⟨others, hothers, halong⟩ := alongside_fillRows (d := Destinations.ofList destinations)
    chosen 0 {} hgrid rfl numbered_start current_start
    (faultless_of_decodeRows hfailure).clean
  have hfilled : filled.rows = others.map .ok := by
    rw [rows_filled hcomplete, hrows, hothers]
  obtain ⟨hnone, hloose, hsizes⟩ := decodeRows_of_fills (halong.mono fun _ _ _ _ h => h.1) hfailure
  rw [decodeTables_eq_decodeRows, decodeTables_eq_decodeRows, hfilled, hrows]
  exact ⟨hnone, hloose, ⟨congrArg Decoded.sizes, hsizes⟩, fun hharmless =>
    decodeRows_of_calm (halong.mono fun _ _ _ _ h => h.2 hharmless)⟩

/-- A response with the columns `result`, `table` and `_value`, these defaults and these rows. -/
def defaultTable (defaults : String) (rows : List String) : Csv.Input :=
  { bytes := (["#datatype,string,long,long", "#group,false,false,false", "#default," ++ defaults,
      ",result,table,_value"] ++ rows).flatMap fun row => Text.utf8Bytes row ++ [Csv.lineFeed] }

/-- Empty cells of one column are spelled out, and nothing changes. -/
theorem decodeTables_filled_of_results :
    let input := defaultTable "_result,0," [",,0,1", ",  ,0,2", ",\"\",1,"]
    let chosen : EmptyCell → Bool := fun e =>
      e.column.name == "result" && !e.source.contains Csv.lineFeed
    let filled := input.filled {} chosen
    (decodeTables [] input).failure = none ∧
      filled = defaultTable "_result,0,"
        [",\"_result\",0,1", ",\"_result\",0,2", ",\"_result\",1,"] ∧
      decodeTables [] filled = decodeTables [] input ∧ (decodeTables [] input).sizes = [2, 1] := by
  intro input chosen filled
  have hfailure : (decodeTables [] input).failure = none := by decide +kernel
  have hharmless : ∀ e, chosen e = true → e.Harmless := by
    intro e he
    obtain ⟨hname, hsource⟩ := Bool.and_eq_true_iff.1 he
    refine ⟨by simpa using hsource, fun htable => ?_⟩
    have hfound := List.find?_some htable
    rw [beq_iff_eq.1 hname] at hfound
    exact absurd hfound (by decide)
  have hresult := (decodeTables_filled hfailure chosen).2.2.2 hharmless
  exact ⟨hfailure, by decide +kernel, hresult, by decide +kernel⟩

/-- An empty cell of the column `table` is not the same as its default: spelled out, it is the same
as the cell below, and there is one table instead of two. Nor is a line feed between quotes, which
is taken for a blank line. -/
theorem empty_cells_tell_tables_apart :
    (let input := defaultTable "_result,0," [",,,1", ",,0,2"]
      let filled := input.filled {} fun e => e.row == 4 && e.column.name == "table"
      filled = defaultTable "_result,0," [",,\"0\",1", ",,0,2"] ∧
        (decodeTables [] input).failure = none ∧ (decodeTables [] input).sizes = [1, 1] ∧
          (decodeTables [] filled).sizes = [2]) ∧
    (let input := defaultTable "_result,0," [",,0,1", ",\"\n\",0,2"]
      let filled := input.filled {} fun e => e.row == 5 && e.column.name == "result"
      filled = defaultTable "_result,0," [",,0,1", ",\"_result\",0,2"] ∧
        (decodeTables [] input).failure = none ∧ (decodeTables [] input).sizes = [1, 1] ∧
          (decodeTables [] filled).sizes = [2]) := by
  decide +kernel

end Decode

end TimeSeries
