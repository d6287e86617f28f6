import Mathlib.Data.List.Basic
import TimeSeries.Proofs.Csv.Print
import TimeSeries.Table.Decode

/-!
# What the rows of a block bring

A block declares its columns in four rows, of types, of group flags, of defaults and of names, and
the rows below hold cells for them. `run_declaration` says what the four rows bring, from any state
that does not stand inside of annotations: whatever was remembered of earlier blocks is forgotten.

Behind them the state is `Inside` a table of the block. Whether a row goes on with that table or
starts the next one is a question of the lines it has passed, so there are two lemmas about a data
row: `step_same` for a row with nothing but its own line feeds and `step_next` for one behind a
blank line.
-/

namespace TimeSeries

/-- A column as a response declares it. -/
structure Declared where
  name : String
  typeName : String
  dataType : DataType
  group : Bool
  /-- What an empty cell stands for. -/
  default : String
deriving DecidableEq, Repr

namespace Declared

variable (d : Destinations)

def column (c : Declared) (index : Nat) : Column :=
  { index
    name := c.name
    dataType := c.dataType
    group := c.group
    default := c.default
    tag := c.group && !d.contains c.name }

def columns (l : List Declared) : List Column := l.zipIdx.map fun x => x.1.column d x.2

/-- What a cell of the column is read as. -/
def read (c : Declared) (cell : String) : Except TableError Value :=
  c.dataType.readText c.name (if cell = "" then c.default else cell)

/-- The value of a cell of the column; `null` for one that has not the type of the column. -/
def value (c : Declared) (cell : String) : Value :=
  match c.read cell with
  | .ok v => v
  | .error _ => .null

theorem read_eq_ok_value {c : Declared} {cell : String} (h : (c.read cell).isOk = true) :
    c.read cell = .ok (c.value cell) := by
  cases hread : c.read cell with
  | ok v => rw [value, hread]
  | error fault =>
      rw [hread] at h
      cases h

/-- The record that a row of cells is. -/
def record (position : Nat) (l : List Declared) (cells : List String) : Record :=
  let named (keep : Declared → Bool) : KeyMap Value :=
    KeyMap.ofList (((l.zip cells).filter fun e => keep e.1).map fun e => (e.1.name, e.1.value e.2))
  { table := position
    columns := named fun _ => true
    tags := named fun c => !d.contains c.name && c.group
    values := named fun c => d.contains c.name
    valueColumn := d.primary }

/-- The cell of a row in the first column named `table`. -/
def tableCell? (l : List Declared) (cells : List String) : Option String :=
  ((l.zip cells).find? fun e => e.1.name = "table").map Prod.snd

@[simp] theorem length_columns (l : List Declared) : (columns d l).length = l.length := by
  rw [columns, List.length_map, List.length_zipIdx]

theorem setEach_zipIdx (f : Column → String → Column) (g : Declared × Nat → Column)
    (cell : Declared → String) (l : List Declared) (n : Nat) :
    setEach f ((l.zipIdx n).map g) (l.map cell) =
      (l.zipIdx n).map fun x => f (g x) (cell x.1) := by
  induction l generalizing n with
  | nil => rfl
  | cons c l ih => rw [List.zipIdx_cons, List.map_cons, List.map_cons, setEach, ih, List.map_cons]

theorem setTypes_zipIdx {l : List Declared}
    (hl : ∀ c ∈ l, DataType.ofName? c.typeName = some c.dataType) (g : Declared × Nat → Column)
    (n : Nat) :
    setTypes ((l.zipIdx n).map g) (l.map typeName) =
      ((l.zipIdx n).map fun x => { g x with dataType := x.1.dataType }, none) := by
  induction l generalizing n with
  | nil => rfl
  | cons c l ih =>
      have hc := hl c List.mem_cons_self
      rw [List.zipIdx_cons, List.map_cons, List.map_cons, setTypes, hc,
        ih fun c' hc' => hl c' (List.mem_cons_of_mem c hc')]
      rfl

theorem blank_eq_zipIdx (position : Nat) (l : List Declared) :
    TableHead.blank position l.length =
      ⟨position, l.zipIdx.map fun x => { index := x.2 }⟩ := by
  rw [TableHead.blank, List.range_eq_range', ← List.zipIdx_map_snd, List.map_map]
  rfl

theorem readCells_zipIdx {l : List Declared} {cells : List String}
    (h : ∀ e ∈ l.zip cells, (e.1.read e.2).isOk = true) (n : Nat) :
    ∃ read, readCells ((l.zipIdx n).map fun x => x.1.column d x.2) cells = .ok read ∧
      ∀ keep : String → Bool → Bool,
        (read.filter fun e => keep e.1.name e.1.group).map (fun e => (e.1.name, e.2)) =
          ((l.zip cells).filter fun e => keep e.1.name e.1.group).map
            fun e => (e.1.name, e.1.value e.2) := by
  induction l generalizing cells n with
  | nil => exact ⟨[], rfl, fun keep => rfl⟩
  | cons c l ih =>
      cases cells with
      | nil => exact ⟨[], rfl, fun keep => rfl⟩
      | cons cell cells =>
          have hcell : (c.column d n).read cell = .ok (c.value cell) :=
            read_eq_ok_value (h (c, cell) List.mem_cons_self)
          obtain ⟨read, hread, hkept⟩ := ih
            (fun e he => h e (List.mem_cons_of_mem (c, cell) he)) (n + 1)
          refine ⟨(c.column d n, c.value cell) :: read, ?_, fun keep => ?_⟩
          · rw [List.zipIdx_cons, List.map_cons, readCells, hcell]
            simp only [hread]
            rfl
          · have hrest := hkept keep
            by_cases hkeep : keep c.name c.group = true
            · simpa [List.filter_cons, column, hkeep] using hrest
            · simpa [List.filter_cons, column, hkeep] using hrest

theorem readRecord_columns {l : List Declared} {cells : List String}
    (h : ∀ e ∈ l.zip cells, (e.1.read e.2).isOk = true) (position : Nat) :
    readRecord d ⟨position, columns d l⟩ cells = .ok (record d position l cells) := by
  obtain ⟨read, hread, hkept⟩ := readCells_zipIdx d h 0
  have hall := hkept fun _ _ => true
  have htags := hkept fun name group => !d.contains name && group
  have hvalues := hkept fun name _ => d.contains name
  simp only [List.filter_true] at hall
  simp only [readRecord, columns, hread, record, List.filter_true, ← hall, ← htags, ← hvalues]
  rfl

theorem find?_zipIdx_bind (l : List Declared) {cells : List String}
    (hlength : cells.length = l.length) {all : List String} {n : Nat} (hall : all.drop n = cells) :
    ((((l.zipIdx n).map fun x => x.1.column d x.2).find? fun c => c.name = "table").bind
        fun c => all[c.index]?) = tableCell? l cells := by
  induction l generalizing cells n with
  | nil => rfl
  | cons c l ih =>
      cases cells with
      | nil => cases hlength
      | cons cell cells =>
          by_cases hc : c.name = "table"
          · have hget : all[n]? = some cell := by
              rw [← Nat.add_zero n, ← List.getElem?_drop, hall]
              rfl
            simpa [tableCell?, hc, column] using hget
          · have hdrop : all.drop (n + 1) = cells := by
              rw [← List.drop_drop, hall]
              rfl
            have hrest := ih (by simpa using hlength) hdrop
            simpa [tableCell?, hc, column] using hrest

/-- The cell that tells tables apart is looked up where the column `table` stands. -/
theorem column?_columns_bind {l : List Declared} {cells : List String}
    (hlength : cells.length = l.length) (position : Nat) :
    (((⟨position, columns d l⟩ : TableHead).column? "table").bind fun c => cells[c.index]?) =
      tableCell? l cells :=
  find?_zipIdx_bind d l hlength List.drop_zero

end Declared

namespace ScanState

open Declared

variable {d : Destinations} {s : ScanState} {l : List Declared}

theorem run_append (s : ScanState) (rows more : List (Except Csv.RowFault Csv.Row)) :
    s.run d (rows ++ more) =
      (((s.run d rows).1.run d more).1, (s.run d rows).2 ++ ((s.run d rows).1.run d more).2) := by
  induction rows generalizing s with
  | nil => rfl
  | cons row rows ih => simp only [List.cons_append, run, ih, List.append_assoc]

theorem run_cons_of_step {s' : ScanState} {row : Csv.Row} {out : List (Except TableError Event)}
    (h : s.step d row = (s', out)) (rows : List (Except Csv.RowFault Csv.Row)) :
    s.run d (.ok row :: rows) = ((s'.run d rows).1, out ++ (s'.run d rows).2) := by
  simp only [run, next, h]

theorem step_cons {cells : List String} (hcells : cells ≠ []) (first : String) (line : Nat) :
    s.step d ⟨first :: cells, line⟩ =
      (s.reach ⟨first :: cells, line⟩ false).blockRow d first cells := by
  cases cells with
  | nil => exact absurd rfl hcells
  | cons cell cells => rfl

/-- The state behind the row of types: a block is open and its row of names is still to come. -/
structure Annotating (s : ScanState) (position : Nat) (columns : List Column) : Prop where
  place : s.position = position
  mode : s.mode = .annotations
  typed : s.typed = true
  block : s.block = some ⟨position, columns⟩

theorem step_dataType (hl : l ≠ [])
    (htyped : ∀ c ∈ l, DataType.ofName? c.typeName = some c.dataType) (hs : s.mode = .data)
    (line : Nat) :
    ∃ s', s.step d ⟨"#datatype" :: l.map typeName, line⟩ = (s', []) ∧
      s'.Annotating s.position
        (l.zipIdx.map fun x => { index := x.2, dataType := x.1.dataType }) := by
  have hset := setTypes_zipIdx htyped (fun x => { index := x.2 }) 0
  have hhead : ("#datatype" : String).toList.head? = some '#' := rfl
  have hfirst : ("#datatype" : String) ≠ "" := by decide
  rw [step_cons (by simpa using hl)]
  simp only [blockRow, reach, hhead, hs, and_self, if_pos, List.length_map, blank_eq_zipIdx,
    List.length_zipIdx, ne_eq, not_true_eq_false, if_false, hfirst, annotationRow, hset]
  exact ⟨_, rfl, rfl, rfl, rfl, rfl⟩

namespace Annotating

variable {position : Nat} {g : Declared × Nat → Column}

theorem step_annotation (h : s.Annotating position (l.zipIdx.map g)) (hl : l ≠ []) {first : String}
    (hfirst : first ≠ "") (cell : Declared → String) (line : Nat) :
    s.step d ⟨first :: l.map cell, line⟩ =
      (s.reach ⟨first :: l.map cell, line⟩ false).annotationRow ⟨position, l.zipIdx.map g⟩ first
        (l.map cell) := by
  rw [step_cons (by simpa using hl)]
  simp [blockRow, reach, h.mode, h.block, hfirst]

theorem step_group (h : s.Annotating position (l.zipIdx.map g)) (hl : l ≠ []) (line : Nat) :
    ∃ s', s.step d ⟨"#group" :: l.map (fun c => toString c.group), line⟩ = (s', []) ∧
      s'.Annotating position (l.zipIdx.map fun x => { g x with group := x.1.group }) := by
  have htrue : ∀ b : Bool, (toString b == "true") = b := by decide
  have hset := setEach_zipIdx (fun c cell => { c with group := cell == "true" }) g
    (fun c => toString c.group) l 0
  simp only [htrue] at hset
  rw [h.step_annotation hl (by decide)]
  simp only [annotationRow, hset, reach]
  exact ⟨_, rfl, h.place, h.mode, h.typed, rfl⟩

theorem step_default (h : s.Annotating position (l.zipIdx.map g)) (hl : l ≠ []) (line : Nat) :
    ∃ s', s.step d ⟨"#default" :: l.map Declared.default, line⟩ = (s', []) ∧
      s'.Annotating position (l.zipIdx.map fun x => { g x with default := x.1.default }) := by
  have hset := setEach_zipIdx (fun c cell => { c with default := cell }) g Declared.default l 0
  rw [h.step_annotation hl (by decide)]
  simp only [annotationRow, hset, reach]
  exact ⟨_, rfl, h.place, h.mode, h.typed, rfl⟩

end Annotating

/-- The state among the records of a table. -/
structure Inside (d : Destinations) (s : ScanState) (l : List Declared) (position : Nat)
    (tableCell : Option String) : Prop where
  place : s.position = position + 1
  mode : s.mode = .data
  block : s.block = some ⟨position, columns d l⟩
  tableCell : s.tableCell = tableCell
  boundary : s.boundary = false

theorem Annotating.step_name {position : Nat}
    (h : s.Annotating position
      (l.zipIdx.map fun x => ⟨x.2, "", x.1.dataType, x.1.group, x.1.default, false⟩))
    (hl : l ≠ []) (hname : ∀ c ∈ l.head?, c.name ≠ "error") (line : Nat) :
    ∃ s', s.step d ⟨"" :: l.map name, line⟩ =
        (s', [.ok (.table ⟨position, columns d l⟩)]) ∧
      Inside d s' l position none ∧ s'.line = line := by
  have herror : (l.map name).head? ≠ some "error" := by
    rw [List.head?_map]
    intro heq
    obtain ⟨c, hc, hcname⟩ := Option.map_eq_some_iff.1 heq
    exact hname c hc hcname
  have hset := setEach_zipIdx
    (fun c cell => { c with name := cell, tag := c.group && !d.contains cell })
    (fun x => ⟨x.2, "", x.1.dataType, x.1.group, x.1.default, false⟩) name l 0
  rw [step_cons (by simpa using hl)]
  simp only [blockRow, reach, h.mode, h.block, nameRow, h.typed, herror, startTable, h.place, hset,
    List.length_map, List.length_zipIdx, ne_eq, not_true_eq_false, if_false, reduceCtorEq,
    and_false, if_true]
  exact ⟨_, rfl, ⟨rfl, rfl, rfl, rfl, rfl⟩, rfl⟩

/-- The four rows that declare the columns of a block. -/
def declaration (l : List Declared) : List (List String) :=
  ["#datatype" :: l.map typeName, "#group" :: l.map fun c => toString c.group,
    "#default" :: l.map Declared.default, "" :: l.map name]

theorem numbered_declaration (e : Csv.LineEnd) (line : Nat) (l : List Declared) :
    ∃ n₁ n₂ n₃ n, Csv.numbered e line (declaration l) =
        [⟨"#datatype" :: l.map typeName, n₁⟩, ⟨"#group" :: l.map fun c => toString c.group, n₂⟩,
          ⟨"#default" :: l.map Declared.default, n₃⟩, ⟨"" :: l.map name, n⟩] ∧
      n + 1 = line + Csv.height (declaration l) + e.own := by
  simp only [declaration, Csv.numbered, reduceCtorEq, if_false, Csv.height]
  exact ⟨_, _, _, _, rfl, by omega⟩

/-- The rows of a declaration start a table, wherever the lines in front of them end. -/
theorem run_declaration (hl : l ≠ [])
    (htyped : ∀ c ∈ l, DataType.ofName? c.typeName = some c.dataType)
    (hname : ∀ c ∈ l.head?, c.name ≠ "error") (hs : s.mode = .data) (e : Csv.LineEnd) (line : Nat) :
    ∃ s', s.run d ((Csv.numbered e line (declaration l)).map .ok) =
        (s', [.ok (.table ⟨s.position, columns d l⟩)]) ∧
      Inside d s' l s.position none ∧
      s'.line + 1 = line + Csv.height (declaration l) + e.own := by
  obtain ⟨n₁, n₂, n₃, n, hrows, hn⟩ := numbered_declaration e line l
  obtain ⟨s₁, hstep₁, h₁⟩ := step_dataType (d := d) hl htyped hs n₁
  obtain ⟨s₂, hstep₂, h₂⟩ := h₁.step_group (d := d) hl n₂
  obtain ⟨s₃, hstep₃, h₃⟩ := h₂.step_default (d := d) hl n₃
  obtain ⟨s', hstep, h, hline⟩ := h₃.step_name (d := d) hl hname n
  refine ⟨s', ?_, h, hline ▸ hn⟩
  simp only [hrows, List.map_cons, List.map_nil]
  rw [run_cons_of_step hstep₁, run_cons_of_step hstep₂, run_cons_of_step hstep₃,
    run_cons_of_step hstep]
  rfl

theorem lineFeeds_eq_feeds (cells : List String) : lineFeeds cells = Csv.feeds cells := by
  have hadd : ∀ n, (cells.map fun c => c.toList.count '\n').foldl (· + ·) n =
      n + Csv.feeds cells := by
    induction cells with
    | nil => exact fun n => rfl
    | cons c cells ih =>
        intro n
        rw [List.map_cons, List.foldl_cons, ih, Csv.feeds, Nat.add_assoc]
  rw [lineFeeds, hadd, Nat.zero_add]

namespace Inside

variable {position line : Nat} {tableCell : Option String} {cells : List String}

theorem step_dataRow (h : Inside d s l position tableCell) (hl : l ≠ [])
    (hlength : cells.length = l.length) :
    s.step d ⟨"" :: cells, line⟩ =
      (s.reach ⟨"" :: cells, line⟩ false).dataRow d ⟨position, columns d l⟩ cells := by
  have hcells : cells ≠ [] := by
    rintro rfl
    exact hl (List.length_eq_zero_iff.1 hlength.symm)
  rw [step_cons hcells]
  simp [blockRow, reach, h.mode, h.block, hlength]

/-- A row right below the last one is the next record of the table. -/
theorem step_same (h : Inside d s l position tableCell) (hl : l ≠ [])
    (hlength : cells.length = l.length) (hread : ∀ e ∈ l.zip cells, (e.1.read e.2).isOk = true)
    (hcell : tableCell = none ∨ tableCell = tableCell? l cells)
    (hline : line ≤ s.line + Csv.feeds ("" :: cells) + 1) :
    ∃ s', s.step d ⟨"" :: cells, line⟩ = (s', [.ok (.record (record d position l cells))]) ∧
      Inside d s' l position (tableCell? l cells) ∧ s'.line = line := by
  have hskip : ¬Csv.feeds ("" :: cells) + 1 < line - s.line := by omega
  rw [h.step_dataRow hl hlength]
  simp only [dataRow, reach, column?_columns_bind d hlength, h.tableCell, h.boundary, h.mode,
    lineFeeds_eq_feeds, hskip, readRecord_columns d hread, decide_false, Bool.or_false,
    Bool.false_and]
  split
  · next before now hnow =>
      -- a cell in front and a cell now, which are the same
      obtain rfl : before = now := by simpa [hnow] using hcell
      simp only [bne_self_eq_false, Bool.false_eq_true, if_false]
      exact ⟨_, rfl, ⟨h.place, rfl, h.block, rfl, rfl⟩, rfl⟩
  · exact ⟨_, rfl, ⟨h.place, rfl, h.block, rfl, rfl⟩, rfl⟩

/-- A row behind a blank line is the first record of the next table. -/
theorem step_next (h : Inside d s l position tableCell) (hl : l ≠ [])
    (hlength : cells.length = l.length) (hread : ∀ e ∈ l.zip cells, (e.1.read e.2).isOk = true)
    (hline : s.line + Csv.feeds ("" :: cells) + 1 < line) :
    ∃ s', s.step d ⟨"" :: cells, line⟩ =
        (s', [.ok (.table ⟨position + 1, columns d l⟩),
          .ok (.record (record d (position + 1) l cells))]) ∧
      Inside d s' l (position + 1) (tableCell? l cells) ∧ s'.line = line := by
  have hskip : Csv.feeds ("" :: cells) + 1 < line - s.line := by omega
  rw [h.step_dataRow hl hlength]
  simp only [dataRow, reach, column?_columns_bind d hlength, h.tableCell, h.boundary, h.mode,
    lineFeeds_eq_feeds, hskip, startTable, h.place, readRecord_columns d hread, decide_true,
    Bool.or_false, Bool.or_true, Bool.true_and, if_true]
  exact ⟨_, rfl, ⟨rfl, rfl, rfl, rfl, rfl⟩, rfl⟩

end Inside

end ScanState

end TimeSeries
