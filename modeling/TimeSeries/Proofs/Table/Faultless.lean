import TimeSeries.Proofs.Table.Scan

/-!
# Responses without a fault

What can be said of a row is much more when it is known that nothing is wrong with the response. A
failed query is not left again, so it is reported at the latest at the end. Therefore a row of
annotations is followed by annotations, and a row whose first cell is empty by data rows.

`Among` is the state among the data rows of a block with some column names. A data row brings a
record, behind a table or not, and `Among.step_dataRow` says which of both it is when the cell of
the column `table` has not changed.
-/

namespace TimeSeries

/-- Results without a fault. -/
def Clean (results : List (Except TableError Event)) : Prop :=
  ∃ events : List Event, results = events.map .ok

theorem clean_append_iff {results more : List (Except TableError Event)} :
    Clean (results ++ more) ↔ Clean results ∧ Clean more := by
  constructor
  · rintro ⟨events, heq⟩
    obtain ⟨front, back, -, rfl, rfl⟩ := List.append_eq_map_iff.1 heq
    exact ⟨⟨front, rfl⟩, ⟨back, rfl⟩⟩
  · rintro ⟨⟨front, rfl⟩, ⟨back, rfl⟩⟩
    exact ⟨front ++ back, List.map_append.symm⟩

theorem eq_of_map_ok {events more : List Event}
    (h : (events.map .ok : List (Except TableError Event)) = more.map .ok) : events = more :=
  List.map_injective_iff.2 (fun _ _ => Except.ok.inj) h

theorem not_clean_error (e : TableError) : ¬Clean [.error e] := by
  rintro ⟨events, heq⟩
  cases events <;> cases heq

/-- The columns are numbered from left to right. -/
def Ordered (columns : List Column) : Prop :=
  columns.map Column.index = List.range columns.length

theorem Ordered.of_map_index {columns more : List Column} (h : Ordered columns)
    (hindex : more.map Column.index = columns.map Column.index) : Ordered more := by
  have hlength : more.length = columns.length := by
    simpa using congrArg List.length hindex
  rw [Ordered, hindex, hlength]
  exact h

theorem ordered_blank (position width : Nat) :
    Ordered (TableHead.blank position width).columns := by
  simp [Ordered, TableHead.blank, Function.comp_def]

theorem map_index_setEach {f : Column → String → Column} (hf : ∀ c cell, (f c cell).index = c.index)
    (columns : List Column) (cells : List String) :
    (setEach f columns cells).map Column.index = columns.map Column.index := by
  induction columns generalizing cells with
  | nil => cases cells <;> rfl
  | cons c columns ih =>
      cases cells with
      | nil => rfl
      | cons cell cells => rw [setEach, List.map_cons, List.map_cons, hf, ih]

theorem map_index_setTypes (columns : List Column) (cells : List String) :
    (setTypes columns cells).1.map Column.index = columns.map Column.index := by
  induction columns generalizing cells with
  | nil => cases cells <;> rfl
  | cons c columns ih =>
      cases cells with
      | nil => rfl
      | cons cell cells =>
          rw [setTypes]
          split
          · rw [List.map_cons, List.map_cons, ih]
          · rfl

theorem map_name_setEach {f : Column → String → Column} (hf : ∀ c cell, (f c cell).name = cell)
    {columns : List Column} {cells : List String} (hlength : cells.length = columns.length) :
    (setEach f columns cells).map Column.name = cells := by
  induction columns generalizing cells with
  | nil =>
      obtain rfl : cells = [] := by simpa using hlength
      rfl
  | cons c columns ih =>
      cases cells with
      | nil => cases hlength
      | cons cell cells => rw [setEach, List.map_cons, hf, ih (by simpa using hlength)]

/-- Among columns that are numbered from `n` on, the cell of the first one with a name stands where
the name does. -/
theorem find?_bind_getElem? {columns : List Column} {n : Nat}
    (hindex : columns.map Column.index = List.range' n columns.length) {cells : List String}
    (hlength : cells.length = n + columns.length) (name : String) :
    ((columns.find? fun c => c.name = name).bind fun c => cells[c.index]?) =
      cells[n + (columns.map Column.name).idxOf name]? := by
  induction columns generalizing n with
  | nil => simp [hlength]
  | cons c columns ih =>
      rw [List.map_cons, List.length_cons, List.range'_succ] at hindex
      obtain ⟨hc, hrest⟩ := List.cons.inj hindex
      by_cases hname : c.name = name
      · simp [hname, hc]
      · have hlater := ih hrest (by rw [hlength, List.length_cons]; omega)
        rw [List.find?_cons_of_neg (by simpa using hname), hlater, List.map_cons,
          List.idxOf_cons_ne _ hname]
        congr 1
        omega

/-- In a block the cell of the first column with a name stands where the name does. -/
theorem Ordered.find?_bind {columns : List Column} (h : Ordered columns) {cells : List String}
    (hlength : cells.length = columns.length) (name : String) :
    ((columns.find? fun c => c.name = name).bind fun c => cells[c.index]?) =
      cells[(columns.map Column.name).idxOf name]? := by
  have hindex : columns.map Column.index = List.range' 0 columns.length := by
    rw [h, List.range_eq_range']
  have hfind := find?_bind_getElem? hindex (hlength.trans (Nat.zero_add _).symm) name
  rwa [Nat.zero_add] at hfind

namespace ScanState

variable {d : Destinations} {s : ScanState}

/-- The state in front of a row of a block. A row of annotations among data rows opens a block. -/
def opened (s : ScanState) (first : String) (cells : List String) : ScanState :=
  if first.toList.head? = some '#' ∧ s.mode = .data then
    { s with
      block := some (TableHead.blank s.position cells.length)
      mode := .annotations
      typed := false }
  else s

theorem opened_empty (s : ScanState) (cells : List String) : s.opened "" cells = s :=
  if_neg (by simp)

theorem opened_of_mode_ne (h : s.mode ≠ .data) (first : String) (cells : List String) :
    s.opened first cells = s :=
  if_neg fun hboth => h hboth.2

theorem mode_opened {first : String} (hfirst : first.toList.head? = some '#') {cells : List String}
    (hmode : (s.opened first cells).mode ≠ .failed) :
    (s.opened first cells).mode = .annotations := by
  by_cases hdata : s.mode = .data
  · exact congrArg ScanState.mode (if_pos ⟨hfirst, hdata⟩)
  · rw [opened_of_mode_ne hdata] at hmode ⊢
    cases hs : s.mode with
    | data => exact absurd hs hdata
    | annotations => rfl
    | failed => exact absurd hs hmode

/-- What a row of a block that brings no fault is. -/
theorem blockRow_of_clean {first : String} {cells : List String}
    (hclean : Clean (s.blockRow d first cells).2) :
    ∃ h, (s.opened first cells).block = some h ∧ cells.length = h.columns.length ∧
      (first = "" ∧ s.mode = .annotations ∧ s.blockRow d first cells = s.nameRow d h cells ∨
        first = "" ∧ s.mode = .data ∧ s.blockRow d first cells = s.dataRow d h cells ∨
        first ≠ "" ∧ s.blockRow d first cells =
          (s.opened first cells).annotationRow h first cells) := by
  rw [blockRow, ← opened] at hclean ⊢
  cases hblock : (s.opened first cells).block with
  | none =>
      rw [hblock] at hclean
      exact absurd hclean (not_clean_error _)
  | some h =>
      simp only [hblock] at hclean
      by_cases hwidth : cells.length = h.columns.length
      · refine ⟨h, rfl, hwidth, ?_⟩
        simp only [hwidth, ne_eq, not_true_eq_false, if_false] at hclean ⊢
        by_cases hfirst : first = ""
        · subst hfirst
          rw [opened_empty] at hclean ⊢
          cases hmode : s.mode with
          | annotations => exact .inl ⟨rfl, rfl, by simp⟩
          | data => exact .inr (.inl ⟨rfl, rfl, by simp⟩)
          | failed =>
              simp only [hmode, if_true] at hclean
              exact absurd hclean (not_clean_error _)
        · exact .inr (.inr ⟨hfirst, if_neg hfirst⟩)
      · simp only [hwidth, ne_eq, not_false_eq_true, if_true] at hclean
        exact absurd hclean (not_clean_error _)

/-- A row of annotations sets a part of each column of the block. -/
theorem annotationRow_of_clean {h : TableHead} {first : String} {cells : List String}
    (hclean : Clean (s.annotationRow h first cells).2) :
    (s.annotationRow h first cells).1.mode = s.mode ∧
      ∃ columns, (s.annotationRow h first cells).1.block = some { h with columns := columns } ∧
        columns.map Column.index = h.columns.map Column.index := by
  rw [annotationRow] at hclean ⊢
  split
  · exact ⟨rfl, _, rfl, map_index_setTypes _ _⟩
  · split
    · exact ⟨rfl, _, rfl, map_index_setEach (fun _ _ => by rfl) _ _⟩
    · split
      · exact ⟨rfl, _, rfl, map_index_setEach (fun _ _ => by rfl) _ _⟩
      · next hdatatype hgroup hdefault =>
          rw [if_neg hdatatype, if_neg hgroup, if_neg hdefault] at hclean
          exact absurd hclean (not_clean_error _)

/-- A row of names begins the data rows of a block, or the report of a failed query. -/
theorem nameRow_of_clean {h : TableHead} {cells : List String}
    (hclean : Clean (s.nameRow d h cells).2) (hlength : cells.length = h.columns.length) :
    (s.nameRow d h cells).1 = { s with mode := .failed } ∨
      (s.nameRow d h cells).1.mode = .data ∧
        ∃ position columns,
          (s.nameRow d h cells).1.block = some ⟨position, columns⟩ ∧
            columns.map Column.index = h.columns.map Column.index ∧
              columns.map Column.name = cells := by
  rw [nameRow] at hclean ⊢
  split
  · next htyped =>
      rw [if_pos htyped] at hclean
      exact absurd hclean (not_clean_error _)
  · split
    · exact .inl rfl
    · exact .inr ⟨rfl, _, _, rfl, map_index_setEach (fun _ _ => by rfl) _ _,
        map_name_setEach (fun _ _ => by rfl) hlength⟩

/-- The cell of the column `table` is not the one of the last data row. -/
def changes (s : ScanState) (cell : Option String) : Bool :=
  match s.tableCell, cell with
  | some before, some now => before != now
  | _, _ => false

theorem changes_of_eq {cell : Option String} (h : s.tableCell = cell) : s.changes cell = false := by
  cases cell <;> simp [changes, h]

theorem changes_none (s : ScanState) : s.changes none = false := by
  cases htable : s.tableCell <;> simp [changes, htable]

theorem changes_congr {t : ScanState} (h : t.tableCell = s.tableCell) (cell : Option String) :
    t.changes cell = s.changes cell := by
  simp only [changes, h]

theorem eq_of_changes_eq_false {cell : Option String} (h : s.changes cell = false)
    (hsome : s.tableCell.isSome = cell.isSome) : s.tableCell = cell := by
  cases htable : s.tableCell <;> cases cell <;> simp_all [changes]

/-- The state behind a data row. -/
structure BehindRow (s s' : ScanState) (h : TableHead) (cell : Option String) : Prop where
  mode : s'.mode = s.mode
  block : ∃ position, s'.block = some { h with position := position }
  tableCell : s'.tableCell = cell
  boundary : s'.boundary = false
  line : s'.line = s.line

/-- What a record brings behind these tables, if it can be read. -/
def brings (s : ScanState) (heads : List TableHead) :
    Except TableError Record → ScanState × List (Except TableError Event)
  | .ok r => (s, (heads.map Event.table ++ [Event.record r]).map .ok)
  | .error e => (s, [.error e])

theorem brings_of_clean {heads : List TableHead} {result : Except TableError Record}
    (hclean : Clean (s.brings heads result).2) :
    ∃ r, s.brings heads result = (s, (heads.map Event.table ++ [Event.record r]).map .ok) := by
  cases result with
  | ok r => exact ⟨r, rfl⟩
  | error e => exact absurd hclean (not_clean_error e)

theorem dataRow_eq_brings (d : Destinations) (s : ScanState) {h : TableHead} {cells : List String}
    {cell : Option String} (hcell : ((h.column? "table").bind fun c => cells[c.index]?) = cell) :
    s.dataRow d h cells =
      let quiet := { s with tableCell := cell, boundary := false }
      let started := quiet.startTable h
      if s.changes cell || s.boundary then
        started.1.brings [started.2] (readRecord d started.2 cells)
      else quiet.brings [] (readRecord d h cells) := by
  subst hcell
  rfl

/-- A data row brings a record. With the same cell in the column `table` as the row in front of it,
it starts a table only behind a blank line. -/
theorem dataRow_of_clean {h : TableHead} {cells : List String} (hblock : s.block = some h)
    {cell : Option String} (hcell : ((h.column? "table").bind fun c => cells[c.index]?) = cell)
    (hclean : Clean (s.dataRow d h cells).2) :
    BehindRow s (s.dataRow d h cells).1 h cell ∧
      ∃ heads r, (s.dataRow d h cells).2 = (heads.map Event.table ++ [Event.record r]).map .ok ∧
        (s.tableCell = cell → (heads ≠ [] ↔ s.boundary = true)) := by
  rw [dataRow_eq_brings d s hcell] at hclean ⊢
  simp only at hclean ⊢
  by_cases hstarts : (s.changes cell || s.boundary) = true
  · rw [if_pos hstarts] at hclean ⊢
    obtain ⟨r, hout⟩ := brings_of_clean hclean
    rw [hout]
    refine ⟨⟨rfl, ⟨_, rfl⟩, rfl, rfl, rfl⟩, [_], r, rfl, fun hsame => ?_⟩
    simpa [changes_of_eq hsame] using hstarts
  · rw [if_neg hstarts] at hclean ⊢
    obtain ⟨r, hout⟩ := brings_of_clean hclean
    rw [hout]
    refine ⟨⟨rfl, ⟨_, hblock⟩, rfl, rfl, rfl⟩, [], r, rfl, fun _ => ?_⟩
    simp only [Bool.or_eq_true, not_or] at hstarts
    simp [hstarts.2]

theorem step_blank {cells : List String} (h : cells = [""]) (line : Nat) :
    s.step d ⟨cells, line⟩ = (s.reach ⟨cells, line⟩ true, []) := by
  subst h
  rfl

/-- A row that brings no fault is a blank one or belongs to a block. -/
theorem step_of_clean {row : Csv.Row} (hclean : Clean (s.step d row).2) :
    s.step d row = (s.reach row true, []) ∨
      ∃ first cells, row.cells = first :: cells ∧
        s.step d row = (s.reach row false).blockRow d first cells := by
  obtain ⟨cells, line⟩ := row
  cases cells with
  | nil => exact .inl rfl
  | cons first cells =>
      by_cases hcells : cells = []
      · subst hcells
        by_cases hfirst : first = ""
        · exact .inl (step_blank (by rw [hfirst]) line)
        · have herror : s.step d ⟨[first], line⟩ =
              (s.reach ⟨[first], line⟩ false, [.error (.singleCell first)]) := if_neg hfirst
          rw [herror] at hclean
          exact absurd hclean (not_clean_error _)
      · exact .inr ⟨first, cells, rfl, step_cons hcells first line⟩

/-- The columns of the block are numbered from left to right. -/
def Numbered (s : ScanState) : Prop := ∀ h, s.block = some h → Ordered h.columns

theorem Numbered.opened (hs : s.Numbered) (first : String) (cells : List String) :
    (s.opened first cells).Numbered := by
  rw [ScanState.opened]
  split
  · rintro h heq
    obtain rfl := Option.some.inj heq
    exact ordered_blank _ _
  · exact hs

theorem Numbered.blockRow {first : String} {cells : List String} (hs : s.Numbered)
    (hclean : Clean (s.blockRow d first cells).2) : (s.blockRow d first cells).1.Numbered := by
  obtain ⟨h, hblock, hlength, hrow⟩ := blockRow_of_clean hclean
  have hordered := hs.opened first cells h hblock
  rcases hrow with ⟨rfl, -, hrow⟩ | ⟨rfl, -, hrow⟩ | ⟨-, hrow⟩ <;> rw [hrow] at hclean ⊢
  · rw [opened_empty] at hblock
    rcases nameRow_of_clean hclean hlength with hfailed | ⟨-, position, columns, hnew, hindex, -⟩
    · rw [hfailed]
      exact hs
    · intro k hk
      obtain rfl := Option.some.inj (hnew.symm.trans hk)
      exact hordered.of_map_index hindex
  · rw [opened_empty] at hblock
    obtain ⟨position, hnew⟩ := (dataRow_of_clean hblock rfl hclean).1.block
    intro k hk
    obtain rfl := Option.some.inj (hnew.symm.trans hk)
    exact hordered
  · obtain ⟨-, columns, hnew, hindex⟩ := annotationRow_of_clean hclean
    intro k hk
    obtain rfl := Option.some.inj (hnew.symm.trans hk)
    exact hordered.of_map_index hindex

theorem Numbered.step {row : Csv.Row} (hs : s.Numbered) (hclean : Clean (s.step d row).2) :
    (s.step d row).1.Numbered := by
  rcases step_of_clean hclean with hrow | ⟨first, cells, -, hrow⟩ <;> rw [hrow] at hclean ⊢
  · exact hs
  · exact Numbered.blockRow hs hclean

/-- A failed query is not left again. -/
theorem mode_step_of_failed {row : Csv.Row} (hs : s.mode = .failed)
    (hclean : Clean (s.step d row).2) : (s.step d row).1.mode = .failed := by
  rcases step_of_clean hclean with hrow | ⟨first, cells, -, hrow⟩ <;> rw [hrow] at hclean ⊢
  · exact hs
  · have hreach : (s.reach row false).mode = .failed := hs
    obtain ⟨h, -, -, hrow | hrow | hrow⟩ := blockRow_of_clean hclean
    · rw [hreach] at hrow
      cases hrow.2.1
    · rw [hreach] at hrow
      cases hrow.2.1
    · rw [hrow.2] at hclean ⊢
      rw [(annotationRow_of_clean hclean).1, opened_of_mode_ne (by rw [hreach]; decide)]
      exact hreach

theorem run_invariant {P : ScanState → Prop}
    (hstep : ∀ s row, P s → Clean (s.step d row).2 → P (s.step d row).1)
    {rows : List (Except Csv.RowFault Csv.Row)} (hs : P s) (hclean : Clean (s.run d rows).2) :
    P (s.run d rows).1 := by
  induction rows generalizing s with
  | nil => exact hs
  | cons row rows ih =>
      obtain ⟨hrow, hrows⟩ := clean_append_iff.1 hclean
      cases row with
      | ok row => exact ih (hstep s row hs hrow) hrows
      | error fault => exact absurd hrow (not_clean_error _)

/-- The state among the data rows of a block with these column names. -/
structure Among (s : ScanState) (names : List String) : Prop where
  mode : s.mode = .data
  block : ∃ h, s.block = some h ∧ Ordered h.columns ∧ h.columns.map Column.name = names

/-- Behind a row of annotations stand more of them. -/
theorem mode_step_annotation {first : String} {cells : List String} (hcells : cells ≠ [])
    (hfirst : first.toList.head? = some '#') {line : Nat}
    (hclean : Clean (s.step d ⟨first :: cells, line⟩).2)
    (hmode : (s.step d ⟨first :: cells, line⟩).1.mode ≠ .failed) :
    (s.step d ⟨first :: cells, line⟩).1.mode = .annotations := by
  rw [step_cons hcells] at hclean hmode ⊢
  have hne : first ≠ "" := by
    rintro rfl
    cases hfirst
  obtain ⟨h, -, -, hrow⟩ := blockRow_of_clean hclean
  obtain ⟨-, hrow⟩ := (hrow.resolve_left fun hno => hne hno.1).resolve_left fun hno => hne hno.1
  rw [hrow] at hclean hmode ⊢
  rw [(annotationRow_of_clean hclean).1] at hmode ⊢
  exact mode_opened hfirst hmode

/-- Behind a row of names stand the data rows of a block with these names. -/
theorem among_step_names {names : List String} (hnames : names ≠ []) (hs : s.mode = .annotations)
    (hnumbered : s.Numbered) {line : Nat} (hclean : Clean (s.step d ⟨"" :: names, line⟩).2)
    (hmode : (s.step d ⟨"" :: names, line⟩).1.mode ≠ .failed) :
    (s.step d ⟨"" :: names, line⟩).1.Among names := by
  rw [step_cons hnames] at hclean hmode ⊢
  obtain ⟨t, ht⟩ : ∃ t, t = s.reach ⟨"" :: names, line⟩ false := ⟨_, rfl⟩
  have htmode : t.mode = .annotations := ht ▸ hs
  have htblock : t.block = s.block := ht ▸ rfl
  rw [← ht] at hclean hmode ⊢
  obtain ⟨h, hblock, hlength, hrow⟩ := blockRow_of_clean hclean
  rw [opened_empty] at hblock
  rcases hrow with ⟨-, -, hrow⟩ | ⟨-, hdata, -⟩ | ⟨hne, -⟩
  · rw [hrow] at hclean hmode ⊢
    rcases nameRow_of_clean hclean hlength with
      hfailed | ⟨hdata, position, columns, hnew, hindex, hname⟩
    · rw [hfailed] at hmode
      exact absurd rfl hmode
    · have hordered := hnumbered h (htblock ▸ hblock)
      exact ⟨hdata, _, hnew, hordered.of_map_index hindex, hname⟩
  · rw [htmode] at hdata
    cases hdata
  · exact absurd rfl hne

/-- A data row brings a record, and a table in front of it if the cell of the column `table` has
changed or a blank line has been passed. -/
theorem Among.step_dataRow {names cells : List String} (hs : s.Among names) (hcells : cells ≠ [])
    {line : Nat} (hclean : Clean (s.step d ⟨"" :: cells, line⟩).2) :
    let s' := (s.step d ⟨"" :: cells, line⟩).1
    s'.Among names ∧ s'.tableCell = cells[names.idxOf "table"]? ∧ s'.boundary = false ∧
      s'.line = line ∧
      ∃ heads r,
        (s.step d ⟨"" :: cells, line⟩).2 = (heads.map Event.table ++ [Event.record r]).map .ok ∧
          (s.tableCell = cells[names.idxOf "table"]? →
            (heads ≠ [] ↔
              s.boundary = true ∨ Csv.feeds ("" :: cells) + 1 < line - s.line)) := by
  obtain ⟨h, hblock, hordered, hname⟩ := hs.block
  rw [step_cons hcells] at hclean ⊢
  obtain ⟨t, ht⟩ : ∃ t, t = s.reach ⟨"" :: cells, line⟩ false := ⟨_, rfl⟩
  have htmode : t.mode = .data := ht ▸ hs.mode
  have htblock : t.block = some h := ht ▸ hblock
  rw [← ht] at hclean ⊢
  obtain ⟨k, hk, hlength, hrow⟩ := blockRow_of_clean hclean
  obtain rfl : h = k := by
    rw [opened_empty, htblock] at hk
    exact Option.some.inj hk
  rcases hrow with ⟨-, hannotations, -⟩ | ⟨-, -, hrow⟩ | ⟨hne, -⟩
  · rw [htmode] at hannotations
    cases hannotations
  · rw [hrow] at hclean ⊢
    have hcell : ((h.column? "table").bind fun c => cells[c.index]?) =
        cells[names.idxOf "table"]? :=
      hname ▸ hordered.find?_bind hlength "table"
    obtain ⟨hbehind, heads, r, hout, hheads⟩ := dataRow_of_clean htblock hcell hclean
    obtain ⟨position, hnew⟩ := hbehind.block
    have hboundary : t.boundary = true ↔
        s.boundary = true ∨ Csv.feeds ("" :: cells) + 1 < line - s.line := by
      simp [ht, reach, hs.mode, lineFeeds_eq_feeds]
    refine ⟨⟨hbehind.mode.trans htmode, _, hnew, hordered, hname⟩, hbehind.tableCell,
      hbehind.boundary, hbehind.line.trans (ht ▸ rfl), heads, r, hout, fun hsame => ?_⟩
    exact (hheads (ht ▸ hsame)).trans hboundary
  · exact absurd rfl hne

end ScanState

end TimeSeries
