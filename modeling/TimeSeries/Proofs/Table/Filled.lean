import TimeSeries.Proofs.Table.Decoding
import TimeSeries.Proofs.Table.Malformed

/-!
# Rows with empty cells filled in

An empty cell stands for the default of its column. So two responses that differ in nothing else
than empty cells of data rows, which the other one spells out, hold the same records. What they need
not have in common are the places where tables start, since those are found by the cells as they
are.

The two are read side by side. `Twin` is what their states have in common, whatever has been filled
in. `Twin.step` says what one row does to it: both readers tell the same records, and as long as
tables start behind the same rows, they tell the same of them.
-/

namespace TimeSeries

/-- Cells of these columns in which empty ones are replaced by the defaults of columns that may be
filled in. -/
inductive Filled (may : Column → Prop) : List Column → List String → List String → Prop where
  | nil : Filled may [] [] []
  | kept {c : Column} {columns : List Column} {cell : String} {cells filled : List String} :
    Filled may columns cells filled → Filled may (c :: columns) (cell :: cells) (cell :: filled)
  | filled {c : Column} {columns : List Column} {cells filled : List String} :
    may c → Filled may columns cells filled →
      Filled may (c :: columns) ("" :: cells) (c.default :: filled)

section Cells

variable {may : Column → Prop} {columns : List Column} {cells filled : List String}
  {d : Destinations} {h k : TableHead} {r : Record}

theorem Filled.refl (hlength : cells.length = columns.length) : Filled may columns cells cells := by
  induction columns generalizing cells with
  | nil =>
      obtain rfl := List.length_eq_zero_iff.1 hlength
      exact .nil
  | cons c columns ih =>
      cases cells with
      | nil => cases hlength
      | cons cell cells => exact .kept (ih (Nat.succ.inj hlength))

theorem Filled.mono {later : Column → Prop} (h : Filled may columns cells filled)
    (hmay : ∀ c, may c → later c) : Filled later columns cells filled := by
  induction h with
  | nil => exact .nil
  | kept _ ih => exact .kept ih
  | filled hc _ ih => exact .filled (hmay _ hc) ih

theorem Filled.length_eq (h : Filled may columns cells filled) :
    filled.length = cells.length := by
  induction h with
  | nil => rfl
  | kept _ ih | filled _ _ ih => exact congrArg Nat.succ ih

theorem Column.read_default (c : Column) : c.read c.default = c.read "" := by
  have htext : c.textOf c.default = c.textOf "" := by
    by_cases hdefault : c.default = "" <;> simp [Column.textOf, hdefault]
  rw [Column.read, htext, Column.read]

/-- A cell that is filled in is read as the empty cell. -/
theorem Filled.readCells_eq (h : Filled may columns cells filled) :
    readCells columns filled = readCells columns cells := by
  induction h with
  | nil => rfl
  | kept _ ih => rw [readCells, readCells, ih]
  | filled _ _ ih => rw [readCells, readCells, ih, Column.read_default]

theorem readRecord_of_columns (hcolumns : k.columns = h.columns)
    (hread : readCells h.columns filled = readCells h.columns cells)
    (hrecord : readRecord d h cells = .ok r) :
    readRecord d k filled = .ok { r with table := k.position } := by
  rw [readRecord, hcolumns, hread]
  cases hcells : readCells h.columns cells with
  | ok read =>
      simp only [readRecord, hcells] at hrecord
      obtain rfl := Except.ok.inj hrecord
      rfl
  | error e =>
      simp only [readRecord, hcells] at hrecord
      cases hrecord

theorem Filled.getElem? (h : Filled may columns cells filled) (i : Nat) :
    filled[i]? = cells[i]? ∨
      ∃ c, columns[i]? = some c ∧ may c ∧ cells[i]? = some "" ∧ filled[i]? = some c.default := by
  induction h generalizing i with
  | nil => exact .inl rfl
  | kept _ ih =>
      cases i with
      | zero => exact .inl rfl
      | succ i => exact ih i
  | @filled c _ _ _ hc _ ih =>
      cases i with
      | zero => exact .inr ⟨c, rfl, hc, rfl, rfl⟩
      | succ i => exact ih i

theorem Ordered.getElem?_index {c : Column} (h : Ordered columns) (hc : c ∈ columns) :
    columns[c.index]? = some c := by
  obtain ⟨i, hi⟩ := List.mem_iff_getElem?.1 hc
  have hindex : (columns.map Column.index)[i]? = some c.index := by
    rw [List.getElem?_map, hi]
    rfl
  rw [h, List.getElem?_range (List.getElem?_eq_some_iff.1 hi).1] at hindex
  rwa [← Option.some.inj hindex]

/-- The cell that tells tables apart stays as it is if it is not filled in, or with nothing. -/
theorem Filled.tableCell?_eq (hfilled : Filled may h.columns cells filled)
    (hordered : Ordered h.columns)
    (hmay : ∀ c, may c → h.column? "table" = some c → c.default = "") :
    h.tableCell? filled = h.tableCell? cells := by
  rw [TableHead.tableCell?, TableHead.tableCell?]
  cases htable : h.column? "table" with
  | none => rfl
  | some c =>
      rcases hfilled.getElem? c.index with hsame | ⟨c', hc', hmayc, hcell, hdefault⟩
      · exact hsame
      · have hc := hordered.getElem?_index (List.mem_of_find?_eq_some htable)
        obtain rfl := Option.some.inj (hc.symm.trans hc')
        rw [hmay c hmayc htable] at hdefault
        exact hdefault.trans hcell.symm

end Cells

section Events

/-- The records among events, each with the columns of its table and without the number of it. -/
def looseFrom : List Column → List Event → List (List Column × Record)
  | _, [] => []
  | _, .table h :: rest => looseFrom h.columns rest
  | columns, .record r :: rest => (columns, { r with table := 0 }) :: looseFrom columns rest

/-- The columns of the last table among events, behind a table that was there before. -/
def lastColumns : List Column → List Event → List Column
  | columns, [] => columns
  | _, .table h :: rest => lastColumns h.columns rest
  | columns, .record _ :: rest => lastColumns columns rest

/-- Which of the events are tables. -/
def tableMarks : List Event → List Bool
  | [] => []
  | .table _ :: rest => true :: tableMarks rest
  | .record _ :: rest => false :: tableMarks rest

theorem looseFrom_append (columns : List Column) (events more : List Event) :
    looseFrom columns (events ++ more) =
      looseFrom columns events ++ looseFrom (lastColumns columns events) more := by
  induction events generalizing columns with
  | nil => rfl
  | cons e events ih =>
      cases e with
      | table h => exact ih h.columns
      | record r => exact congrArg (_ :: ·) (ih columns)

theorem tableMarks_append (events more : List Event) :
    tableMarks (events ++ more) = tableMarks events ++ tableMarks more := by
  induction events with
  | nil => rfl
  | cons e events ih => cases e <;> exact congrArg (_ :: ·) ih

/-- The records of all tables, each with the columns of its table and without the number of it. -/
def Decoded.loose (x : Decoded) : List (List Column × Record) :=
  x.tables.flatMap fun t => t.records.map fun r => (t.head.columns, { r with table := 0 })

/-- How many records the tables have. -/
def Decoded.sizes (x : Decoded) : List Nat := x.tables.map fun t => t.records.length

theorem looseFrom_eq_gather (columns : List Column) (events : List Event) :
    looseFrom columns events =
      (gather events).1.map (fun r => (columns, { r with table := 0 })) ++
        (gather events).2.flatMap fun t =>
          t.records.map fun r => (t.head.columns, { r with table := 0 }) := by
  induction events generalizing columns with
  | nil => rfl
  | cons e events ih =>
      cases e with
      | table h => exact ih h.columns
      | record r => exact congrArg (_ :: ·) (ih columns)

theorem tableMarks_eq_gather (events : List Event) :
    tableMarks events =
      List.replicate (gather events).1.length false ++
        ((gather events).2.map fun t => t.records.length).flatMap fun n =>
          true :: List.replicate n false := by
  induction events with
  | nil => rfl
  | cons e events ih =>
      cases e with
      | table h => exact congrArg (true :: ·) ih
      | record r => exact congrArg (false :: ·) ih

end Events

namespace ScanState

variable {d : Destinations} {s t : ScanState} {row row' : Csv.Row} {first : String}
  {cells : List String} {h k : TableHead} {level : Prop} {events : List Event}

/-- The cells of the other row are the same, or empty ones of a data row have been filled in. -/
inductive Fills (s : ScanState) (row row' : Csv.Row) : Prop where
  | same : row'.cells = row.cells → Fills s row row'
  | filled {h : TableHead} {cells filled : List String} :
    s.Fits row "" cells h → s.mode = .data → row'.cells = "" :: filled →
      Filled (fun _ => True) h.columns cells filled → Fills s row row'

/-- The states of two readers in the same kind of row of blocks with the same columns. Readers that
are level have also started the same number of tables. -/
structure Twin (level : Prop) (s t : ScanState) : Prop where
  mode : t.mode = s.mode
  typed : t.typed = s.typed
  columns : t.block.map TableHead.columns = s.block.map TableHead.columns
  position : level → t.position = s.position
  block : level → t.block = s.block

theorem Twin.of_imp {later : Prop} (twin : Twin level s t) (hlater : later → level) :
    Twin later s t :=
  ⟨twin.mode, twin.typed, twin.columns, fun hl => twin.position (hlater hl),
    fun hl => twin.block (hlater hl)⟩

theorem Twin.exists_block (twin : Twin level s t) (hblock : s.block = some h) :
    ∃ k, t.block = some k ∧ k.columns = h.columns ∧ (level → k = h) := by
  have hcolumns := twin.columns
  rw [hblock] at hcolumns
  obtain ⟨k, hk, hsame⟩ := Option.map_eq_some_iff.1 hcolumns
  refine ⟨k, hk, hsame, fun hlevel => Option.some.inj ?_⟩
  rw [← hk, twin.block hlevel, hblock]

theorem Twin.reach (twin : Twin level s t) (row row' : Csv.Row) (blank : Bool) :
    Twin level (s.reach row blank) (t.reach row' blank) :=
  ⟨twin.mode, twin.typed, twin.columns, twin.position, twin.block⟩

theorem Twin.opened (twin : Twin level s t) (first : String) {cells filled : List String}
    (hlength : filled.length = cells.length) :
    Twin level (s.opened first cells) (t.opened first filled) := by
  rw [ScanState.opened, ScanState.opened, twin.mode, hlength]
  split
  · exact ⟨rfl, rfl, rfl, twin.position, fun hlevel => by rw [twin.position hlevel]⟩
  · exact twin

theorem Twin.exists_fits (twin : Twin level s t) (fits : s.Fits row first cells h)
    {filled : List String} (hrow' : row'.cells = first :: filled)
    (hlength : filled.length = cells.length) :
    ∃ k, t.Fits row' first filled k ∧ k.columns = h.columns ∧ (level → k = h) := by
  obtain ⟨k, hblock, hcolumns, hlevel⟩ :=
    ((twin.reach row row' false).opened first hlength).exists_block fits.block
  refine ⟨k, ⟨hrow', ?_, hblock, ?_⟩, hcolumns, hlevel⟩
  · rintro rfl
    exact fits.ne_nil (List.length_eq_zero_iff.1 hlength.symm)
  · rw [hlength, fits.width, hcolumns]

/-- A row of annotations brings the same and sets the same parts of the columns. -/
theorem Twin.annotationRow (twin : Twin level s t) (hcolumns : k.columns = h.columns)
    (hlevel : level → k = h) (first : String) (cells : List String) :
    (t.annotationRow k first cells).2 = (s.annotationRow h first cells).2 ∧
      Twin level (s.annotationRow h first cells).1 (t.annotationRow k first cells).1 := by
  obtain ⟨p, columns⟩ := h
  obtain ⟨q, others⟩ := k
  obtain rfl : others = columns := hcolumns
  have hposition : ∀ later : List Column,
      level → some (⟨q, later⟩ : TableHead) = some ⟨p, later⟩ := by
    intro later hl
    obtain rfl : q = p := congrArg TableHead.position (hlevel hl)
    rfl
  rw [ScanState.annotationRow, ScanState.annotationRow]
  split
  · exact ⟨rfl, twin.mode, rfl, rfl, twin.position, hposition _⟩
  · split
    · exact ⟨rfl, twin.mode, twin.typed, rfl, twin.position, hposition _⟩
    · split
      · exact ⟨rfl, twin.mode, twin.typed, rfl, twin.position, hposition _⟩
      · exact ⟨rfl, twin⟩

/-- Among data rows the current table has these columns. -/
def Shows (s : ScanState) (columns : List Column) : Prop :=
  s.mode = .data → ∀ h, s.block = some h → h.columns = columns

/-- What two readers tell of a row, and where they stand behind it. Their events are the same as
long as the same ones of them are tables. -/
structure Echo (level : Prop) (before s t : ScanState) (events echoed : List Event) : Prop where
  twin : Twin (level ∧ tableMarks echoed = tableMarks events) s t
  eq : level → tableMarks echoed = tableMarks events → echoed = events
  aligned : ∀ marks more, tableMarks echoed ++ marks = tableMarks events ++ more →
    tableMarks echoed = tableMarks events
  loose : ∀ columns, before.Shows columns →
    looseFrom columns echoed = looseFrom columns events ∧
      lastColumns columns echoed = lastColumns columns events ∧
        s.Shows (lastColumns columns events)

/-- A row that brings no event. -/
theorem Twin.echo_nil {before : ScanState} (twin : Twin level s t)
    (hshows : ∀ columns, before.Shows columns → s.Shows columns) :
    Echo level before s t [] [] where
  twin := ⟨twin.mode, twin.typed, twin.columns, fun hboth => twin.position hboth.1,
    fun hboth => twin.block hboth.1⟩
  eq _ _ := rfl
  aligned _ _ _ := rfl
  loose columns hbefore := ⟨rfl, rfl, hshows columns hbefore⟩

/-- The record of a data row, behind a table with this number if it begins one. -/
def rowEvents (starts : Bool) (position : Nat) (h : TableHead) (r : Record) : List Event :=
  if starts then [.table { h with position := position }, .record { r with table := position }]
  else [.record { r with table := h.position }]

theorem tableMarks_rowEvents (starts : Bool) (position : Nat) (h : TableHead) (r : Record) :
    tableMarks (rowEvents starts position h r) = if starts then [true, false] else [false] := by
  cases starts <;> rfl

theorem looseFrom_rowEvents (starts : Bool) (position : Nat) (h : TableHead) (r : Record) :
    looseFrom h.columns (rowEvents starts position h r) = [(h.columns, { r with table := 0 })] ∧
      lastColumns h.columns (rowEvents starts position h r) = h.columns := by
  cases starts <;> exact ⟨rfl, rfl⟩

/-- A data row that can be read brings its record. -/
theorem Fits.step_of_record {r : Record} (fits : s.Fits row "" cells h) (hmode : s.mode = .data)
    (hrecord : readRecord d h cells = .ok r) :
    let starts := (s.reach row false).begins h cells
    let seen := (s.reach row false).seen h cells
    s.step d row =
      (if starts then (seen.startTable h).1 else seen,
        (rowEvents starts s.position h r).map .ok) := by
  have hread : ∀ p, readRecord d { h with position := p } cells = .ok { r with table := p } :=
    fun p => readRecord_of_columns (h := h) rfl rfl hrecord
  rw [fits.step_dataRow hmode, dataRow_eq]
  cases (s.reach row false).begins h cells with
  | false =>
      have hsame := hread h.position
      simp only [Bool.false_eq_true, if_false, hsame]
      rfl
  | true =>
      simp only [if_true, position_reach, hread]
      rfl

/-- The states behind a data row. Readers are level behind it if they were before and a table starts
for both of them or for none. -/
theorem Twin.behind_row (twin : Twin level s t) (hblock : s.block = some h)
    (hblock' : t.block = some k) (hcolumns : k.columns = h.columns) (hlevel : level → k = h)
    (cells filled : List String) (starts starts' : Bool) :
    Twin (level ∧ starts' = starts)
      (if starts then ((s.seen h cells).startTable h).1 else s.seen h cells)
      (if starts' then ((t.seen k filled).startTable k).1 else t.seen k filled) where
  mode := by cases starts <;> cases starts' <;> exact twin.mode
  typed := by cases starts <;> cases starts' <;> exact twin.typed
  columns := by
    cases starts <;> cases starts' <;> simp [startTable, seen, hblock, hblock', hcolumns]
  position := by
    rintro ⟨hl, rfl⟩
    cases starts' <;> simp [startTable, seen, twin.position hl]
  block := by
    rintro ⟨hl, rfl⟩
    cases starts' <;> simp [startTable, seen, twin.position hl, twin.block hl, hlevel hl]

theorem shows_behind_row (hblock : s.block = some h) (cells : List String) (starts : Bool) :
    Shows (if starts then ((s.seen h cells).startTable h).1 else s.seen h cells) h.columns := by
  rintro - k hk
  cases starts with
  | false => rw [Option.some.inj (hblock.symm.trans hk)]
  | true => rw [← Option.some.inj hk]

theorem exists_record_of_clean (fits : s.Fits row "" cells h) (hmode : s.mode = .data)
    (hclean : Clean (s.step d row).2) : ∃ r, readRecord d h cells = .ok r := by
  cases hread : (readCells h.columns cells).isOk with
  | true => exact exists_record_of_cells d hread h.position
  | false =>
      have hfault := exists_fault_of_cells d hread
      rw [fits.step_dataRow hmode, dataRow_eq] at hclean
      split at hclean
      · obtain ⟨e, he⟩ := hfault s.position
        rw [position_reach, he] at hclean
        exact absurd hclean (not_clean_error e)
      · obtain ⟨e, he⟩ : ∃ e, readRecord d h cells = .error e := hfault h.position
        rw [he] at hclean
        exact absurd hclean (not_clean_error e)

theorem eq_of_tableMarks_rowEvents {starts starts' : Bool} {position position' : Nat}
    {r r' : Record} {marks more : List Bool}
    (heq : tableMarks (rowEvents starts' position' k r') ++ marks =
      tableMarks (rowEvents starts position h r) ++ more) : starts' = starts := by
  rw [tableMarks_rowEvents, tableMarks_rowEvents] at heq
  cases starts <;> cases starts' <;> simp_all

/-- Both readers make the same of a data row, in a table that has started or in a new one. -/
theorem Twin.step_dataRow (twin : Twin level s t) (fits : s.Fits row "" cells h)
    (hmode : s.mode = .data) {filled : List String} (hrow' : row'.cells = "" :: filled)
    (hfilled : Filled (fun _ => True) h.columns cells filled)
    (hout : (s.step d row).2 = events.map .ok) :
    ∃ echoed, (t.step d row').2 = echoed.map .ok ∧
      Echo level s (s.step d row).1 (t.step d row').1 events echoed := by
  obtain ⟨r, hrecord⟩ := exists_record_of_clean fits hmode ⟨events, hout⟩
  obtain ⟨k, fits', hcolumns, hlevel⟩ := twin.exists_fits fits hrow' hfilled.length_eq
  have hrecord' : readRecord d k filled = .ok { r with table := k.position } :=
    readRecord_of_columns hcolumns hfilled.readCells_eq hrecord
  have hstep := fits.step_of_record hmode hrecord
  have hstep' := fits'.step_of_record (twin.mode.trans hmode) hrecord'
  simp only at hstep hstep'
  generalize (s.reach row false).begins h cells = starts at hstep
  generalize (t.reach row' false).begins k filled = starts' at hstep'
  rw [hstep] at hout ⊢
  rw [hstep']
  obtain rfl := eq_of_map_ok hout
  have hstarts : tableMarks (rowEvents starts' t.position k { r with table := k.position }) =
      tableMarks (rowEvents starts s.position h r) → starts' = starts := fun hmarks =>
    eq_of_tableMarks_rowEvents (congrArg (· ++ []) hmarks)
  have hblock := fits.block_eq
  refine ⟨_, rfl, ?_, fun hl hmarks => ?_, fun marks more heq => ?_, fun columns hshows => ?_⟩
  · have hbehind := (twin.reach row row' false).behind_row hblock fits'.block_eq hcolumns hlevel
      cells filled starts starts'
    exact hbehind.of_imp fun hboth => ⟨hboth.1, hstarts hboth.2⟩
  · rw [hstarts hmarks, hlevel hl, twin.position hl]
    rfl
  · rw [eq_of_tableMarks_rowEvents heq, tableMarks_rowEvents, tableMarks_rowEvents]
  · obtain rfl := hshows hmode h fits.block_eq
    have hecho := looseFrom_rowEvents starts' t.position k { r with table := k.position }
    rw [hcolumns] at hecho
    obtain ⟨hloose, hlast⟩ := looseFrom_rowEvents starts s.position h r
    refine ⟨hecho.1.trans hloose.symm, hecho.2.trans hlast.symm, ?_⟩
    rw [hlast]
    exact shows_behind_row (s := s.reach row false) hblock cells starts

theorem step_of_blank (hrow : row.cells = [] ∨ row.cells = [""]) :
    s.step d row = (s.reach row true, []) := by
  obtain ⟨cells, line⟩ := row
  rcases hrow with hrow | hrow
  · obtain rfl : cells = [] := hrow
    rfl
  · exact step_blank hrow line

/-- A row of annotations is the same for both readers. -/
theorem Twin.step_annotationRow (twin : Twin level s t) (fits : s.Fits row first cells h)
    (hfirst : first ≠ "") (hcells : row'.cells = row.cells)
    (hclean : Clean (s.step d row).2) :
    (s.step d row).2 = [] ∧ (t.step d row').2 = [] ∧
      Echo level s (s.step d row).1 (t.step d row').1 [] [] := by
  have hcells' := hcells.trans fits.eq_cons
  obtain ⟨k, fits', hcolumns, hlevel⟩ := twin.exists_fits fits hcells' rfl
  have hstep : s.step d row =
      ((s.reach row false).opened first cells).annotationRow h first cells :=
    fits.step_eq.trans (if_neg hfirst)
  have hstep' : t.step d row' =
      ((t.reach row' false).opened first cells).annotationRow k first cells :=
    fits'.step_eq.trans (if_neg hfirst)
  obtain ⟨hsame, htwin⟩ := ((twin.reach row row' false).opened first rfl).annotationRow hcolumns
    hlevel first cells
  have hout := (annotationRow_turn ((s.reach row false).opened first cells) h first cells).2.2
  rw [← hstep] at hout hsame htwin
  rw [← hstep'] at hsame htwin
  have hnil : (s.step d row).2 = [] := by
    obtain hnil | ⟨e, he⟩ := hout
    · exact hnil
    · rw [he] at hclean
      exact absurd hclean (not_clean_error e)
  refine ⟨hnil, hsame.trans hnil, htwin.echo_nil fun columns hshows hmode => ?_⟩
  -- behind annotations there are data rows only if it was none and has changed nothing
  rw [hstep] at hmode ⊢
  have hself := annotationRow_of_data hmode
  rw [hself] at hmode ⊢
  exact hshows hmode

/-- A row of names is the same for both readers. -/
theorem Twin.step_nameRow (twin : Twin level s t) (fits : s.Fits row "" cells h)
    (hmode : s.mode = .annotations) (hcells : row'.cells = row.cells)
    (hout : (s.step d row).2 = events.map .ok) :
    ∃ echoed, (t.step d row').2 = echoed.map .ok ∧
      Echo level s (s.step d row).1 (t.step d row').1 events echoed := by
  have hcells' := hcells.trans fits.eq_cons
  obtain ⟨k, fits', hcolumns, hlevel⟩ := twin.exists_fits fits hcells' rfl
  have hstep : s.step d row = (s.reach row false).nameRow d h cells := by
    rw [fits.step_eq, if_pos rfl, hmode]
  have hstep' : t.step d row' = (t.reach row' false).nameRow d k cells := by
    rw [fits'.step_eq, if_pos rfl, twin.mode, hmode]
  rw [hstep, nameRow] at hout ⊢
  rw [hstep', nameRow, hcolumns]
  by_cases htyped : (s.reach row false).typed = false
  · rw [if_pos htyped] at hout
    exact absurd ⟨events, hout⟩ (not_clean_error _)
  · have htyped' : (t.reach row' false).typed ≠ false := fun hno =>
      htyped (twin.typed.symm.trans hno)
    rw [if_neg htyped] at hout ⊢
    rw [if_neg htyped']
    by_cases hreport : cells.head? = some "error"
    · rw [if_pos hreport] at hout ⊢
      rw [if_pos hreport]
      obtain rfl : events = [] := List.map_eq_nil_iff.1 hout.symm
      have htwin : Twin level { s.reach row false with mode := .failed }
          { t.reach row' false with mode := .failed } :=
        ⟨rfl, twin.typed, twin.columns, twin.position, twin.block⟩
      exact ⟨[], rfl, htwin.echo_nil fun _ _ hdata => by cases hdata⟩
    · rw [if_neg hreport] at hout ⊢
      rw [if_neg hreport]
      obtain rfl : [Event.table _] = events := eq_of_map_ok hout
      refine ⟨[_], rfl, ⟨rfl, twin.typed, rfl, fun hboth => ?_, fun hboth => ?_⟩, fun hl _ => ?_,
        fun _ _ _ => rfl, fun columns _ => ⟨rfl, rfl, fun _ j hj => ?_⟩⟩
      · exact congrArg Nat.succ (twin.position hboth.1)
      · exact congrArg (fun p => some (⟨p, _⟩ : TableHead)) (twin.position hboth.1)
      · exact congrArg (fun p => [Event.table ⟨p, _⟩]) (twin.position hl)
      · rw [← Option.some.inj hj]
        rfl

/-- A row that brings no fault is blank or fits its block, and the block is no report. -/
theorem blank_or_fits_of_clean (hclean : Clean (s.step d row).2) :
    (row.cells = [] ∨ row.cells = [""]) ∨
      ∃ first cells h, s.Fits row first cells h ∧ (first = "" → s.mode ≠ .failed) := by
  have turn := turn_step d s row
  generalize (s.step d row).1 = s' at turn
  generalize (s.step d row).2 = out at turn hclean
  cases turn with
  | blank hrow => exact .inl hrow
  | annotates fits hfirst => exact .inr ⟨_, _, _, fits, fun hno => absurd hno hfirst⟩
  | report fits hmode | names fits hmode | record fits hmode | table fits hmode =>
      exact .inr ⟨_, _, _, fits, fun _ hfailed => by rw [hmode] at hfailed; cases hfailed⟩
  | _ => exact absurd hclean (not_clean_error _)

/-- What one row does to two readers, one of which has empty cells filled in. -/
theorem Twin.step (twin : Twin level s t) (hfills : s.Fills row row')
    (hout : (s.step d row).2 = events.map .ok) :
    ∃ echoed, (t.step d row').2 = echoed.map .ok ∧
      Echo level s (s.step d row).1 (t.step d row').1 events echoed := by
  cases hfills with
  | filled fits hmode hrow' hfilled => exact twin.step_dataRow fits hmode hrow' hfilled hout
  | same hcells =>
      have hclean : Clean (s.step d row).2 := ⟨events, hout⟩
      rcases blank_or_fits_of_clean hclean with hblank | ⟨first, cells, h, fits, hreport⟩
      · have hstep := step_of_blank (d := d) (s := s) hblank
        have hstep' := step_of_blank (d := d) (s := t) (hcells ▸ hblank)
        rw [hstep] at hout ⊢
        rw [hstep']
        obtain rfl : events = [] := List.map_eq_nil_iff.1 hout.symm
        exact ⟨[], rfl, (twin.reach row row' true).echo_nil fun _ hshows => hshows⟩
      · by_cases hfirst : first = ""
        · subst hfirst
          cases hmode : s.mode with
          | annotations => exact twin.step_nameRow fits hmode hcells hout
          | failed => exact absurd hmode (hreport rfl)
          | data =>
              exact twin.step_dataRow fits hmode (hcells.trans fits.eq_cons) (.refl fits.width) hout
        · obtain ⟨hnil, hnil', hecho⟩ := twin.step_annotationRow fits hfirst hcells hclean
          rw [hnil] at hout
          obtain rfl : events = [] := List.map_eq_nil_iff.1 hout.symm
          exact ⟨[], hnil', hecho⟩

/-- Rows that are read side by side, the other ones with `line` as the line that was reached in
front of them. -/
inductive Alongside (d : Destinations) (R : ScanState → Nat → Csv.Row → Csv.Row → Prop) :
    ScanState → Nat → List Csv.Row → List Csv.Row → Prop where
  | nil {s : ScanState} {line : Nat} : Alongside d R s line [] []
  | cons {s : ScanState} {line : Nat} {row row' : Csv.Row} {rows others : List Csv.Row} :
    R s line row row' → Alongside d R (s.step d row).1 row'.line rows others →
      Alongside d R s line (row :: rows) (row' :: others)

theorem Alongside.mono {R Q : ScanState → Nat → Csv.Row → Csv.Row → Prop} {line : Nat}
    {rows others : List Csv.Row} (h : Alongside d R s line rows others)
    (hrow : ∀ s line row row', R s line row row' → Q s line row row') :
    Alongside d Q s line rows others := by
  induction h with
  | nil => exact .nil
  | cons hfirst _ ih => exact .cons (hrow _ _ _ _ hfirst) ih

/-- What rows without a fault do to two readers. -/
theorem Twin.run (twin : Twin level s t) {line : Nat} {rows others : List Csv.Row}
    (hrows : Alongside d (fun s _ => Fills s) s line rows others)
    (hout : (s.run d (rows.map .ok)).2 = events.map .ok) :
    ∃ echoed, (t.run d (others.map .ok)).2 = echoed.map .ok ∧
      (t.run d (others.map .ok)).1.mode = (s.run d (rows.map .ok)).1.mode ∧
      (level → tableMarks echoed = tableMarks events → echoed = events) ∧
      ∀ columns, s.Shows columns → looseFrom columns echoed = looseFrom columns events := by
  induction hrows generalizing t level events with
  | nil =>
      obtain rfl : events = [] := List.map_eq_nil_iff.1 hout.symm
      exact ⟨[], rfl, twin.mode, fun _ _ => rfl, fun _ _ => rfl⟩
  | @cons s line row row' rows others hfirst _ ih =>
      obtain ⟨front, back, rfl, hfront, hback⟩ := List.map_eq_append_iff.1 hout.symm
      obtain ⟨echoed, hechoed, hecho⟩ := twin.step hfirst hfront.symm
      obtain ⟨later, hlater, hmode, heq, hloose⟩ := ih hecho.twin hback.symm
      refine ⟨echoed ++ later, ?_, hmode, fun hl hmarks => ?_, fun columns hshows => ?_⟩
      · rw [List.map_append, ← hechoed, ← hlater]
        rfl
      · rw [tableMarks_append, tableMarks_append] at hmarks
        have hsame := hecho.aligned _ _ hmarks
        rw [hsame] at hmarks
        rw [hecho.eq hl hsame, heq ⟨hl, hsame⟩ (List.append_cancel_left hmarks)]
      · obtain ⟨hsame, hlast, hshows'⟩ := hecho.loose columns hshows
        rw [looseFrom_append, looseFrom_append, hsame, hlast, hloose _ hshows']

end ScanState

section Decode

open ScanState

variable {destinations : List String} {rows others : List Csv.Row}

theorem gather_of_run {d : Destinations} {rows : List (Except Csv.RowFault Csv.Row)}
    {events : List Event} (hevents : (({} : ScanState).run d rows).2 = events.map .ok) :
    (gather events).1 = [] := by
  have hfront := gather_front_scan d rows
  rwa [Scan.front, scan, hevents, Scan.untilFault_map_ok] at hfront

/-- Rows that decode without a fault still do so with empty cells filled in, to the same records.
They decode to the same if all tables have as many records as before. -/
theorem decodeRows_of_fills
    (hrows : Alongside (Destinations.ofList destinations) (fun s _ => s.Fills) {} 1 rows others)
    (hfailure : (decodeRows destinations (rows.map .ok)).failure = none) :
    (decodeRows destinations (others.map .ok)).failure = none ∧
      (decodeRows destinations (others.map .ok)).loose =
        (decodeRows destinations (rows.map .ok)).loose ∧
      ((decodeRows destinations (others.map .ok)).sizes =
          (decodeRows destinations (rows.map .ok)).sizes →
        decodeRows destinations (others.map .ok) = decodeRows destinations (rows.map .ok)) := by
  obtain ⟨⟨events, hevents⟩, hmode⟩ := faultless_of_decodeRows hfailure
  have twin : Twin True ({} : ScanState) {} := ⟨rfl, rfl, rfl, fun _ => rfl, fun _ => rfl⟩
  obtain ⟨echoed, hechoed, hsame, heq, hloose⟩ := twin.run hrows hevents
  have hshows : ({} : ScanState).Shows [] := fun _ h hblock => by cases hblock
  have hrecords := hloose [] hshows
  rw [looseFrom_eq_gather, looseFrom_eq_gather, gather_of_run hevents, gather_of_run hechoed]
    at hrecords
  rw [decodeRows_of_run hevents hmode, decodeRows_of_run hechoed (hsame ▸ hmode)]
  refine ⟨rfl, hrecords, fun hsizes => ?_⟩
  have hmarks : tableMarks echoed = tableMarks events := by
    rw [tableMarks_eq_gather, tableMarks_eq_gather, gather_of_run hevents, gather_of_run hechoed]
    exact congrArg _ (congrArg _ hsizes)
  rw [heq trivial hmarks]

end Decode

end TimeSeries
