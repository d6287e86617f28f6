import Mathlib.Data.List.Forall2
import TimeSeries.Proofs.Csv.Form
import TimeSeries.Proofs.Point.LineReader
import TimeSeries.Proofs.Table.Boundary
import TimeSeries.Proofs.Table.Current

/-!
# Field values in cells

The text that a reader sees of a field value can be put into a cell of a column with the type of the
field. `field_cell_matches_iff` says what is read from it, for a row of any input: truth values and
integers come back as they are, and a string does if and only if there is no white space at its
ends. White space is removed between quotes too, and a string of nothing else becomes the default of
the column.

Nothing is asked of the lines behind the row. If one of them is at fault, the record of the row has
been handed out before.
-/

namespace TimeSeries

/-- The type of a column that holds such fields. -/
def FieldValue.dataType : FieldValue → DataType
  | .bool _ => .bool
  | .integer _ => .long
  | .unsigned _ => .unsignedLong
  | .float _ => .double
  | .string _ => .string

/-- What a cell of the column holds of a field value. -/
def Column.kept (c : Column) : FieldValue → FieldValue
  | .string s => .string (c.textOf (Text.trim s))
  | f => f

/-- A text in a cell of the column can be read. -/
def Column.Accepts (c : Column) (text : String) : Prop :=
  (c.read (Text.trim text)).isOk = true

instance (c : Column) (text : String) : Decidable (c.Accepts text) :=
  inferInstanceAs (Decidable (_ = true))

theorem Wire.isBlank_of_isNumberChar {c : Char} (h : isNumberChar c = true) :
    Text.isBlank c = false := by
  by_contra hblank
  simp only [Text.isBlank, Text.blankRanges, List.any_cons, List.any_nil, Bool.or_eq_true,
    Bool.and_eq_true, decide_eq_true_eq, Bool.not_eq_false, Bool.or_false] at hblank
  simp only [isNumberChar, Number.isDigit, Bool.or_eq_true, Bool.and_eq_true, decide_eq_true_eq,
    beq_iff_eq] at h
  rcases h with (⟨hlow, hhigh⟩ | rfl) | rfl
  · have hge : 48 ≤ c.toNat := hlow
    have hle : c.toNat ≤ 57 := hhigh
    omega
  · exact absurd hblank (by decide)
  · exact absurd hblank (by decide)

theorem trim_toString (i : Int) : Text.trim (toString i) = toString i :=
  Text.trim_of_forall fun _ hc =>
    Wire.isBlank_of_isNumberChar (Wire.isNumberChar_of_mem_toString hc)

namespace FieldValue

open Number

/-- Texts of truth values and integers have no white space. -/
theorem trim_display {f : FieldValue} (hfloat : f.dataType ≠ .double)
    (hstring : f.dataType ≠ .string) : Text.trim f.display = f.display := by
  cases f with
  | bool b => cases b <;> decide
  | integer i => exact trim_toString i.toInt
  | unsigned u => exact trim_toString u.toNat
  | float x => exact absurd rfl hfloat
  | string s => exact absurd rfl hstring

/-- The text of a truth value or an integer is read as that value in a column of its type. -/
theorem read_display {f : FieldValue} (hfloat : f.dataType ≠ .double) (column : String) :
    f.dataType.read column f.display = .ok (Value.ofField f) := by
  cases f with
  | bool b => cases b <;> rfl
  | integer i => simp only [dataType, display, DataType.read, readInt64_toString, Value.ofField]
  | unsigned u => simp only [dataType, display, DataType.read, readUInt64_toString, Value.ofField]
  | float x => exact absurd rfl hfloat
  | string s => rfl

theorem display_ne_empty {f : FieldValue} (hfloat : f.dataType ≠ .double)
    (hstring : f.dataType ≠ .string) : f.display ≠ "" := by
  intro hempty
  have hread := read_display hfloat ""
  rw [hempty] at hread
  cases f with
  | bool b => cases hread
  | integer i => cases hread
  | unsigned u => cases hread
  | float x => exact hfloat rfl
  | string s => exact hstring rfl

end FieldValue

theorem DataType.readText_of_ne {t : DataType} {s : String} (h : s ≠ "" ∨ t = .string)
    (column : String) : t.readText column s = t.read column s :=
  if_neg fun hboth => h.elim (fun hne => hne hboth.1) hboth.2

/-- The text of a field value is read in a column of its type, whatever the default is. -/
theorem Column.read_display {c : Column} {f : FieldValue} (htype : f.dataType = c.dataType)
    (hfloat : f.dataType ≠ .double) :
    c.read (Text.trim f.display) = .ok (Value.ofField (c.kept f)) := by
  by_cases hstring : f.dataType = .string
  · cases f with
    | string s =>
        rw [Column.read, ← htype]
        exact DataType.readText_of_ne (.inr rfl) c.name
    | _ => cases hstring
  · have hne := FieldValue.display_ne_empty hfloat hstring
    have hkept : c.kept f = f := by
      cases f with
      | string s => exact absurd rfl hstring
      | _ => rfl
    rw [Column.read, FieldValue.trim_display hfloat hstring, Column.textOf, if_neg hne, ← htype,
      DataType.readText_of_ne (.inl hne), FieldValue.read_display hfloat, hkept]

theorem Column.matchesField_kept_iff {c : Column} {f : FieldValue}
    (hdefault : Text.trim c.default = c.default) (hfloat : f.dataType ≠ .double)
    (hne : f ≠ .string "") :
    (Value.ofField (c.kept f)).matchesField f = true ↔ ∀ s, f = .string s → Text.trim s = s := by
  cases f with
  | string s =>
      have hs : s ≠ "" := fun hempty => hne (hempty ▸ rfl)
      suffices htext : c.textOf (Text.trim s) = s ↔ Text.trim s = s by
        simpa [kept, Value.ofField, Value.matchesField] using htext
      by_cases hblank : Text.trim s = ""
      · rw [hblank, textOf, if_pos rfl]
        refine ⟨fun hdefault' => ?_, fun hempty => absurd hempty.symm hs⟩
        rw [← hblank, ← hdefault', hdefault]
      · rw [textOf, if_neg hblank]
  | bool b => simp [kept, Value.ofField, Value.matchesField]
  | integer i => simp [kept, Value.ofField, Value.matchesField]
  | unsigned u => simp [kept, Value.ofField, Value.matchesField]
  | float x => exact absurd rfl hfloat

section Rows

variable {d : Destinations} {before behind : List Column} {c : Column} {left right : List String}
  {cell : String} {v : Value}

theorem Column.Accepts.exists_read (h : c.Accepts cell) : ∃ v, c.read (Text.trim cell) = .ok v := by
  rw [Column.Accepts] at h
  cases hread : c.read (Text.trim cell) with
  | ok v => exact ⟨v, rfl⟩
  | error e =>
      rw [hread] at h
      cases h

theorem readCells_cons {columns : List Column} {cells : List String} {read : List (Column × Value)}
    (hc : c.read cell = .ok v) (hread : readCells columns cells = .ok read) :
    readCells (c :: columns) (cell :: cells) = .ok ((c, v) :: read) := by
  rw [readCells, hc]
  simp only [hread]
  rfl

theorem exists_readCells {columns : List Column} {cells : List String}
    (h : List.Forall₂ Column.Accepts columns cells) :
    ∃ read, readCells columns (cells.map Text.trim) = .ok read ∧
      read.map Prod.fst = columns := by
  induction h with
  | nil => exact ⟨[], rfl, rfl⟩
  | cons hc _ ih =>
      obtain ⟨v, hv⟩ := hc.exists_read
      obtain ⟨read, hread, hcolumns⟩ := ih
      exact ⟨(_, v) :: read, readCells_cons hv hread, by rw [List.map_cons, hcolumns]⟩

/-- The value of a column stands in its place among the values of all columns. -/
theorem exists_readCells_append_cons (hleft : List.Forall₂ Column.Accepts before left)
    (hc : c.read (Text.trim cell) = .ok v) (hright : List.Forall₂ Column.Accepts behind right) :
    ∃ front back,
      readCells (before ++ c :: behind) ((left ++ cell :: right).map Text.trim) =
          .ok (front ++ (c, v) :: back) ∧
        back.map Prod.fst = behind := by
  induction hleft with
  | nil =>
      obtain ⟨back, hback, hcolumns⟩ := exists_readCells hright
      exact ⟨[], back, readCells_cons hc hback, hcolumns⟩
  | cons hc' _ ih =>
      obtain ⟨v', hv'⟩ := hc'.exists_read
      obtain ⟨front, back, hread, hcolumns⟩ := ih
      exact ⟨(_, v') :: front, back, readCells_cons hv' hread, hcolumns⟩

/-- A record holds the value of a column under its name, unless a later column has the same one. -/
theorem exists_readRecord {h : TableHead} {cells : List String} {front back : List (Column × Value)}
    (hread : readCells h.columns cells = .ok (front ++ (c, v) :: back))
    (hlast : ∀ e ∈ back, e.1.name ≠ c.name) :
    ∃ r, readRecord d h cells = .ok r ∧ r.get? c.name = some v ∧
      (d.contains c.name = true → r.values.get? c.name = some v) := by
  have hnamed : ∀ keep : Column × Value → Bool, keep (c, v) = true →
      (KeyMap.ofList (((front ++ (c, v) :: back).filter keep).map fun e =>
        (e.1.name, e.2))).get? c.name = some v := by
    intro keep hkeep
    rw [List.filter_append, List.filter_cons_of_pos hkeep, List.map_append, List.map_cons]
    refine KeyMap.get?_ofList_append_cons (fun e he => ?_) v
    obtain ⟨e', he', rfl⟩ := List.mem_map.1 he
    exact hlast e' (List.mem_filter.1 he').1
  have hall := hnamed (fun _ => true) rfl
  rw [List.filter_true] at hall
  rw [readRecord, hread]
  exact ⟨_, rfl, hall, hnamed fun e => d.contains e.1.name⟩

end Rows

namespace ScanState

variable {d : Destinations} {s : ScanState}

/-- A data row with cells that can be read brings a record, behind a table or not. -/
theorem step_of_readRecord {h : TableHead} (hmode : s.mode = .data) (hblock : s.block = some h)
    {cells : List String} (hcells : cells ≠ []) (hlength : cells.length = h.columns.length)
    {P : Record → Prop}
    (hread : ∀ position, ∃ r, readRecord d ⟨position, h.columns⟩ cells = .ok r ∧ P r) (line : Nat) :
    ∃ (heads : List TableHead) (r : Record), (s.step d ⟨"" :: cells, line⟩).2 =
        (heads.map Event.table ++ [Event.record r]).map .ok ∧ P r := by
  have hbrings : ∀ (t : ScanState) (heads : List TableHead) (k : TableHead),
      k.columns = h.columns →
        ∃ r, (t.brings heads (readRecord d k cells)).2 =
          (heads.map Event.table ++ [Event.record r]).map .ok ∧ P r := by
    rintro t heads ⟨position, columns⟩ rfl
    obtain ⟨r, hr, hP⟩ := hread position
    exact ⟨r, by rw [hr]; rfl, hP⟩
  have hrow : s.step d ⟨"" :: cells, line⟩ =
      (s.reach ⟨"" :: cells, line⟩ false).dataRow d h cells := by
    rw [step_cons hcells]
    simp [blockRow, reach, hmode, hblock, hlength]
  rw [hrow, dataRow_eq_brings d _ rfl]
  simp only
  split
  · exact ⟨_, hbrings _ _ _ rfl⟩
  · exact ⟨_, hbrings _ _ _ rfl⟩

end ScanState

section Decode

open ScanState

variable {destinations : List String} {input : Csv.Input} {front after : List Csv.Line}

/-- The lines bring these events and end among the rows of the table. -/
structure InTable (d : Destinations) (t : Table) (ls : List Csv.Line) (events : List Event) :
    Prop where
  results : (({} : ScanState).runLines d 1 ls).2 = events.map .ok
  gathered : (gather events).1 = []
  events_ne_nil : events ≠ []
  mode : (({} : ScanState).runLines d 1 ls).1.mode = .data
  block : (({} : ScanState).runLines d 1 ls).1.block = some t.head
  defaults : TrimmedDefaults t.head.columns

variable {names : List String} {t : Table}

/-- Lines that are decoded without a fault and end in a block end among the rows of the last
table. -/
theorem exists_inTable (h : input.Holds front)
    (hclean : (decodeTables destinations input).failure = none) (hfront : EndsInBlock names front)
    (htable : (decodeTables destinations input).tables.getLast? = some t) :
    ∃ events, InTable (Destinations.ofList destinations) t front events := by
  obtain ⟨-, events, hresults, hgather⟩ := Scan.of_failure_eq_none hclean
  have hevents : (({} : ScanState).runLines (Destinations.ofList destinations) 1 front).2 =
      events.map .ok :=
    (ofInput_of_rows (rows_of_failure h hclean)).1.symm.trans hresults
  rw [decodeTables, Scan.decode_eq (by rw [hresults, Scan.untilFault_map_ok]) hgather] at htable
  have hlatest : latest none events = some t.head := by
    rw [latest_eq_getLast?, htable]
    rfl
  have hrows : ∀ row ∈ Csv.rowsOf 1 front, ∀ cell ∈ row.cells, Text.trim cell = cell := by
    intro row hrow cell hcell
    obtain ⟨l, -, hcells⟩ := Csv.exists_of_mem_rowsOf hrow
    exact Csv.Line.trim_of_mem_cells (hcells ▸ hcell)
  have hcurrent := current_start.run hrows hevents
  have hmode := (among_of_endsInBlock hfront (faultless_of_failure h hclean)).mode
  have hblock := (hcurrent.block hmode).trans hlatest
  refine ⟨events, hevents, hgather, ?_, hmode, hblock, hcurrent.defaults _ hblock⟩
  rintro rfl
  cases hlatest

variable {l : Csv.Line} {before behind : List Column} {c : Column} {left right : List String}

/-- A row that is written below the rows of a table brings a record with the values of its cells. -/
theorem exists_placed_eq {text : String} {v : Value} (hlines : input.Holds (front ++ l :: after))
    (hclean : (decodeTables destinations (input.upTo front)).failure = none) {events : List Event}
    (hfront : InTable (Destinations.ofList destinations) t front events)
    (hcolumns : t.head.columns = before ++ c :: behind)
    (hlast : ∀ c' ∈ behind, c'.name ≠ c.name)
    (hform : Csv.RowForm ("" :: (left ++ text :: right)) l.text)
    (hleft : List.Forall₂ Column.Accepts before left) (hc : c.read (Text.trim text) = .ok v)
    (hright : List.Forall₂ Column.Accepts behind right) :
    ∃ i r rest,
      (decodeTables destinations input).placed =
          (decodeTables destinations (input.upTo front)).placed ++ (i, r) :: rest ∧
        r.get? c.name = some v ∧
          ((Destinations.ofList destinations).contains c.name = true →
            r.values.get? c.name = some v) := by
  obtain ⟨read, back, hread, hback⟩ := exists_readCells_append_cons hleft hc hright
  have hlater : ∀ e ∈ back, e.1.name ≠ c.name := fun e he =>
    hlast e.1 (hback ▸ List.mem_map_of_mem he)
  have hlength : ((left ++ text :: right).map Text.trim).length = t.head.columns.length := by
    rw [hcolumns, List.length_map, List.length_append, List.length_append, List.length_cons,
      List.length_cons, hleft.length_eq, hright.length_eq]
  obtain ⟨line, rest, hrows⟩ := hform.rows_eq (by simp) hlines
  rw [rows_of_failure hlines.upTo hclean] at hrows
  obtain ⟨heads, r, hstep, hr⟩ := step_of_readRecord hfront.mode hfront.block (by simp) hlength
    (fun position => exists_readRecord (h := ⟨position, t.head.columns⟩) (hcolumns ▸ hread) hlater)
    line
  obtain ⟨more, hresults⟩ : ∃ more,
      (Scan.ofInput (Destinations.ofList destinations) input).results =
        (events ++ (heads.map Event.table ++ [Event.record r])).map .ok ++ more := by
    rw [Scan.ofInput, hrows, run_append, ← runLines, hfront.results, List.map_append, ← hstep]
    exact ⟨_, by simp only [run, next, List.append_assoc]; rfl⟩
  obtain ⟨later, hplaced⟩ := Scan.exists_placed_append hresults
    (gather_append_eq_nil hfront.gathered hfront.events_ne_nil _) (by simp [hfront.events_ne_nil])
  refine ⟨tablesIn events + heads.length, r, placedFrom (tablesIn events + heads.length) later, ?_,
    hr⟩
  rw [placed_eq hlines.upTo hclean hfront.results, decodeTables, hplaced, List.append_assoc,
    placedFrom_append, placedFrom_heads, Nat.zero_add]

/-- The text of a field value in a row below the rows of a table, with quotes around it or not where
both are possible, in a column of the type of the field with any default. The other cells can be
read, and no later column has the same name. Then the next record has a value for the column, and it
is the value of the field: always for truth values and integers, and for a string that is not empty
if and only if there is no white space at its ends. -/
theorem field_cell_matches_iff {f : FieldValue} (hlines : input.Holds (front ++ l :: after))
    (hclean : (decodeTables destinations (input.upTo front)).failure = none)
    (hfront : EndsInBlock names front)
    (htable : (decodeTables destinations (input.upTo front)).tables.getLast? = some t)
    (hcolumns : t.head.columns = before ++ c :: behind)
    (hlast : ∀ c' ∈ behind, c'.name ≠ c.name) (htype : f.dataType = c.dataType)
    (hfloat : f.dataType ≠ .double) (hne : f ≠ .string "")
    (hform : Csv.RowForm ("" :: (left ++ f.display :: right)) l.text)
    (hleft : List.Forall₂ Column.Accepts before left)
    (hright : List.Forall₂ Column.Accepts behind right) :
    ∃ i r rest v,
      (decodeTables destinations input).placed =
          (decodeTables destinations (input.upTo front)).placed ++ (i, r) :: rest ∧
        r.get? c.name = some v ∧
          ((Destinations.ofList destinations).contains c.name = true →
            r.values.get? c.name = some v) ∧
          v = Value.ofField (c.kept f) ∧
          (v.matchesField f = true ↔ ∀ s, f = .string s → Text.trim s = s) := by
  obtain ⟨events, hevents⟩ := exists_inTable hlines.upTo hclean hfront htable
  have hdefault : Text.trim c.default = c.default := hevents.defaults c (by simp [hcolumns])
  obtain ⟨i, r, rest, hplaced, hget, hvalues⟩ := exists_placed_eq hlines hclean hevents hcolumns
    hlast hform hleft (Column.read_display htype hfloat) hright
  exact ⟨i, r, rest, _, hplaced, hget, hvalues, rfl,
    Column.matchesField_kept_iff hdefault hfloat hne⟩

end Decode

section Samples

/-- A string with a comma and quotes, and a row behind it that is at fault. -/
theorem field_cell_matches_of_quoted :
    let front := sampleHead .feed
    let f : FieldValue := .string "x, \"y\""
    let l : Csv.Line := ⟨Csv.printRow (["", "", "0", f.display].map Text.utf8Bytes), some .feed⟩
    let after : List Csv.Line := [⟨Text.utf8Bytes ",,z,1", none⟩]
    let ls := front ++ l :: after
    let input : Csv.Input := ⟨ls.flatMap Csv.Line.bytes, none, .complete⟩
    input.Holds ls ∧ (decodeTables [] (input.upTo front)).failure = none ∧
      EndsInBlock ["result", "table", "_value"] front ∧
      (decodeTables [] input).failure ≠ none ∧
      ∃ i r rest v,
        (decodeTables [] input).placed =
            (decodeTables [] (input.upTo front)).placed ++ (i, r) :: rest ∧
          r.get? "_value" = some v ∧ v.matchesField f = true := by
  intro front f l after ls input
  have hlines : input.Holds ls := ⟨⟨by decide +kernel, by decide⟩, by decide, rfl⟩
  have hclean : (decodeTables [] (input.upTo front)).failure = none := by decide +kernel
  have hfault : (decodeTables [] input).failure ≠ none := by decide +kernel
  have hfront := endsInBlock_sampleHead .feed
  have htable : (decodeTables [] (input.upTo front)).tables.getLast? =
      some ⟨⟨0, [⟨0, "result", .string, false, "_result", false⟩,
        ⟨1, "table", .long, false, "", false⟩, ⟨2, "_value", .string, false, "", false⟩]⟩, []⟩ := by
    decide +kernel
  obtain ⟨i, r, rest, v, hplaced, hget, -, -, hmatches⟩ :=
    @field_cell_matches_iff [] input front after _ _ l
      [⟨0, "result", .string, false, "_result", false⟩, ⟨1, "table", .long, false, "", false⟩] []
      ⟨2, "_value", .string, false, "", false⟩ ["", "0"] [] f hlines hclean hfront htable rfl
      (fun _ h => absurd h List.not_mem_nil) rfl (by decide) (by decide)
      (Csv.rowForm_printRow (by decide)) (.cons (by decide) (.cons (by decide) .nil)) .nil
  refine ⟨hlines, hclean, hfront, hfault, i, r, rest, v, hplaced, hget, hmatches.2 ?_⟩
  intro s hs
  obtain rfl := FieldValue.string.inj hs
  decide

/-- A row of the sample block with quotes around its last text. -/
def quotedRow (s : String) : Csv.Line :=
  ⟨Text.utf8Bytes ",,0," ++
    Csv.quoteMark :: (Csv.doubled (Text.utf8Bytes s) ++ [Csv.quoteMark]), some .feed⟩

theorem rowForm_quotedRow (s : String) : Csv.RowForm ["", "", "0", s] (quotedRow s).text :=
  .cons (.bare rfl) (.cons (.bare rfl) (.cons (.bare rfl) (.last .quoted)))

/-- White space at the ends of a quoted text is lost, and all of a text that has nothing else. -/
theorem quoted_blanks_are_lost :
    (let f : FieldValue := .string " a"
      let ls := sampleHead .feed ++ [quotedRow f.display]
      let input : Csv.Input := ⟨ls.flatMap Csv.Line.bytes, none, .complete⟩
      input.Holds ls ∧ Csv.RowForm ["", "", "0", f.display] (quotedRow f.display).text ∧
        (decodeTables [] input).failure = none ∧
        (decodeTables [] input).placed.map (fun e => (e.2.get? "_value").map
          fun v => (v, v.matchesField f)) = [some (.string "a", false)]) ∧
    (let f : FieldValue := .string " "
      let ls := sampleHead .feed ++ [quotedRow f.display]
      let input : Csv.Input := ⟨ls.flatMap Csv.Line.bytes, none, .complete⟩
      input.Holds ls ∧ Csv.RowForm ["", "", "0", f.display] (quotedRow f.display).text ∧
        (decodeTables [] input).failure = none ∧
        (decodeTables [] input).placed.map (fun e => (e.2.get? "_value").map
          fun v => (v, v.matchesField f)) = [some (.string "", false)]) := by
  refine ⟨⟨⟨⟨?_, by decide⟩, by decide, rfl⟩, rowForm_quotedRow _, ?_, ?_⟩,
    ⟨⟨?_, by decide⟩, by decide, rfl⟩, rowForm_quotedRow _, ?_, ?_⟩
  all_goals decide +kernel

end Samples

end TimeSeries
