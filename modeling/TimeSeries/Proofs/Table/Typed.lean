import Mathlib.Data.List.Forall2
import TimeSeries.Proofs.KeyMap
import TimeSeries.Proofs.Table.Shape

/-!
# Types and parts of a record

A record holds one value for each column name, and each value comes from a cell: the one below the
last column with that name. So it has the type of that column, or it is `null`, and then the cell and
the default of the column are empty.

Which values are tags is said twice: by the flag of a column, set when the names of the columns are
read, and by the destinations, asked again for every row. Both agree among the data rows of a block,
which is the invariant `Tagged`.
-/

namespace TimeSeries

/-- The type that a value has; `null` has none. -/
def Value.dataType? : Value → Option DataType
  | .string _ => some .string
  | .double _ => some .double
  | .bool _ => some .bool
  | .long _ => some .long
  | .unsigned _ => some .unsignedLong
  | .duration _ => some .duration
  | .binary _ => some .base64Binary
  | .time _ => some .time
  | .null => none

/-- The last column with a name, and the cell below it. -/
def lastNamed? (name : String) (columns : List Column) (cells : List String) :
    Option (Column × String) :=
  (columns.zip cells).reverse.find? fun e => e.1.name = name

/-- The value is that of the cell: `null` if and only if there is nothing to read and the column does
not hold texts, and otherwise of the type of the column. -/
structure Column.Holds (c : Column) (cell : String) (v : Value) : Prop where
  null_iff : v = .null ↔ c.dataType ≠ .string ∧ cell = "" ∧ c.default = ""
  typed : v ≠ .null → v.dataType? = some c.dataType

/-- The destinations are the names they are made of, or `_value` alone. -/
theorem Destinations.contains_ofList (destinations : List String) (name : String) :
    (ofList destinations).contains name = true ↔
      name ∈ if destinations = [] then ["_value"] else destinations := by
  cases destinations with
  | nil => simp [ofList, contains]
  | cons first more => simp [ofList, contains]

theorem Destinations.primary_ofList {destinations : List String} {first : String}
    (h : (if destinations = [] then ["_value"] else destinations).head? = some first) :
    (ofList destinations).primary = first := by
  cases destinations with
  | nil => exact Option.some.inj h
  | cons name more => exact Option.some.inj h

/-- The flags of the columns tell which of them are tags. -/
def TableHead.Tagged (d : Destinations) (h : TableHead) : Prop :=
  ∀ c ∈ h.columns, c.tag = (c.group && !d.contains c.name)

/-- The record of a row with these cells below these columns, for these names of values. -/
structure Record.Follows (r : Record) (named : List String) (columns : List Column)
    (cells : List String) : Prop where
  /-- Under every name stands what the last cell with that name holds. -/
  typed : ∀ name ∈ columns.map Column.name, ∃ c cell v,
    lastNamed? name columns cells = some (c, cell) ∧ r.get? name = some v ∧ c.Holds cell v
  absent : ∀ name, name ∉ columns.map Column.name → r.get? name = none
  values : ∀ name, name ∈ r.values.keys ↔ name ∈ columns.map Column.name ∧ name ∈ named
  tags : ∀ name, name ∈ r.tags.keys ↔ ∃ c ∈ columns, c.tag = true ∧ c.name = name
  disjoint : ∀ name ∈ r.values.keys, name ∉ r.tags.keys
  agrees : ∀ name ∈ r.values.keys, r.values.get? name = r.get? name
  value : ∀ first, named.head? = some first →
    r.value? = if first ∈ columns.map Column.name then r.get? first else none

section Cells

variable {d : Destinations} {h : TableHead} {cells : List String} {r : Record}

theorem DataType.dataType?_of_read {t : DataType} {column s : String} {v : Value}
    (hread : t.read column s = .ok v) : v.dataType? = some t := by
  cases t <;> simp only [DataType.read] at hread <;> (try split at hread) <;>
    first
      | cases hread; rfl
      | cases hread

theorem Column.textOf_eq_empty_iff {c : Column} {cell : String} :
    c.textOf cell = "" ↔ cell = "" ∧ c.default = "" := by
  rw [textOf]
  split <;> simp_all

theorem Column.holds_of_read {c : Column} {cell : String} {v : Value}
    (hread : c.read cell = .ok v) : c.Holds cell v := by
  rw [Column.read, DataType.readText] at hread
  split at hread
  · next hnothing =>
      obtain rfl := Except.ok.inj hread
      exact ⟨iff_of_true rfl ⟨hnothing.2, textOf_eq_empty_iff.1 hnothing.1⟩,
        fun hne => absurd rfl hne⟩
  · next hsomething =>
      have htype := DataType.dataType?_of_read hread
      refine ⟨iff_of_false ?_ ?_, fun _ => htype⟩
      · rintro rfl
        cases htype
      · rintro ⟨hother, hempty⟩
        exact hsomething ⟨textOf_eq_empty_iff.2 hempty, hother⟩

/-- What was read from each cell stands with its column. -/
theorem forall₂_of_readCells {columns : List Column} {read : List (Column × Value)}
    (hread : readCells columns cells = .ok read) :
    List.Forall₂ (fun e x => x.1 = e.1 ∧ e.1.read e.2 = .ok x.2) (columns.zip cells) read := by
  induction columns generalizing cells read with
  | nil =>
      obtain rfl := Except.ok.inj hread
      exact .nil
  | cons c columns ih =>
      cases cells with
      | nil =>
          obtain rfl := Except.ok.inj hread
          exact .nil
      | cons cell cells =>
          rw [readCells] at hread
          split at hread
          · next v hcell =>
              cases hrest : readCells columns cells with
              | error e =>
                  rw [hrest] at hread
                  cases hread
              | ok rest =>
                  rw [hrest] at hread
                  obtain rfl := Except.ok.inj hread
                  exact .cons ⟨rfl, hcell⟩ (ih hrest)
          · cases hread

theorem find?_rel {α β : Type} {R : α → β → Prop} {p : α → Bool} {q : β → Bool}
    (hsame : ∀ a b, R a b → p a = q b) {l : List α} {m : List β} (h : List.Forall₂ R l m) :
    Option.Rel R (l.find? p) (m.find? q) := by
  induction h with
  | nil => exact .none
  | @cons a b l m hab _ ih =>
      rw [List.find?_cons, List.find?_cons, hsame a b hab]
      cases q b with
      | true => exact .some hab
      | false => exact ih

/-- Under a name stands what the last cell with that name is read as. -/
theorem get?_of_readCells {columns : List Column} {read : List (Column × Value)}
    (hread : readCells columns cells = .ok read) {name : String} {c : Column} {cell : String}
    (hlast : lastNamed? name columns cells = some (c, cell)) :
    ∃ v, (KeyMap.ofList (read.map fun e => (e.1.name, e.2))).get? name = some v ∧
      c.read cell = .ok v := by
  have hcells := List.forall₂_reverse_iff.2 (forall₂_of_readCells hread)
  have hfound := find?_rel (p := fun e => e.1.name = name) (q := fun x => x.1.name = name)
    (by rintro e x ⟨heq, -⟩; rw [heq]) hcells
  rw [← lastNamed?, hlast] at hfound
  rw [KeyMap.get?_ofList, ← List.map_reverse, List.find?_map]
  generalize hx : List.find? (fun x : Column × Value => decide (x.1.name = name)) read.reverse = x
    at hfound
  cases hfound with
  | some hsame => exact ⟨_, by simp only [Function.comp_def, hx]; rfl, hsame.2⟩

/-- The parts of a record are filled from the same readings. -/
theorem parts_of_readRecord (hrecord : readRecord d h cells = .ok r) :
    ∃ read, readCells h.columns cells = .ok read ∧
      let named (l : List (Column × Value)) := KeyMap.ofList (l.map fun e => (e.1.name, e.2))
      r.columns = named read ∧
        r.tags = named (read.filter fun e => !d.contains e.1.name && e.1.group) ∧
        r.values = named (read.filter fun e => d.contains e.1.name) ∧ r.valueColumn = d.primary := by
  cases hcells : readCells h.columns cells with
  | ok read =>
      simp only [readRecord, hcells] at hrecord
      obtain rfl := Except.ok.inj hrecord
      exact ⟨read, rfl, rfl, rfl, rfl, rfl⟩
  | error e =>
      simp only [readRecord, hcells] at hrecord
      cases hrecord

theorem exists_lastNamed? {columns : List Column} (hlength : cells.length = columns.length)
    {name : String} (hname : name ∈ columns.map Column.name) :
    ∃ c cell, lastNamed? name columns cells = some (c, cell) := by
  rw [← List.map_fst_zip hlength.ge, List.map_map, List.mem_map] at hname
  obtain ⟨e, he, hname⟩ := hname
  have hsome : (lastNamed? name columns cells).isSome = true := by
    rw [lastNamed?, List.find?_isSome]
    exact ⟨e, List.mem_reverse.2 he, by simpa using hname⟩
  obtain ⟨⟨c, cell⟩, hlast⟩ := Option.isSome_iff_exists.1 hsome
  exact ⟨c, cell, hlast⟩

theorem follows_of_readRecord {named : List String}
    (hnamed : ∀ name, d.contains name = true ↔ name ∈ named)
    (hfirst : ∀ first, named.head? = some first → d.primary = first) (htagged : h.Tagged d)
    (hlength : cells.length = h.columns.length) (hrecord : readRecord d h cells = .ok r) :
    r.Follows named h.columns cells := by
  obtain ⟨read, hread, hcolumns, htags, hvalues, hprimary⟩ := parts_of_readRecord hrecord
  have hfst : read.map Prod.fst = h.columns := map_fst_readCells hread hlength
  have hkeys : ∀ name, name ∈ r.columns.keys ↔ name ∈ h.columns.map Column.name :=
    mem_keys_of_readRecord hrecord hlength
  have hmem : ∀ keep : Column → Bool, ∀ name,
      name ∈ (KeyMap.ofList ((read.filter fun e => keep e.1).map fun e => (e.1.name, e.2))).keys ↔
        ∃ c ∈ h.columns, keep c = true ∧ c.name = name := by
    intro keep name
    rw [KeyMap.mem_keys_ofList, ← hfst]
    simp only [List.map_map, List.mem_map, List.mem_filter, Function.comp_apply]
    constructor
    · rintro ⟨e, ⟨he, hkeep⟩, hname⟩
      exact ⟨e.1, ⟨e, he, rfl⟩, hkeep, hname⟩
    · rintro ⟨c, ⟨e, he, rfl⟩, hkeep, hname⟩
      exact ⟨e, ⟨he, hkeep⟩, hname⟩
  have hget : ∀ name, r.values.get? name = if d.contains name then r.get? name else none := by
    intro name
    have hfilter := KeyMap.get?_ofList_filter d.contains (read.map fun e => (e.1.name, e.2)) name
    rw [List.filter_map] at hfilter
    rw [hvalues, Record.get?, hcolumns]
    exact hfilter
  have habsent : ∀ name, name ∉ h.columns.map Column.name → r.get? name = none := fun name hname =>
    KeyMap.get?_eq_none_of_not_mem_keys fun hmem => hname ((hkeys name).1 hmem)
  have hvalue : ∀ name, name ∈ r.values.keys ↔
      name ∈ h.columns.map Column.name ∧ name ∈ named := by
    intro name
    rw [hvalues, hmem fun c => d.contains c.name, List.mem_map, ← hnamed]
    constructor
    · rintro ⟨c, hc, hkeep, rfl⟩
      exact ⟨⟨c, hc, rfl⟩, hkeep⟩
    · rintro ⟨⟨c, hc, rfl⟩, hkeep⟩
      exact ⟨c, hc, hkeep, rfl⟩
  have htag : ∀ name, name ∈ r.tags.keys ↔ ∃ c ∈ h.columns, c.tag = true ∧ c.name = name := by
    intro name
    rw [htags, hmem fun c => !d.contains c.name && c.group]
    refine exists_congr fun c => and_congr_right fun hc => ?_
    rw [htagged c hc, Bool.and_comm]
  refine ⟨fun name hname => ?_, habsent, hvalue, htag, fun name hname hno => ?_,
    fun name hname => ?_, fun first hhead => ?_⟩
  · obtain ⟨c, cell, hlast⟩ := exists_lastNamed? hlength hname
    obtain ⟨v, hv, hcell⟩ := get?_of_readCells hread hlast
    exact ⟨c, cell, v, hlast, by rw [Record.get?, hcolumns, hv], c.holds_of_read hcell⟩
  · obtain ⟨c, hc, hflag, rfl⟩ := (htag name).1 hno
    have hkeep := (hnamed c.name).2 ((hvalue c.name).1 hname).2
    rw [htagged c hc, hkeep, Bool.not_true, Bool.and_false] at hflag
    cases hflag
  · rw [hget, if_pos ((hnamed name).2 ((hvalue name).1 hname).2)]
  · have hdestination : d.contains first = true :=
      (hnamed first).2 (List.mem_of_mem_head? hhead)
    rw [Record.value?, hprimary, hfirst first hhead, hget, if_pos hdestination]
    split
    · rfl
    · next hno => exact habsent first hno

end Cells

theorem mem_setEach {f : Column → String → Column} {columns : List Column} {cells : List String}
    (hlength : cells.length = columns.length) {c' : Column} (hc' : c' ∈ setEach f columns cells) :
    ∃ c cell, c' = f c cell := by
  induction columns generalizing cells with
  | nil =>
      obtain rfl : cells = [] := List.length_eq_zero_iff.1 hlength
      cases hc'
  | cons c columns ih =>
      cases cells with
      | nil => cases hlength
      | cons cell cells =>
          rcases List.mem_cons.1 hc' with rfl | hc'
          · exact ⟨c, cell, rfl⟩
          · exact ih (Nat.succ.inj hlength) hc'

namespace ScanState

variable {d : Destinations} {s s' : ScanState} {row : Csv.Row}
  {out : List (Except TableError Event)}

/-- Among data rows the flags of the columns tell which of them are tags. -/
def Tagged (d : Destinations) (s : ScanState) : Prop :=
  s.mode = .data → ∀ h, s.block = some h → h.Tagged d

theorem tagged_named {h : TableHead} {cells : List String}
    (hlength : cells.length = h.columns.length) : (h.named d cells).Tagged d := by
  intro c hc
  obtain ⟨c, cell, rfl⟩ := mem_setEach hlength hc
  rfl

/-- Flags are right behind a row if they were right in front of it, and in the table it starts. -/
theorem Turn.tagged (turn : Turn d s row s' out) (hs : s.Tagged d) :
    s'.Tagged d ∧ ∀ h, .ok (.table h) ∈ out → h.Tagged d := by
  cases turn with
  | blank | single | homeless | width | untyped | failure =>
      exact ⟨hs, by simp⟩
  | @annotates first cells h fits hfirst =>
      refine ⟨fun hmode => ?_, fun k hk => ?_⟩
      · have hself := annotationRow_of_data hmode
        rw [hself] at hmode ⊢
        exact hs hmode
      · rcases (annotationRow_turn _ _ _ _).2.2 with hout | ⟨e, hout⟩ <;> rw [hout] at hk <;>
          simp at hk
  | report => exact ⟨nofun, by simp⟩
  | @names cells h fits hmode htyped hreport =>
      have hnamed : ∀ position, { h.named d cells with position := position }.Tagged d :=
        fun _ => tagged_named fits.width
      refine ⟨fun _ k hk => ?_, fun k hk => ?_⟩
      · obtain rfl := Option.some.inj hk
        exact hnamed _
      · obtain rfl : k = _ := by simpa using hk
        exact hnamed _
  | record fits hmode => exact ⟨hs, by simp⟩
  | malformed fits hmode => exact ⟨hs, by simp⟩
  | @table cells h r fits hmode =>
      have hcurrent : ∀ position, { h with position := position }.Tagged d :=
        fun _ => hs hmode h fits.block_eq
      refine ⟨fun _ k hk => ?_, fun k hk => ?_⟩
      · obtain rfl := Option.some.inj hk
        exact hcurrent _
      · obtain rfl : k = _ := by simpa using hk
        exact hcurrent _
  | @lost cells h e fits hmode =>
      refine ⟨fun _ k hk => ?_, by simp⟩
      obtain rfl := Option.some.inj hk
      exact hs hmode h fits.block_eq

/-- Every table that is told has the right flags, and every event comes from a row that was read. -/
theorem of_mem_sourced (hs : s.Tagged d) {rows : List (Except Csv.RowFault Csv.Row)} {e : Event}
    (he : (row, e) ∈ s.sourced d rows) :
    .ok row ∈ rows ∧ ∀ h, e = .table h → h.Tagged d := by
  induction rows generalizing s with
  | nil => cases he
  | cons first rows ih =>
      cases first with
      | error fault => cases he
      | ok first =>
          have turn := turn_step d s first
          obtain ⟨hs', hout⟩ := turn.tagged hs
          obtain ⟨events, hevents⟩ | ⟨fault, hfault⟩ := turn.events_or_error
          · rw [sourced_cons_of_ok hevents, List.mem_append, List.mem_map] at he
            rcases he with ⟨e', he', heq⟩ | he
            · obtain ⟨rfl, rfl⟩ := Prod.mk.inj heq
              refine ⟨List.mem_cons_self, fun h hh => hout h ?_⟩
              rw [hevents, ← hh]
              exact List.mem_map_of_mem he'
            · obtain ⟨hrow, htable⟩ := ih hs' he
              exact ⟨List.mem_cons_of_mem _ hrow, htable⟩
          · rw [sourced_cons_of_error hfault] at he
            cases he

end ScanState

/-- Gathering keeps every table and every record with the row it came from. -/
theorem mem_gatherSourced {events : List (Csv.Row × Event)} :
    (∀ x ∈ (gatherSourced events).1, (x.1, Event.record x.2) ∈ events) ∧
      ∀ t ∈ (gatherSourced events).2, (∃ row, (row, Event.table t.head) ∈ events) ∧
        ∀ x ∈ t.rows, (x.1, Event.record x.2) ∈ events := by
  induction events with
  | nil => exact ⟨nofun, nofun⟩
  | cons e events ih =>
      obtain ⟨hrecords, htables⟩ := ih
      obtain ⟨row, table | record⟩ := e
      · refine ⟨nofun, fun t ht => ?_⟩
        rcases List.mem_cons.1 ht with rfl | ht
        · exact ⟨⟨row, List.mem_cons_self⟩, fun x hx => List.mem_cons_of_mem _ (hrecords x hx)⟩
        · obtain ⟨⟨row', hrow'⟩, hrows⟩ := htables t ht
          exact ⟨⟨row', List.mem_cons_of_mem _ hrow'⟩,
            fun x hx => List.mem_cons_of_mem _ (hrows x hx)⟩
      · refine ⟨fun x hx => ?_, fun t ht => ?_⟩
        · rcases List.mem_cons.1 hx with rfl | hx
          · exact List.mem_cons_self
          · exact List.mem_cons_of_mem _ (hrecords x hx)
        · obtain ⟨⟨row', hrow'⟩, hrows⟩ := htables t ht
          exact ⟨⟨row', List.mem_cons_of_mem _ hrow'⟩,
            fun x hx => List.mem_cons_of_mem _ (hrows x hx)⟩

open ScanState

theorem tables_eq_sourcedTables (destinations : List String) (input : Csv.Input) :
    (decodeTables destinations input).tables =
      (sourcedTables destinations input).map SourcedTable.table := by
  have hrows := decodeRows_eq destinations input.rows
  simp only [← map_snd_sourced, gather_map_snd] at hrows
  rw [decodeTables_eq_decodeRows, hrows]
  rfl

/-- Any response and any destinations, with or without a fault. The decoded tables are gathered with
the row of every record. A column is flagged as a tag if and only if it is grouped and no
destination. Every record was read from a row of the response that is as wide as its table, and it
follows the columns and the cells of that row: types, nulls, tags, values and the first of them. -/
theorem records_typed_and_split (destinations : List String) (input : Csv.Input) :
    let named := if destinations = [] then ["_value"] else destinations
    let tables := sourcedTables destinations input
    (decodeTables destinations input).tables = tables.map SourcedTable.table ∧
      ∀ t ∈ tables,
        (∀ c ∈ t.head.columns, c.tag = true ↔ c.group = true ∧ c.name ∉ named) ∧
          ∀ x ∈ t.rows, .ok x.1 ∈ input.rows ∧ x.1.cells.tail.length = t.head.columns.length ∧
            x.2.Follows named t.head.columns x.1.cells.tail := by
  intro named tables
  refine ⟨tables_eq_sourcedTables destinations input, fun t ht => ?_⟩
  have hnamed := Destinations.contains_ofList destinations
  have hstart : ({} : ScanState).Tagged (Destinations.ofList destinations) := nofun
  obtain ⟨⟨row, hrow⟩, hrecords⟩ := mem_gatherSourced.2 t ht
  have htagged := (of_mem_sourced hstart hrow).2 t.head rfl
  obtain ⟨i, hi⟩ := List.mem_iff_getElem?.1 ht
  have hgathered := gathered_sourced (d := Destinations.ofList destinations) numbered_start
    input.rows
  obtain ⟨cell, hrows⟩ := (hgathered.shaped i t hi).rows
  refine ⟨fun c hc => ?_, fun x hx => ?_⟩
  · rw [htagged c hc, Bool.and_eq_true, Bool.not_eq_true', ← hnamed, Bool.not_eq_true]
  · obtain ⟨hreads, -⟩ := hrows x hx
    exact ⟨(of_mem_sourced hstart (hrecords x hx)).1, hreads.width,
      follows_of_readRecord hnamed (fun _ => Destinations.primary_ofList) htagged hreads.width
        hreads.record⟩

end TimeSeries
