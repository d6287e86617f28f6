import Mathlib.Data.List.Induction
import TimeSeries.Proofs.Table.Malformed

/-!
# Declared types

A row of types sets the types of the columns of its block from left to right. If it holds a name that
is no type, the reader is told of it, and the columns from there on keep the types that they had; the
row is not taken back. So the types of a table are what all rows of types of its block have made of
texts, one after the other, and `tables_have_declared_types` says so for every table that is told,
whatever faults a reader goes on behind. They are those of the last row if and only if all of its
names are types.

The annotations of a block are the rows on which the reader is among annotations: from one that it
meets among data rows up to the names of the columns (`BlockRows`).
-/

namespace TimeSeries

/-- The types behind a row of types. -/
def setDataTypes : List DataType → List String → List DataType
  | t :: types, name :: names =>
    match DataType.ofName? name with
    | some t' => t' :: setDataTypes types names
    | none => t :: types
  | types, _ => types

/-- The names in a row of types of a block. -/
def typeNames? (width : Nat) : Except Csv.RowFault Csv.Row → Option (List String)
  | .ok row =>
    if row.cells.head? = some "#datatype" ∧ row.cells.length = width + 1 then some row.cells.tail
    else none
  | .error _ => none

/-- The names in the rows of types among annotations. -/
def declarations (width : Nat) (notes : List (Except Csv.RowFault Csv.Row)) : List (List String) :=
  notes.filterMap (typeNames? width)

/-- The types that these rows of types have made of texts. -/
def declaredTypes (width : Nat) (rows : List (List String)) : List DataType :=
  rows.foldl setDataTypes (List.replicate width .string)

def TableHead.dataTypes (h : TableHead) : List DataType := h.columns.map Column.dataType

section Types

variable {types : List DataType} {names : List String}

theorem length_setDataTypes (types : List DataType) (names : List String) :
    (setDataTypes types names).length = types.length := by
  fun_induction setDataTypes types names with
  | case1 t types name names t' _ ih => rw [List.length_cons, List.length_cons, ih]
  | case2 => rfl
  | case3 => rfl

theorem length_declaredTypes (width : Nat) (rows : List (List String)) :
    (declaredTypes width rows).length = width := by
  induction rows using List.reverseRecOn with
  | nil => exact List.length_replicate
  | append_singleton rows row ih =>
      rw [declaredTypes, List.foldl_append, ← declaredTypes]
      exact (length_setDataTypes _ _).trans ih

/-- The types are those of the names if and only if all of them are types. -/
theorem setDataTypes_eq_iff (hlength : names.length = types.length) :
    (setDataTypes types names).map some = names.map DataType.ofName? ↔
      ∀ name ∈ names, (DataType.ofName? name).isSome = true := by
  induction names generalizing types with
  | nil =>
      obtain rfl := List.length_eq_zero_iff.1 hlength.symm
      simp [setDataTypes]
  | cons name names ih =>
      cases types with
      | nil => cases hlength
      | cons t types =>
          rw [setDataTypes, List.forall_mem_cons]
          cases hname : DataType.ofName? name with
          | none => simp [hname]
          | some t' => simpa [hname] using ih (Nat.succ.inj hlength)

theorem map_dataType_setTypes (columns : List Column) (cells : List String) :
    (setTypes columns cells).1.map Column.dataType =
      setDataTypes (columns.map Column.dataType) cells := by
  induction columns generalizing cells with
  | nil => cases cells <;> rfl
  | cons c columns ih =>
      cases cells with
      | nil => rfl
      | cons cell cells =>
          rw [setTypes, List.map_cons, setDataTypes]
          cases DataType.ofName? cell with
          | none => rfl
          | some t => simp only [List.map_cons, ih]

theorem map_dataType_setEach {f : Column → String → Column}
    (hf : ∀ c cell, (f c cell).dataType = c.dataType) (columns : List Column)
    (cells : List String) :
    (setEach f columns cells).map Column.dataType = columns.map Column.dataType := by
  induction columns generalizing cells with
  | nil => cases cells <;> rfl
  | cons c columns ih =>
      cases cells with
      | nil => rfl
      | cons cell cells => rw [setEach, List.map_cons, List.map_cons, hf, ih]

end Types

section Names

variable {width : Nat} {row : Csv.Row} {first : String} {cells : List String}

theorem typeNames?_eq_some (hrow : row.cells = "#datatype" :: cells)
    (hwidth : cells.length = width) : typeNames? width (.ok row) = some cells := by
  rw [typeNames?, hrow, if_pos ⟨rfl, congrArg Nat.succ hwidth⟩, List.tail_cons]

theorem typeNames?_eq_none (hrow : row.cells = first :: cells)
    (hother : first = "#datatype" → cells.length ≠ width) :
    typeNames? width (.ok row) = none := by
  refine if_neg fun ⟨hfirst, hwidth⟩ => ?_
  rw [hrow] at hfirst hwidth
  exact hother (Option.some.inj hfirst) (Nat.succ.inj hwidth)

theorem length_of_typeNames? {row : Except Csv.RowFault Csv.Row}
    (h : typeNames? width row = some cells) : cells.length = width := by
  cases row with
  | error fault => cases h
  | ok row =>
      obtain ⟨⟨-, hwidth⟩, htail⟩ := Option.ite_none_right_eq_some.1 h
      rw [← Option.some.inj htail, List.length_tail, hwidth, Nat.add_sub_cancel]

theorem typeNames?_of_blank (hrow : row.cells = [] ∨ row.cells = [""]) :
    typeNames? width (.ok row) = none := by
  refine if_neg fun ⟨hfirst, _⟩ => ?_
  rcases hrow with hrow | hrow <;> simp [hrow] at hfirst

end Names

namespace ScanState

variable {d : Destinations} {s s' : ScanState} {row : Csv.Row} {h : TableHead} {width : Nat}
  {out : List (Except TableError Event)} {declared : List (List String)}

/-- The state of a block of this width behind these rows of types. -/
structure Declaring (s : ScanState) (width : Nat) (declared : List (List String)) : Prop where
  block : ∃ h, s.block = some h ∧ h.dataTypes = declaredTypes width declared
  typed : s.typed = true → declared ≠ []

theorem Declaring.length_eq (hs : s.Declaring width declared) (hblock : s.block = some h) :
    h.columns.length = width := by
  obtain ⟨k, hk, htypes⟩ := hs.block
  obtain rfl := Option.some.inj (hblock.symm.trans hk)
  rw [← length_declaredTypes width declared, ← htypes, TableHead.dataTypes, List.length_map]

theorem Declaring.reach (hs : s.Declaring width declared) (row : Csv.Row) (blank : Bool) :
    (s.reach row blank).Declaring width declared :=
  ⟨hs.block, hs.typed⟩

theorem Declaring.annotationRow (hs : s.Declaring width declared) (hblock : s.block = some h)
    {first : String} {cells : List String} (hrow : row.cells = first :: cells)
    (hwidth : cells.length = h.columns.length) :
    (s.annotationRow h first cells).1.Declaring width
      (declared ++ (typeNames? width (.ok row)).toList) := by
  obtain ⟨k, hk, htypes⟩ := hs.block
  obtain rfl := Option.some.inj (hblock.symm.trans hk)
  have hlength := hwidth.trans (hs.length_eq hblock)
  have hother : first ≠ "#datatype" → typeNames? width (.ok row) = none := fun hfirst =>
    typeNames?_eq_none hrow fun heq => absurd heq hfirst
  rw [ScanState.annotationRow]
  split
  · next hfirst =>
      rw [typeNames?_eq_some (hrow.trans (congrArg (· :: cells) hfirst)) hlength]
      refine ⟨⟨_, rfl, ?_⟩, by simp⟩
      rw [TableHead.dataTypes, map_dataType_setTypes, ← TableHead.dataTypes, htypes, declaredTypes,
        declaredTypes, Option.toList_some, List.foldl_append]
      rfl
  · next hfirst =>
      rw [hother hfirst, Option.toList_none, List.append_nil]
      split
      · exact ⟨⟨_, rfl, (map_dataType_setEach (fun _ _ => by rfl) _ _).trans htypes⟩, hs.typed⟩
      · split
        · exact ⟨⟨_, rfl, (map_dataType_setEach (fun _ _ => by rfl) _ _).trans htypes⟩,
            hs.typed⟩
        · exact hs

/-- A row among the annotations of a block. -/
theorem Turn.declaring (turn : Turn d s row s' out) (hs : s.Declaring width declared)
    (hwidth : width ≠ 0) (hmode : s.mode = .annotations) (hmode' : s'.mode = .annotations) :
    s'.Declaring width (declared ++ (typeNames? width (.ok row)).toList) := by
  have hquiet : ∀ blank, typeNames? width (.ok row) = none →
      (s.reach row blank).Declaring width (declared ++ (typeNames? width (.ok row)).toList) := by
    intro blank hnone
    rw [hnone, Option.toList_none, List.append_nil]
    exact hs.reach row blank
  have hfits : ∀ {cells h}, s.Fits row "" cells h → typeNames? width (.ok row) = none :=
    fun fits => typeNames?_eq_none fits.eq_cons fun heq => absurd heq (by decide)
  cases turn with
  | blank hrow => exact hquiet true (typeNames?_of_blank hrow)
  | single hrow hcell => exact hquiet false (typeNames?_eq_none hrow fun _ => hwidth.symm)
  | homeless hrow hcells hblock =>
      obtain ⟨h, hh, -⟩ := hs.block
      cases hblock.symm.trans hh
  | width hrow hcells hblock hne =>
      rw [hs.length_eq hblock] at hne
      exact hquiet false (typeNames?_eq_none hrow fun _ => hne)
  | @annotates first cells h fits hfirst =>
      have hself : (s.reach row false).opened first cells = s.reach row false :=
        opened_of_mode_ne (by rw [mode_reach, hmode]; decide) _ _
      have hblock := fits.block
      rw [hself] at hblock ⊢
      exact (hs.reach row false).annotationRow hblock fits.eq_cons fits.width
  | untyped fits | failure fits => exact hquiet false (hfits fits)
  | report => cases hmode'
  | names => cases hmode'
  | record fits hdata | table fits hdata | malformed fits hdata | lost fits hdata =>
      rw [hmode] at hdata
      cases hdata

theorem dataTypes_blank (position width : Nat) :
    (TableHead.blank position width).dataTypes = declaredTypes width [] := by
  rw [TableHead.dataTypes, TableHead.blank, List.map_map, declaredTypes, List.foldl_nil]
  exact List.map_const' .. |>.trans (congrArg (List.replicate · _) List.length_range)

/-- A row of annotations among data rows opens a block of its width. -/
theorem Turn.opens (turn : Turn d s row s' out) (hmode : s.mode = .data)
    (hmode' : s'.mode = .annotations) :
    ∃ width, width ≠ 0 ∧ s'.Declaring width (typeNames? width (.ok row)).toList := by
  cases turn with
  | @annotates first cells h fits hfirst =>
      have hreach : (s.reach row false).mode = .data := hmode
      rw [(annotationRow_turn _ _ _ _).1] at hmode'
      by_cases hopens : first.toList.head? = some '#' ∧ (s.reach row false).mode = .data
      · have hopened : ((s.reach row false).opened first cells).Declaring cells.length [] := by
          rw [ScanState.opened, if_pos hopens]
          exact ⟨⟨_, rfl, dataTypes_blank _ _⟩, fun htyped => by cases htyped⟩
        exact ⟨cells.length, fun hzero => fits.ne_nil (List.length_eq_zero_iff.1 hzero),
          hopened.annotationRow fits.block fits.eq_cons fits.width⟩
      · rw [ScanState.opened, if_neg hopens, hreach] at hmode'
        cases hmode'
  | blank | single | homeless | width | failure | record | malformed =>
      cases hmode.symm.trans hmode'
  | untyped _ hannotations | names _ hannotations | report _ hannotations =>
      cases hmode.symm.trans hannotations
  | table | lost => cases hmode.symm.trans hmode'

/-- Behind the annotations of a block the names of its columns start a table with its types. -/
theorem Turn.of_names (turn : Turn d s row s' out) (hs : s.Declaring width declared)
    (hmode : s.mode = .annotations) (hmode' : s'.mode = .data) :
    declared ≠ [] ∧ ∃ h, s'.block = some h ∧ h.dataTypes = declaredTypes width declared ∧
      row.cells = "" :: h.columns.map Column.name := by
  cases turn with
  | @names cells h fits _ htyped hreport =>
      obtain ⟨k, hk, htypes⟩ := hs.block
      obtain rfl := Option.some.inj (fits.block_eq.symm.trans hk)
      refine ⟨hs.typed htyped, _, rfl, ?_, ?_⟩
      · exact (map_dataType_setEach (fun _ _ => by rfl) _ _).trans htypes
      · rw [fits.eq_cons]
        exact congrArg _ (map_name_setEach (fun _ _ => by rfl) fits.width).symm
  | @annotates first cells h fits hfirst =>
      rw [(annotationRow_turn _ _ _ _).1, opened_of_mode_ne (by rw [mode_reach, hmode]; decide),
        mode_reach, hmode] at hmode'
      cases hmode'
  | blank | single | homeless | width | untyped | failure => cases hmode.symm.trans hmode'
  | report => cases hmode'
  | record _ hdata | table _ hdata | malformed _ hdata | lost _ hdata =>
      cases hmode.symm.trans hdata

/-- Among data rows the columns of the block stay as they are. -/
theorem Turn.columns_eq (turn : Turn d s row s' out) (hmode : s.mode = .data)
    (hmode' : s'.mode = .data) {h' : TableHead} (hblock' : s'.block = some h') :
    ∃ h, s.block = some h ∧ h'.columns = h.columns := by
  cases turn with
  | @annotates first cells h fits hfirst =>
      have hself := annotationRow_of_data hmode'
      rw [hself] at hblock'
      exact ⟨h', hblock', rfl⟩
  | blank | single | homeless | width | failure | record | malformed => exact ⟨h', hblock', rfl⟩
  | untyped _ hannotations | names _ hannotations | report _ hannotations =>
      cases hmode.symm.trans hannotations
  | table fits | lost fits =>
      obtain rfl := Option.some.inj hblock'
      exact ⟨_, fits.block_eq, rfl⟩

/-- The table that a row brings is its first result, and that of the block behind it. -/
theorem Turn.of_table (turn : Turn d s row s' out) {j : Nat}
    (hget : out[j]? = some (.ok (.table h))) :
    j = 0 ∧ s'.mode = .data ∧ s'.block = some h := by
  have hmem := List.mem_of_getElem? hget
  cases turn with
  | names =>
      obtain rfl : h = _ := by simpa using hmem
      obtain ⟨hj, -⟩ := List.getElem?_eq_some_iff.1 hget
      exact ⟨Nat.lt_one_iff.1 hj, rfl, rfl⟩
  | table _ hmode =>
      obtain rfl : h = _ := by simpa using hmem
      refine ⟨?_, hmode, rfl⟩
      match j with
      | 0 => rfl
      | 1 => cases hget
  | annotates =>
      rcases (annotationRow_turn _ _ _ _).2.2 with hout | ⟨e, hout⟩ <;> rw [hout] at hmem <;>
        simp at hmem
  | _ => simp at hmem

section Blocks

variable {rows notes : List (Except Csv.RowFault Csv.Row)}

/-- The reader is in this mode behind each of some rows. -/
def StaysIn (d : Destinations) (mode : Mode) :
    ScanState → List (Except Csv.RowFault Csv.Row) → Prop
  | _, [] => True
  | s, row :: rows => (s.next d row).1.mode = mode ∧ StaysIn d mode (s.next d row).1 rows

theorem run_concat (s : ScanState) (rows : List (Except Csv.RowFault Csv.Row))
    (row : Except Csv.RowFault Csv.Row) :
    (s.run d (rows ++ [row])).1 = ((s.run d rows).1.next d row).1 := by
  rw [run_append]
  rfl

theorem staysIn_concat {mode : Mode} {row : Except Csv.RowFault Csv.Row} :
    s.StaysIn d mode (rows ++ [row]) ↔
      s.StaysIn d mode rows ∧ (s.run d (rows ++ [row])).1.mode = mode := by
  induction rows generalizing s with
  | nil => exact and_comm.trans (and_congr_left fun _ => iff_of_eq rfl)
  | cons first rows ih => exact (and_congr_right fun _ => ih).trans and_assoc.symm

/-- The annotations of a block, from the one that opens it among data rows on, and behind them the
row of names and data rows. -/
structure BlockRows (d : Destinations) (s : ScanState)
    (notes rows : List (Except Csv.RowFault Csv.Row)) : Prop where
  outside : s.mode = .data
  ne_nil : notes ≠ []
  noted : s.StaysIn d .annotations notes
  named : (s.run d notes).1.StaysIn d .data rows

theorem BlockRows.concat_note {row : Except Csv.RowFault Csv.Row} (h : s.BlockRows d notes [])
    (hmode : (s.run d (notes ++ [row])).1.mode = .annotations) : s.BlockRows d (notes ++ [row]) [] :=
  ⟨h.outside, by simp, staysIn_concat.2 ⟨h.noted, hmode⟩, trivial⟩

theorem BlockRows.concat {row : Except Csv.RowFault Csv.Row} (h : s.BlockRows d notes rows)
    (hmode : (s.run d (notes ++ (rows ++ [row]))).1.mode = .data) :
    s.BlockRows d notes (rows ++ [row]) := by
  rw [run_append] at hmode
  exact ⟨h.outside, h.ne_nil, h.noted, staysIn_concat.2 ⟨h.named, hmode⟩⟩

end Blocks

end ScanState

open ScanState

/-- The names and types of a table come from the names and the annotations of its block. -/
structure TableHead.HeadedBy (h : TableHead) (notes : List (Except Csv.RowFault Csv.Row))
    (header : Csv.Row) : Prop where
  names : header.cells = "" :: h.columns.map Column.name
  declared : declarations h.columns.length notes ≠ []
  types : h.dataTypes = declaredTypes h.columns.length (declarations h.columns.length notes)

/-- The types are those in the last row of types if and only if it holds nothing else. -/
theorem TableHead.HeadedBy.exists_last {h : TableHead}
    {notes : List (Except Csv.RowFault Csv.Row)} {header : Csv.Row} (hh : h.HeadedBy notes header) :
    ∃ last, (declarations h.columns.length notes).getLast? = some last ∧
      (h.dataTypes.map some = last.map DataType.ofName? ↔
        ∀ name ∈ last, (DataType.ofName? name).isSome = true) := by
  obtain ⟨earlier, last, hsplit⟩ := (List.eq_nil_or_concat' _).resolve_left hh.declared
  have hmem : last ∈ declarations h.columns.length notes := hsplit ▸ List.mem_concat_self
  obtain ⟨row, -, hrow⟩ := List.mem_filterMap.1 hmem
  have hlength := length_of_typeNames? hrow
  refine ⟨last, hsplit ▸ List.getLast?_concat, ?_⟩
  rw [hh.types, hsplit, declaredTypes, List.foldl_append, ← declaredTypes]
  exact setDataTypes_eq_iff (hlength.trans (length_declaredTypes _ _).symm)

section Traces

variable {d : Destinations} {rows : List (Except Csv.RowFault Csv.Row)} {s : ScanState}

/-- The last rows are the annotations of an open block. -/
def NotesAtEnd (d : Destinations) (rows : List (Except Csv.RowFault Csv.Row)) (s : ScanState) :
    Prop :=
  ∃ front notes width, rows = front ++ notes ∧
    BlockRows d (({} : ScanState).run d front).1 notes [] ∧ width ≠ 0 ∧
      s.Declaring width (declarations width notes)

/-- The last rows are those of a block with this head. -/
def BlockAtEnd (d : Destinations) (rows : List (Except Csv.RowFault Csv.Row)) (h : TableHead) :
    Prop :=
  ∃ front notes header more, rows = front ++ (notes ++ .ok header :: more) ∧
    BlockRows d (({} : ScanState).run d front).1 notes (.ok header :: more) ∧ h.HeadedBy notes header

/-- What is known of a block behind some rows has its reason in these rows. -/
structure Traced (d : Destinations) (rows : List (Except Csv.RowFault Csv.Row))
    (s : ScanState) : Prop where
  annotations : s.mode = .annotations → NotesAtEnd d rows s
  data : s.mode = .data → ∀ h, s.block = some h → BlockAtEnd d rows h

theorem declarations_concat (width : Nat) (notes : List (Except Csv.RowFault Csv.Row))
    (row : Except Csv.RowFault Csv.Row) :
    declarations width (notes ++ [row]) =
      declarations width notes ++ (typeNames? width row).toList := by
  rw [declarations, List.filterMap_append, declarations]
  cases h : typeNames? width row <;> simp [h]

theorem run_start_append (front rows : List (Except Csv.RowFault Csv.Row)) :
    (({} : ScanState).run d (front ++ rows)).1 =
      ((({} : ScanState).run d front).1.run d rows).1 := by
  rw [run_append]

/-- One more row among annotations. -/
theorem NotesAtEnd.concat {row : Except Csv.RowFault Csv.Row} (h : NotesAtEnd d rows s)
    (hmode : (({} : ScanState).run d (rows ++ [row])).1.mode = .annotations)
    (hnext : ∀ width declared, width ≠ 0 → s.Declaring width declared →
      (({} : ScanState).run d (rows ++ [row])).1.Declaring width
        (declared ++ (typeNames? width row).toList)) :
    NotesAtEnd d (rows ++ [row]) (({} : ScanState).run d (rows ++ [row])).1 := by
  obtain ⟨front, notes, width, rfl, hblock, hwidth, hdeclaring⟩ := h
  refine ⟨front, notes ++ [row], width, List.append_assoc _ _ _, hblock.concat_note ?_, hwidth,
    declarations_concat width notes row ▸ hnext width _ hwidth hdeclaring⟩
  rwa [List.append_assoc, run_start_append] at hmode

/-- One more row among the data rows of a block. -/
theorem BlockAtEnd.concat {row : Except Csv.RowFault Csv.Row} {before h : TableHead}
    (hbefore : BlockAtEnd d rows before)
    (hmode : (({} : ScanState).run d (rows ++ [row])).1.mode = .data)
    (hcolumns : h.columns = before.columns) : BlockAtEnd d (rows ++ [row]) h := by
  obtain ⟨front, notes, header, more, rfl, hblock, hheaded⟩ := hbefore
  have hnext : BlockRows d (({} : ScanState).run d front).1 notes (.ok header :: (more ++ [row])) := by
    rw [List.append_assoc, List.append_assoc, run_start_append] at hmode
    exact hblock.concat hmode
  refine ⟨front, notes, header, more ++ [row], by simp, hnext,
    hcolumns ▸ hheaded.names, hcolumns ▸ hheaded.declared, ?_⟩
  rw [TableHead.dataTypes, hcolumns]
  exact hheaded.types

theorem Traced.concat_error (h : Traced d rows (({} : ScanState).run d rows).1)
    (fault : Csv.RowFault) :
    Traced d (rows ++ [.error fault]) (({} : ScanState).run d (rows ++ [.error fault])).1 := by
  have hsame : (({} : ScanState).run d (rows ++ [.error fault])).1 =
      (({} : ScanState).run d rows).1 := run_concat _ _ _
  constructor
  · intro hmode
    refine (h.annotations (hsame ▸ hmode)).concat hmode fun width declared _ hdeclaring => ?_
    rw [hsame]
    exact (List.append_nil declared).symm ▸ hdeclaring
  · intro hmode head hhead
    exact (h.data (hsame ▸ hmode) head (hsame ▸ hhead)).concat hmode rfl

theorem Traced.concat (h : Traced d rows (({} : ScanState).run d rows).1) (row : Csv.Row) :
    Traced d (rows ++ [.ok row]) (({} : ScanState).run d (rows ++ [.ok row])).1 := by
  have turn := turn_step d (({} : ScanState).run d rows).1 row
  have hstep : (({} : ScanState).run d (rows ++ [.ok row])).1 =
      ((({} : ScanState).run d rows).1.step d row).1 := run_concat _ _ _
  rw [← hstep] at turn
  constructor
  · intro hmode'
    cases hmode : (({} : ScanState).run d rows).1.mode with
    | data =>
        obtain ⟨width, hwidth, hdeclaring⟩ := turn.opens hmode hmode'
        rw [run_start_append] at hmode'
        refine ⟨rows, [.ok row], width, rfl,
          ⟨hmode, List.cons_ne_nil _ _, ⟨hmode', trivial⟩, trivial⟩, hwidth, ?_⟩
        exact declarations_concat width [] _ ▸ hdeclaring
    | annotations =>
        exact (h.annotations hmode).concat hmode' fun width declared hwidth hdeclaring =>
          turn.declaring hdeclaring hwidth hmode hmode'
    | failed => cases hmode'.symm.trans (turn.mode_eq_failed_iff.2 (.inl hmode))
  · intro hmode' head hhead
    cases hmode : (({} : ScanState).run d rows).1.mode with
    | data =>
        obtain ⟨before, hbefore, hcolumns⟩ := turn.columns_eq hmode hmode' hhead
        exact (h.data hmode before hbefore).concat hmode' hcolumns
    | annotations =>
        obtain ⟨front, notes, width, rfl, hblock, hwidth, hdeclaring⟩ := h.annotations hmode
        obtain ⟨hdeclared, k, hk, htypes, hnames⟩ := turn.of_names hdeclaring hmode hmode'
        obtain rfl := Option.some.inj (hhead.symm.trans hk)
        have hlength : head.columns.length = width := by
          rw [← length_declaredTypes width (declarations width notes), ← htypes,
            TableHead.dataTypes, List.length_map]
        rw [List.append_assoc, run_start_append] at hmode'
        exact ⟨front, notes, row, [], List.append_assoc _ _ _, hblock.concat hmode',
          ⟨hnames, hlength ▸ hdeclared, hlength ▸ htypes⟩⟩
    | failed => cases hmode'.symm.trans (turn.mode_eq_failed_iff.2 (.inl hmode))

/-- Whatever the rows are, the annotations of the open block are among them. -/
theorem traced_run (d : Destinations) (rows : List (Except Csv.RowFault Csv.Row)) :
    Traced d rows (({} : ScanState).run d rows).1 := by
  induction rows using List.reverseRecOn with
  | nil => exact ⟨nofun, nofun⟩
  | append_singleton rows row ih =>
      cases row with
      | error fault => exact ih.concat_error fault
      | ok row => exact ih.concat row

end Traces

namespace Scan

variable {d : Destinations} {input : Csv.Input} {n : Nat} {h : TableHead}

/-- The row that brings the table of a call, and what the call stands behind. -/
theorem exists_row_of_call_table
    (hcall : (ofInput d input).call nextEvent n = .ok (some (.table h))) :
    ∃ before row back, input.rows = before ++ .ok row :: back ∧
      n = (({} : ScanState).run d before).2.length ∧
        BlockAtEnd d (before ++ [.ok row]) h := by
  obtain ⟨before, row, back, j, hrows, hn, hget⟩ :=
    exists_row_of_getElem?_run (of_call_eq_some hcall).2
  cases row with
  | error fault => cases List.mem_singleton.1 (List.mem_of_getElem? hget)
  | ok row =>
      have turn := turn_step d (({} : ScanState).run d before).1 row
      obtain ⟨rfl, hmode, hblock⟩ := turn.of_table hget
      have hstep : (({} : ScanState).run d (before ++ [.ok row])).1 =
          ((({} : ScanState).run d before).1.step d row).1 := run_concat _ _ _
      rw [← hstep] at hmode hblock
      exact ⟨before, row, back, hrows, hn, (traced_run d _).data hmode h hblock⟩

/-- Reading event by event and going on behind faults. A table that a call returns is that of a
block: the annotations from the one that opens it among data rows on, a row of names, which are the
names of the columns, and the data rows up to the one that is read by the call, if it is not the row
of names. Its types are what the rows of types among the annotations, of which there is one at least,
have made of texts. They are those that the last one names if and only if it names nothing else. -/
theorem tables_have_declared_types
    (hcall : (ofInput d input).call nextEvent n = .ok (some (.table h))) :
    ∃ front notes header more back,
      let block := front ++ (notes ++ .ok header :: more)
      input.rows = block ++ back ∧ n = (({} : ScanState).run d block.dropLast).2.length ∧
        BlockRows d (({} : ScanState).run d front).1 notes (.ok header :: more) ∧
          header.cells = "" :: h.columns.map Column.name ∧
            let declared := declarations h.columns.length notes
            h.dataTypes = declaredTypes h.columns.length declared ∧
              ∃ last, declared.getLast? = some last ∧
                (h.dataTypes.map some = last.map DataType.ofName? ↔
                  ∀ name ∈ last, (DataType.ofName? name).isSome = true) := by
  obtain ⟨before, row, back, hrows, hn, front, notes, header, more, hsplit, hblock, hheaded⟩ :=
    exists_row_of_call_table hcall
  refine ⟨front, notes, header, more, back, ?_, ?_, hblock, hheaded.names, hheaded.types,
    hheaded.exists_last⟩
  · rw [← hsplit, hrows, List.append_assoc]
    rfl
  · rw [← hsplit, List.dropLast_concat, hn]

/-- A type that is none is told, and another row of types takes its place. -/
theorem tables_have_declared_types_of_second_row :
    let input : Csv.Input :=
      { bytes := Text.utf8Bytes "#datatype,long,decimal\n#datatype,double,boolean\n,a,b\n" }
    let s := ofInput {} input
    s.call nextEvent 0 = .error (.unknownDataType "decimal") ∧
      ∃ h notes last, s.call nextEvent 1 = .ok (some (.table h)) ∧
        h.dataTypes = [.double, .bool] ∧ (declarations 2 notes).getLast? = some last ∧
          (h.dataTypes.map some = last.map DataType.ofName? ↔
            ∀ name ∈ last, (DataType.ofName? name).isSome = true) := by
  intro input s
  let h : TableHead :=
    ⟨0, [⟨0, "a", .double, false, "", false⟩, ⟨1, "b", .bool, false, "", false⟩]⟩
  have hcall : s.call nextEvent 1 = .ok (some (.table h)) := by decide +kernel
  obtain ⟨front, notes, header, more, back, -, -, -, -, -, last, hlast, hiff⟩ :=
    tables_have_declared_types hcall
  exact ⟨by decide +kernel, h, notes, last, hcall, rfl, hlast, hiff⟩

/-- A type that is none is told, and behind it there is a table with the types in front of it only.
What was said to be a number in its last column is read as a text. -/
theorem types_declared_in_part :
    let input : Csv.Input :=
      { bytes := Text.utf8Bytes
          "#datatype,long,decimal,long\n#group,false,false,false\n#default,,,\n,a,b,c\n,1,2,3\n" }
    let s := ofInput {} input
    s.call nextEvent 0 = .error (.unknownDataType "decimal") ∧
      (∃ h, s.call nextEvent 1 = .ok (some (.table h)) ∧
        h.columns.map Column.name = ["a", "b", "c"] ∧ h.dataTypes = [.long, .string, .string]) ∧
      (s.events 3).map (fun | .table _ => none | .record r => r.get? "c") =
        [none, some (.string "3")] := by
  intro input s
  let h : TableHead := ⟨0, [⟨0, "a", .long, false, "", false⟩, ⟨1, "b", .string, false, "", false⟩,
    ⟨2, "c", .string, false, "", false⟩]⟩
  have hcall : s.call nextEvent 1 = .ok (some (.table h)) := by decide +kernel
  exact ⟨by decide +kernel, ⟨h, hcall, rfl, rfl⟩, by decide +kernel⟩

end Scan

end TimeSeries
