import TimeSeries.Proofs.Table.Ending
import TimeSeries.Proofs.Table.Faults
import TimeSeries.Proofs.Time.Span

/-!
# Cells that cannot be read

A data row tells of its first cell that cannot be read: the name of the column and the text, which is
the default of the column if the cell is empty. `malformed_cells_are_told` says so for every response
and for a reader that goes on behind faults, and it names the only exception, which is a call that
never returns: that of a length of time with a unit that is cut inside a character.
-/

namespace TimeSeries

/-- The text is written as a value of the type. -/
def DataType.parses (t : DataType) (s : String) : Bool :=
  match t with
  | .string => true
  | .double => (Number.readFloat? s).isSome
  | .bool => (readBool? s).isSome
  | .long => (Number.readInt64 s).isOk
  | .unsignedLong => (Number.readUInt64 s).isOk
  | .duration => (Span.read s).isOk
  | .base64Binary => (Base64.decode (Text.utf8Bytes s)).isOk
  | .time => (Moment.read s).isOk

/-- The text is a length of time that is cut. -/
def DataType.Cuts (t : DataType) (s : String) : Prop :=
  t = .duration ∧ Span.read s = .error .cut

/-- The cell has a text, but not one that is written as a value of its column. -/
def Column.refuses (c : Column) (cell : String) : Bool :=
  decide (c.textOf cell ≠ "") && !c.dataType.parses (c.textOf cell)

/-- The first cell of a row that cannot be read, with its column. -/
def refused? (columns : List Column) (cells : List String) : Option (Column × String) :=
  (columns.zip cells).find? fun e => e.1.refuses e.2

theorem DataType.read_of_parses {t : DataType} {s : String} (h : t.parses s = true)
    (column : String) : ∃ v, t.read column s = .ok v := by
  cases t with
  | string => exact ⟨_, rfl⟩
  | _ =>
      simp only [parses, read] at h ⊢
      split <;> simp_all [Except.isOk, Except.toBool]

/-- A text that is not written as a value of the type is cut, or it is told with its column. -/
theorem DataType.read_of_not_parses {t : DataType} {s : String} (h : t.parses s = false)
    (column : String) :
    t.Cuts s ∧ t.read column s = .error .halted ∨
      ¬t.Cuts s ∧ ∃ fault, t.read column s = .error (.malformedCell column s fault) := by
  cases t with
  | string => cases h
  | _ =>
      simp only [parses, read, Cuts] at h ⊢
      split <;> simp_all [Except.isOk, Except.toBool]

section Cells

variable {columns : List Column} {cells : List String} {c : Column} {cell : String}

theorem Column.read_of_not_refuses (h : c.refuses cell = false) : ∃ v, c.read cell = .ok v := by
  rw [Column.read, DataType.readText]
  by_cases hnothing : c.textOf cell = "" ∧ c.dataType ≠ .string
  · exact ⟨.null, if_pos hnothing⟩
  · rw [if_neg hnothing]
    refine DataType.read_of_parses ?_ _
    by_cases hempty : c.textOf cell = ""
    · have hstring : c.dataType = .string := by
        by_contra hother
        exact hnothing ⟨hempty, hother⟩
      rw [hstring]
      rfl
    · simpa [refuses, hempty] using h

theorem Column.read_of_refuses (h : c.refuses cell = true) :
    c.dataType.Cuts (c.textOf cell) ∧ c.read cell = .error .halted ∨
      ¬c.dataType.Cuts (c.textOf cell) ∧
        ∃ fault, c.read cell = .error (.malformedCell c.name (c.textOf cell) fault) := by
  obtain ⟨hsome, hparses⟩ : c.textOf cell ≠ "" ∧ c.dataType.parses (c.textOf cell) = false := by
    simpa [refuses] using h
  rw [Column.read, DataType.readText, if_neg fun hno => hsome hno.1]
  exact DataType.read_of_not_parses hparses c.name

/-- All cells of a row are read, up to the first one that cannot be. -/
theorem readCells_of_refused? (columns : List Column) (cells : List String) :
    (refused? columns cells = none → ∃ read, readCells columns cells = .ok read) ∧
      ∀ c cell, refused? columns cells = some (c, cell) →
        c.refuses cell = true ∧
          ∀ e, c.read cell = .error e → readCells columns cells = .error e := by
  induction columns generalizing cells with
  | nil => exact ⟨fun _ => ⟨[], rfl⟩, fun _ _ h => by cases h⟩
  | cons c columns ih =>
      cases cells with
      | nil => exact ⟨fun _ => ⟨[], rfl⟩, fun _ _ h => by cases h⟩
      | cons cell cells =>
          rw [refused?, List.zip_cons_cons, List.find?_cons, readCells]
          cases hrefuses : c.refuses cell with
          | true =>
              refine ⟨fun h => ?_, fun c' cell' h => ?_⟩
              · cases h
              · obtain ⟨rfl, rfl⟩ := Prod.mk.inj (Option.some.inj h)
                refine ⟨hrefuses, fun e he => ?_⟩
                rw [he]
          | false =>
              obtain ⟨v, hv⟩ := Column.read_of_not_refuses hrefuses
              obtain ⟨hnone, hsome⟩ := ih cells
              rw [hv]
              refine ⟨fun h => ?_, fun c' cell' h => ?_⟩
              · obtain ⟨read, hread⟩ := hnone h
                exact ⟨(c, v) :: read, by simp only [hread]; rfl⟩
              · obtain ⟨hrefuses, hread⟩ := hsome c' cell' h
                exact ⟨hrefuses, fun e he => by simp only [hread e he]; rfl⟩

end Cells

namespace ScanState

variable {d : Destinations} {s s' : ScanState} {row : Csv.Row} {c : Column} {cell : String}
  {out : List (Except TableError Event)}

/-- The row is a data row of the current table and as wide as it, and this is the first of its cells
that cannot be read. -/
def Refuses (s : ScanState) (row : Csv.Row) (c : Column) (cell : String) : Prop :=
  ∃ cells h, s.Fits row "" cells h ∧ s.mode = .data ∧ refused? h.columns cells = some (c, cell)

/-- What a row does that fits its block. -/
theorem Fits.step_eq {first : String} {cells : List String} {h : TableHead}
    (fits : s.Fits row first cells h) :
    s.step d row =
      if first = "" then
        match s.mode with
        | .annotations => (s.reach row false).nameRow d h cells
        | .failed => (s.reach row false).failureRow cells
        | .data => (s.reach row false).dataRow d h cells
      else ((s.reach row false).opened first cells).annotationRow h first cells := by
  obtain ⟨found, line⟩ := row
  obtain rfl : found = first :: cells := fits.eq_cons
  rw [step_cons fits.ne_nil, blockRow, ← opened, fits.block]
  simp only [fits.width, ne_eq, not_true_eq_false, if_false]
  split
  · next hfirst =>
      subst hfirst
      rw [opened_empty]
      rfl
  · rfl

theorem Fits.step_dataRow {cells : List String} {h : TableHead} (fits : s.Fits row "" cells h)
    (hmode : s.mode = .data) : s.step d row = (s.reach row false).dataRow d h cells := by
  rw [fits.step_eq, if_pos rfl, hmode]

theorem Refuses.refuses (hrow : s.Refuses row c cell) : c.refuses cell = true := by
  obtain ⟨cells, h, -, -, hrefused⟩ := hrow
  exact ((readCells_of_refused? h.columns cells).2 c cell hrefused).1

/-- A row with a cell that cannot be read brings the fault of that cell and nothing else. -/
theorem Refuses.step (hrow : s.Refuses row c cell) {e : TableError} (he : c.read cell = .error e) :
    (s.step d row).2 = [.error e] := by
  obtain ⟨cells, h, fits, hmode, hrefused⟩ := hrow
  have hread := ((readCells_of_refused? h.columns cells).2 c cell hrefused).2 e he
  have hrecord : ∀ position, readRecord d { h with position := position } cells = .error e := by
    intro position
    simp only [readRecord, hread]
    rfl
  rw [fits.step_dataRow hmode, dataRow_eq]
  split
  · rw [hrecord]
    rfl
  · have hsame := hrecord h.position
    rw [hsame]
    rfl

/-- A row halts only if it holds a cell that is cut. -/
theorem Turn.exists_cuts (turn : Turn d s row s' out) (hhalted : .error .halted ∈ out) :
    ∃ c cell, s.Refuses row c cell ∧ c.dataType.Cuts (c.textOf cell) := by
  have hmode := (turn.of_error_mem hhalted).2 rfl
  have hrow : ∀ cells h, s.Fits row "" cells h → readCells h.columns cells = .error .halted →
      ∃ c cell, s.Refuses row c cell ∧ c.dataType.Cuts (c.textOf cell) := by
    intro cells h fits hread
    obtain ⟨hnone, hsome⟩ := readCells_of_refused? h.columns cells
    cases hrefused : refused? h.columns cells with
    | none =>
        obtain ⟨read, hok⟩ := hnone hrefused
        rw [hread] at hok
        cases hok
    | some x =>
        obtain ⟨c, cell⟩ := x
        obtain ⟨hrefuses, hfault⟩ := hsome c cell hrefused
        refine ⟨c, cell, ⟨cells, h, fits, hmode, hrefused⟩, ?_⟩
        rcases Column.read_of_refuses hrefuses with ⟨hcuts, -⟩ | ⟨-, fault, hcell⟩
        · exact hcuts
        · rw [hfault _ hcell] at hread
          cases hread
  cases turn with
  | malformed fits _ _ _ hrecord =>
      obtain rfl := Except.error.inj (List.mem_singleton.1 hhalted)
      exact hrow _ _ fits (of_readRecord_eq_error hrecord)
  | @lost cells h e fits _ _ _ hrecord =>
      obtain rfl := Except.error.inj (List.mem_singleton.1 hhalted)
      have hread := of_readRecord_eq_error hrecord
      exact hrow cells h fits hread
  | annotates fits hfirst => exact absurd rfl (of_error_mem_annotationRow hhalted).2
  | failure | _ => simp [reported] at hhalted

/-- Every result of some rows comes from one of them, in the place behind the results of the rows in
front. -/
theorem exists_row_of_getElem?_run {rows : List (Except Csv.RowFault Csv.Row)} {i : Nat}
    {x : Except TableError Event} (hi : (s.run d rows).2[i]? = some x) :
    ∃ front row back j, rows = front ++ row :: back ∧ i = (s.run d front).2.length + j ∧
      ((s.run d front).1.next d row).2[j]? = some x := by
  induction rows generalizing s i with
  | nil => cases hi
  | cons row rows ih =>
      simp only [run] at hi
      by_cases hrow : i < (s.next d row).2.length
      · rw [List.getElem?_append_left hrow] at hi
        exact ⟨[], row, rows, i, rfl, (Nat.zero_add i).symm, hi⟩
      · rw [List.getElem?_append_right (Nat.not_lt.1 hrow)] at hi
        obtain ⟨front, row', back, j, rfl, hj, hx⟩ := ih hi
        refine ⟨row :: front, row', back, j, rfl, ?_, hx⟩
        simp only [run, List.length_append]
        omega

/-- The fault of a row is the result behind those of the rows in front. -/
theorem Refuses.getElem?_run {front : List (Except Csv.RowFault Csv.Row)}
    (hrow : (s.run d front).1.Refuses row c cell) {e : TableError} (he : c.read cell = .error e)
    (back : List (Except Csv.RowFault Csv.Row)) :
    (s.run d (front ++ .ok row :: back)).2[(s.run d front).2.length]? = some (.error e) := by
  rw [run_append, List.getElem?_append_right le_rfl, Nat.sub_self]
  simp only [run, next, hrow.step he]
  rfl

end ScanState

namespace Scan

variable {d : Destinations} {input : Csv.Input}

/-- A call for an event halts if and only if a result up to its number does. -/
theorem call_nextEvent_eq_halted_iff {s : Scan} (hs : s.ending ≠ some .halted) (n : Nat) :
    s.call nextEvent n = .error .halted ↔ .error .halted ∈ s.results.take (n + 1) := by
  obtain ⟨results, ending⟩ := s
  induction results generalizing n with
  | nil =>
      rw [consumes_nextEvent.call_of_nil rfl, List.take_nil]
      refine iff_of_false (fun hcall => ?_) List.not_mem_nil
      cases ending with
      | none => cases hcall
      | some e => exact hs (congrArg some (Except.error.inj hcall))
  | cons result rest ih =>
      by_cases hhalted : result = .error .halted
      · subst hhalted
        exact iff_of_true (call_of_halted rfl n) List.mem_cons_self
      · rw [List.take_succ_cons, List.mem_cons, or_iff_right (Ne.symm hhalted)]
        have hfirst : (nextEvent ⟨result :: rest, ending⟩).1 ≠ .error .halted := by
          cases result with
          | ok e => nofun
          | error e => simpa [nextEvent] using hhalted
        cases n with
        | zero => exact iff_of_false hfirst List.not_mem_nil
        | succ n =>
            rw [call_succ, resume_of_ne hfirst]
            cases result <;> exact ih n hs

/-- A call returns the fault of its number, unless an earlier one has halted. -/
theorem call_nextEvent_eq_error {s : Scan} {n : Nat} {e : TableError}
    (hn : s.results[n]? = some (.error e)) (hs : .error .halted ∉ s.results.take n) :
    s.call nextEvent n = .error e := by
  rw [← List.head?_drop] at hn
  obtain ⟨rest, hrest⟩ := List.head?_eq_some_iff.1 hn
  rw [call, iterate_resume_nextEvent hs, hrest]
  rfl

open ScanState

/-- A length of time that is cut halts the call of its place and every later one. -/
theorem call_of_cuts {front back : List (Except Csv.RowFault Csv.Row)} {row : Csv.Row} {c : Column}
    {cell : String} (hrows : input.rows = front ++ .ok row :: back)
    (hrow : (({} : ScanState).run d front).1.Refuses row c cell)
    (hcuts : c.dataType.Cuts (c.textOf cell)) {n : Nat}
    (hn : (({} : ScanState).run d front).2.length ≤ n) :
    (ofInput d input).call nextEvent n = .error .halted := by
  rcases Column.read_of_refuses hrow.refuses with ⟨-, hread⟩ | ⟨hno, -⟩
  · have hget := hrow.getElem?_run hread back
    rw [← hrows] at hget
    rw [← List.getElem?_take_of_lt (Nat.lt_succ_of_le hn)] at hget
    exact (call_nextEvent_eq_halted_iff (ending_ne_halted d input) n).2 (List.mem_of_getElem? hget)
  · exact absurd hcuts hno

/-- Reading event by event and going on behind faults. A call halts if and only if a data row, whose
results are among those up to the number of the call, has a length of time that is cut for its first
cell that cannot be read. Any other data row with such a cell is told by a call, with the name of
its column and its text, unless a call in front of it has halted. What is cut is a length of time
with a foreign character, and a number of up to eighteen digits always is if a unit with such a
character stands behind it. -/
theorem malformed_cells_are_told (d : Destinations) (input : Csv.Input) :
    let s := ofInput d input
    let behind := ({} : ScanState).run d
    (∀ n, s.call nextEvent n = .error .halted ↔
      ∃ front row back c cell, input.rows = front ++ .ok row :: back ∧
        (behind front).1.Refuses row c cell ∧ c.dataType.Cuts (c.textOf cell) ∧
        (behind front).2.length ≤ n) ∧
    (∀ front row back c cell, input.rows = front ++ .ok row :: back →
      (behind front).1.Refuses row c cell →
        s.call nextEvent (behind front).2.length = .error .halted ∨
          ∃ fault, s.call nextEvent (behind front).2.length =
            .error (.malformedCell c.name (c.textOf cell) fault)) ∧
    (∀ (t : DataType) text, t.Cuts text → t = .duration ∧ ∃ c ∈ text.toList, Span.Foreign c) ∧
    ∀ digits unit : List Char, digits ≠ [] → digits.length ≤ 18 →
      (∀ c ∈ digits, Number.isDigit c = true) → (∀ c ∈ unit, Span.isUnitChar c = true) →
      (∃ c ∈ unit, Span.Foreign c) → DataType.duration.Cuts (String.ofList (digits ++ unit)) := by
  intro s behind
  have hhalted := call_nextEvent_eq_halted_iff (ending_ne_halted d input)
  refine ⟨fun n => ⟨fun hcall => ?_, ?_⟩, fun front row back c cell hrows hrow => ?_, ?_,
    fun digits unit hne hlength hdigits hunit hforeign => ?_⟩
  · obtain ⟨i, hi⟩ := List.mem_iff_getElem?.1 ((hhalted n).1 hcall)
    rw [List.getElem?_take, Option.ite_none_right_eq_some] at hi
    obtain ⟨hle, hget⟩ := hi
    obtain ⟨front, row, back, j, hrows, hj, hrow⟩ := exists_row_of_getElem?_run hget
    have hmem := List.mem_of_getElem? hrow
    cases row with
    | error fault => cases List.mem_singleton.1 hmem
    | ok row =>
        obtain ⟨c, cell, hrefuses, hcuts⟩ := (turn_step d _ row).exists_cuts hmem
        have hn : (run d {} front).2.length ≤ n := by omega
        exact ⟨front, row, back, c, cell, hrows, hrefuses, hcuts, hn⟩
  · rintro ⟨front, row, back, c, cell, hrows, hrow, hcuts, hn⟩
    exact call_of_cuts hrows hrow hcuts hn
  · rcases Column.read_of_refuses hrow.refuses with ⟨hcuts, -⟩ | ⟨-, fault, hread⟩
    · exact .inl (call_of_cuts hrows hrow hcuts le_rfl)
    · by_cases hfront : .error .halted ∈ s.results.take (behind front).2.length
      · left
        exact (hhalted _).2 (List.take_subset_take_left _ (Nat.le_succ _) hfront)
      · have hget := hrow.getElem?_run hread back
        rw [← hrows] at hget
        exact .inr ⟨fault, call_nextEvent_eq_error hget hfront⟩
  · rintro t text ⟨htype, hread⟩
    exact ⟨htype, Span.exists_foreign_of_read hread⟩
  · exact ⟨rfl, Span.read_of_foreign_unit hdigits hne hlength hunit hforeign⟩

/-- A response with a column of lengths of time and these rows. -/
def durationTable (rows : List String) : Csv.Input :=
  { bytes := (["#datatype,long,duration", "#group,false,false", ",table,_value"] ++ rows).flatMap
      fun row => Text.utf8Bytes row ++ [Csv.lineFeed] }

/-- The first row is told, and from the second one on every call halts. -/
theorem malformed_cells_are_told_in_two_rows :
    let s := ofInput {} (durationTable [",0,1x", ",0,1é"])
    (∃ fault, s.call nextEvent 1 = .error (.malformedCell "_value" "1x" fault)) ∧
      ∀ n, 2 ≤ n → s.call nextEvent n = .error .halted := by
  intro s
  let input := durationTable [",0,1x", ",0,1é"]
  let c : Column := { index := 1, name := "_value", dataType := .duration }
  let h : TableHead := ⟨0, [{ index := 0, name := "table", dataType := .long }, c]⟩
  obtain ⟨hhalted, htold, -, hforeign⟩ := malformed_cells_are_told {} input
  have hfirst : (({} : ScanState).run {} (input.rows.take 3)).1.Refuses ⟨["", "0", "1x"], 5⟩ c
      "1x" :=
    ⟨_, h, ⟨rfl, by decide, by decide +kernel, rfl⟩, by decide +kernel, by decide +kernel⟩
  have hsecond : (({} : ScanState).run {} (input.rows.take 4)).1.Refuses ⟨["", "0", "1é"], 6⟩ c
      "1é" :=
    ⟨_, h, ⟨rfl, by decide, by decide +kernel, rfl⟩, by decide +kernel, by decide +kernel⟩
  refine ⟨?_, fun n hn => ?_⟩
  · have hrows : input.rows = input.rows.take 3 ++ .ok ⟨["", "0", "1x"], 5⟩ ::
        [.ok ⟨["", "0", "1é"], 6⟩] := by decide +kernel
    have hlength : (({} : ScanState).run {} (input.rows.take 3)).2.length = 1 := by decide +kernel
    have hcall := htold _ _ _ _ _ hrows hfirst
    rw [hlength] at hcall
    exact hcall.resolve_left (by decide +kernel)
  · have hrows : input.rows = input.rows.take 4 ++ .ok ⟨["", "0", "1é"], 6⟩ :: [] := by
      decide +kernel
    have hlength : (({} : ScanState).run {} (input.rows.take 4)).2.length = 2 := by decide +kernel
    have hcuts : DataType.duration.Cuts "1é" :=
      hforeign ['1'] ['é'] (List.cons_ne_nil _ _) (by decide) (List.forall_mem_singleton.2 rfl)
        (List.forall_mem_singleton.2 rfl) ⟨'é', List.mem_cons_self, by decide⟩
    have htext : c.textOf "1é" = "1é" := by decide
    refine (hhalted n).2 ⟨_, _, _, _, _, hrows, hsecond, htext ▸ hcuts, ?_⟩
    rwa [hlength]

/-- A table is told, and the call behind it does not return, although its row is as wide as the
table. -/
theorem halted_behind_table :
    let input := durationTable [",0,1é"]
    let s := ofInput {} input
    (∃ row c, input.rows[3]? = some (.ok row) ∧
      (({} : ScanState).run {} (input.rows.take 3)).1.Refuses row c "1é" ∧ c.name = "_value") ∧
    (s.call nextEvent 0).toOption.join.isSome = true ∧
      ∀ n, s.call nextEvent (n + 1) = .error .halted := by
  intro input s
  let c : Column := { index := 1, name := "_value", dataType := .duration }
  let h : TableHead := ⟨0, [{ index := 0, name := "table", dataType := .long }, c]⟩
  have hrow : (({} : ScanState).run {} (input.rows.take 3)).1.Refuses ⟨["", "0", "1é"], 5⟩ c "1é" :=
    ⟨_, h, ⟨rfl, by decide, by decide +kernel, rfl⟩, by decide +kernel, by decide +kernel⟩
  refine ⟨⟨_, c, by decide +kernel, hrow, rfl⟩, by decide +kernel, fun n => ?_⟩
  rw [call_succ]
  exact call_of_halted (by decide +kernel) n

end Scan

end TimeSeries
