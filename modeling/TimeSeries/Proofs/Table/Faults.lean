import TimeSeries.Proofs.Table.Turn

/-!
# The faults of a row

Most ways through a row that end in a fault name it themselves. The others are cells that have not
the type of their column and annotations that name no type. `Turn.of_error_mem` says what all of
them have in common: no row ever tells that a record stands in front of all tables, and nothing but
a data row can halt the reader.
-/

namespace TimeSeries

theorem DataType.ne_noTable_of_read {t : DataType} {column cell : String} {e : TableError}
    (h : t.read column cell = .error e) : e ≠ .noTable := by
  cases t <;> simp only [DataType.read] at h <;> (try split at h) <;> cases h <;> nofun

theorem Column.ne_noTable_of_read {c : Column} {cell : String} {e : TableError}
    (h : c.read cell = .error e) : e ≠ .noTable := by
  rw [Column.read, DataType.readText] at h
  split at h
  · cases h
  · exact DataType.ne_noTable_of_read h

theorem ne_noTable_of_readCells {columns : List Column} {cells : List String} {e : TableError}
    (h : readCells columns cells = .error e) : e ≠ .noTable := by
  induction columns generalizing cells with
  | nil => cases h
  | cons c columns ih =>
      cases cells with
      | nil => cases h
      | cons cell cells =>
          rcases of_readCells_cons_eq_error h with hcell | hrest
          · exact Column.ne_noTable_of_read hcell
          · exact ih hrest

theorem exists_unknownDataType_of_setTypes {columns : List Column} {cells : List String}
    {e : TableError} (h : (setTypes columns cells).2 = some e) :
    ∃ name, e = .unknownDataType name := by
  induction columns generalizing cells with
  | nil => cases h
  | cons c columns ih =>
      cases cells with
      | nil => cases h
      | cons cell cells =>
          rw [setTypes] at h
          split at h
          · exact ih h
          · exact ⟨cell, (Option.some.inj h).symm⟩

namespace ScanState

variable {d : Destinations} {s s' : ScanState} {row : Csv.Row}
  {out : List (Except TableError Event)} {e : TableError}

theorem of_error_mem_annotationRow {h : TableHead} {first : String} {cells : List String}
    (he : .error e ∈ (s.annotationRow h first cells).2) : e ≠ .noTable ∧ e ≠ .halted := by
  rw [annotationRow] at he
  split at he
  · have hfault : (setTypes h.columns cells).2 = some e := by simpa using he
    obtain ⟨name, rfl⟩ := exists_unknownDataType_of_setTypes hfault
    exact ⟨by simp, by simp⟩
  · split at he
    · cases he
    · split at he
      · cases he
      · obtain rfl : e = .firstCell first := by simpa using he
        exact ⟨by simp, by simp⟩

/-- No row tells that a record stands in front of all tables, and only a data row can halt. -/
theorem Turn.of_error_mem (turn : Turn d s row s' out) (he : .error e ∈ out) :
    e ≠ .noTable ∧ (e = .halted → s.mode = .data) := by
  cases turn with
  | annotates fits hfirst =>
      obtain ⟨htable, hhalted⟩ := of_error_mem_annotationRow he
      exact ⟨htable, fun h => absurd h hhalted⟩
  | malformed fits hmode hbegins hread hrecord =>
      obtain rfl := Except.error.inj (List.mem_singleton.1 he)
      exact ⟨ne_noTable_of_readCells (of_readRecord_eq_error hrecord), fun _ => hmode⟩
  | lost fits hmode hbegins hread hrecord =>
      obtain rfl := Except.error.inj (List.mem_singleton.1 he)
      exact ⟨ne_noTable_of_readCells (of_readRecord_eq_error hrecord), fun _ => hmode⟩
  | blank | report | names | record | table => simp at he
  | single | homeless | width | untyped | failure =>
      obtain rfl := Except.error.inj (List.mem_singleton.1 he)
      exact ⟨nofun, nofun⟩

end ScanState
end TimeSeries
